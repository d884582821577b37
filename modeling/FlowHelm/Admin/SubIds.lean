/-
  FlowHelm.Admin.SubIds — user-manager.ts: the names users may have, and a new user's sub-UIDs
  and sub-GIDs.

  One start is read from /etc/subuid and written to both files; each file is read whole as
  UTF-8 and written back with a line behind it.

  - `lines_kept_iff`: a file keeps its lines just if it is UTF-8 and ends in a newline.
  - `sub_ids_apart`: all calls keep lines and take ids of their own just if both files are so
    and no range in /etc/subgid ends above all that are read in /etc/subuid.
-/
import FlowHelm.Lib.Js
import FlowHelm.Lib.JsInteger
import FlowHelm.Lib.Lines
import FlowHelm.Lib.Runs
import FlowHelm.Lib.Utf16

namespace FlowHelm.Admin

open Js Lines Runs

/-! ## Names -/

def linuxUserPrefix : JsString := ofString "flowhelm-"

def linuxUser (name : JsString) : JsString := linuxUserPrefix ++ name

def isLower (u : UInt16) : Bool := 0x61 ≤ u && u ≤ 0x7A

/-- [a-z0-9_-] -/
def isNameUnit (u : UInt16) : Bool := isLower u || (0x30 ≤ u && u ≤ 0x39) || u == 0x5F || u == 0x2D

/-- `none` where the name is accepted. -/
def validateName (name : JsString) : Option JsString :=
  if name = [] then some (ofString "Username cannot be empty")
  else if 24 < name.length then some (ofString "Username must be 24 characters or fewer")
  else if !(name.head?.any isLower && name.all isNameUnit) then
    some (ofString "Username must start with a lowercase letter and contain only a-z, 0-9, _, -")
  else if name = ofString "admin" ∨ name = ofString "root" then some (ofString "Reserved username: " ++ name)
  else none

/-! ## The files -/

abbrev Bytes := List UInt8

/-- /etc/subuid and /etc/subgid, where they exist. -/
structure SubIdFiles where
  subuid : Option Bytes
  subgid : Option Bytes

def subIdRange : Nat := 65536

/-- `readFile(path, 'utf-8')`; `none` where there is no file. -/
def readFile (file : Option Bytes) : Option JsString := file.map fun bytes => (Utf8.decode bytes).flatMap utf16

def isNaN (x : JsNumber) : Bool := x = .nan

/-- The greatest end so far, and that of a line. -/
def nextEnd (maxEnd : JsNumber) (line : JsString) : JsNumber := match line.splitOn 0x3A with
  | _ :: start :: count :: _ =>
    let start := JsNumber.parse start
    let count := JsNumber.parse count
    if !isNaN start && !isNaN count then maxEnd.max (start.add count) else maxEnd
  | _ => maxEnd

def findNextSubIdStart (subuid : Option Bytes) : JsNumber :=
  let maxEnd := JsNumber.int 100000 (by decide)
  match readFile subuid with
  | some content => (content.splitOn 0x0A).foldl nextEnd maxEnd
  | none => maxEnd

def appendFile (file : Option Bytes) (content : JsString) : Bytes :=
  Utf8.encode (toWellFormed ((readFile file).getD [] ++ content))

/-- A line of either file. -/
def subIdLine (linuxUser : JsString) (nextStart : JsNumber) : JsString :=
  linuxUser ++ ofString ":" ++ ofString (String.ofList nextStart.toText) ++ ofString ":" ++ ofString
    (toString subIdRange) ++ ofString "\n"

def allocateSubIds (files : SubIdFiles) (linuxUser : JsString) : SubIdFiles :=
  let nextStart := findNextSubIdStart files.subuid
  ⟨some (appendFile files.subuid (subIdLine linuxUser nextStart)), some (appendFile files.subgid (subIdLine linuxUser nextStart))⟩

/-- Users are created one after the other, under names that are accepted. -/
def calls (files : SubIdFiles) : System SubIdFiles JsString where
  init := files
  step files name := if validateName name = none then some (allocateSubIds files (linuxUser name)) else none

/-! ## Ranges -/

structure Range where
  start : Nat
  count : Nat
  deriving DecidableEq

def Range.Has (r : Range) (id : Nat) : Prop := r.start ≤ id ∧ id < r.start + r.count

def decimal? (ds : List Char) : Option Nat := if ds ≠ [] ∧ ds.all Char.isDigit then some (Nat.ofDigitChars 10 ds 0) else none

/-- The range in a line: three fields, of which two are decimal numbers. -/
def rangeOf (line : List Char) : Option Range := match line.splitOn ':' with
  | [_, start, count] => do return ⟨← decimal? start, ← decimal? count⟩
  | _ => none

def linesOf (file : Option Bytes) : List Bytes := lines 0x0A (file.getD [])

def ranges (file : Option Bytes) : List Range := (linesOf file).filterMap fun line => rangeOf (Utf8.decode line)

/-- A file has every line it had, and one range more: as many ids as a user gets, none of them of
    a range it had. -/
structure Extends (before after : Option Bytes) : Prop where
  range : ∃ new, ranges after = ranges before ++ [new] ∧ new.count = subIdRange ∧
    ∀ r ∈ ranges before, ∀ id, new.Has id → ¬r.Has id
  lines : (linesOf before).Sublist (linesOf after)

/-- What the next call has to do. -/
structure Safe (files : SubIdFiles) (linuxUser : JsString) : Prop where
  uids : Extends files.subuid (allocateSubIds files linuxUser).subuid
  gids : Extends files.subgid (allocateSubIds files linuxUser).subgid

/-! ## The condition -/

/-- In UTF-8, and ending in a newline where there is anything. -/
def Whole (file : Option Bytes) : Prop :=
  Terminated 0x0A (file.getD []) ∧ Utf8.encode (Utf8.decode (file.getD [])) = file.getD []

instance (file : Option Bytes) : Decidable (Whole file) := inferInstanceAs (Decidable (_ ∧ _))

/-- The start and the count that are read in a line. -/
def readLine (line : JsString) : Option (Int × Int) := match line.splitOn 0x3A with
  | _ :: start :: count :: _ => do return (← parseInt start, ← parseInt count)
  | _ => none

def reads (file : Option Bytes) : List (Int × Int) := (((readFile file).getD []).splitOn 0x0A).filterMap readLine

/-- Both files keep lines, and no range of sub-GIDs ends above 100000 and above every end read
    in /etc/subuid. -/
structure Separable (files : SubIdFiles) : Prop where
  uids : Whole files.subuid
  gids : Whole files.subgid
  below : ∀ r ∈ ranges files.subgid, r.count = 0 ∨ r.start + r.count ≤ 100000 ∨
    ∃ p ∈ reads files.subuid, ((r.start + r.count : Nat) : Int) ≤ p.1 + p.2

/-- A start, a count and their sum that doubles hold exactly, a range behind them included. -/
def Exact (p : Int × Int) : Prop := p.1.natAbs < 2 ^ 53 ∧ p.2.natAbs < 2 ^ 53 ∧ (p.1 + p.2).natAbs + subIdRange ≤ 2 ^ 53

structure Small (files : SubIdFiles) : Prop where
  uids : ∀ p ∈ reads files.subuid, Exact p
  gids : ∀ r ∈ ranges files.subgid, r.start + subIdRange ≤ 2 ^ 53

/-! ## Text -/

theorem keeps_utf16 {a : Char} {n : UInt16} (ha : utf16 a = [n]) : Keeps utf16 a n where
  here := ha
  only c h := by
    have hsmall : ∀ {c : Char}, n ∈ utf16 c → n.toNat < 0xD800 ∨ 0xDFFF < n.toNat → n.toNat = c.toNat := by
      intro c hc hclass
      by_cases hlt : c.toNat < 0x10000
      · obtain ⟨u, hu, hval, -⟩ := utf16_small hlt
        rw [hu, List.mem_singleton] at hc
        rw [hc, hval]
      · obtain ⟨u, v, huv, hhigh, hlow, -⟩ := utf16_large (Nat.le_of_not_lt hlt)
        obtain ⟨hnhigh, hnlow⟩ := surrogate_false.mpr hclass
        rw [huv] at hc
        rcases List.mem_pair.mp hc with rfl | rfl
        · rw [hnhigh] at hhigh
          cases hhigh
        · rw [hnlow] at hlow
          cases hlow
    have hclass : n.toNat < 0xD800 ∨ 0xDFFF < n.toNat := by
      by_cases hlt : a.toNat < 0x10000
      · obtain ⟨u, hu, -, hhigh, hlow⟩ := utf16_small hlt
        obtain rfl := (List.cons.inj (ha.symm.trans hu)).1
        exact surrogate_false.mp ⟨hhigh, hlow⟩
      · obtain ⟨u, v, huv, -⟩ := utf16_large (Nat.le_of_not_lt hlt)
        cases ha.symm.trans huv
    have hmem : n ∈ utf16 a := ha ▸ List.mem_singleton_self n
    exact Char.toNat_inj.mp ((hsmall h hclass).symm.trans (hsmall hmem hclass))
  some c := by
    by_cases hlt : c.toNat < 0x10000
    · obtain ⟨u, hu, -⟩ := utf16_small hlt
      simp [hu]
    · obtain ⟨u, v, huv, -⟩ := utf16_large (Nat.le_of_not_lt hlt)
      simp [huv]

theorem keeps_newline : Keeps utf16 '\n' 0x0A := keeps_utf16 rfl

theorem keeps_colon : Keeps utf16 ':' 0x3A := keeps_utf16 rfl

def textOf (file : Option Bytes) : List Char := Utf8.decode (file.getD [])

theorem readFile_text (file : Option Bytes) : (readFile file).getD [] = (textOf file).flatMap utf16 := by
  cases file with
  | none => rfl
  | some bytes => rfl

theorem toWellFormed_flatMap (t : List Char) : toWellFormed (t.flatMap utf16) = t := by
  have h := toWellFormed_ofString (String.ofList t)
  rw [ofString, String.toList_ofList] at h
  exact h

theorem appendFile_text (file : Option Bytes) (t : List Char) :
    appendFile file (t.flatMap utf16) = Utf8.encode (textOf file ++ t) := by
  rw [appendFile, readFile_text, ← List.flatMap_append, toWellFormed_flatMap]

theorem reads_text (file : Option Bytes) : reads file = (lines '\n' (textOf file)).filterMap fun line => readLine
    (line.flatMap utf16) := by
  rw [filterMap_lines rfl, reads, readFile_text, keeps_newline.splitOn, List.filterMap_map]
  rfl

/-! ## Lines -/

theorem whole_iff {file : Option Bytes} : Whole file ↔ ∃ t, file.getD [] = Utf8.encode t ∧ Terminated '\n' t := by
  constructor
  · rintro ⟨hend, hutf8⟩
    refine ⟨textOf file, hutf8.symm, keeps_encode.terminated.mp ?_⟩
    show Terminated 0x0A (Utf8.encode (textOf file))
    rw [textOf, hutf8]
    exact hend
  · rintro ⟨t, hfile, hend⟩
    rw [Whole, hfile, Utf8.decode_encode]
    exact ⟨keeps_encode.terminated.mpr hend, rfl⟩

/-- What a line behind a whole file makes of it. -/
structure Grown (before after : Option Bytes) (line : List Char) : Prop where
  whole : Whole after
  lines : linesOf after = linesOf before ++ [Utf8.encode line]
  ranges : ranges after = ranges before ++ (rangeOf line).toList
  reads : reads after = reads before ++ (readLine (line.flatMap utf16)).toList

theorem grown {file : Option Bytes} (h : Whole file) {line : List Char} (hline : '\n' ∉ line) :
    Grown file (some (appendFile file ((line ++ ['\n']).flatMap utf16))) line := by
  obtain ⟨t, hfile, hend⟩ := whole_iff.mp h
  have htext : textOf file = t := by rw [textOf, hfile, Utf8.decode_encode]
  have hafter : appendFile file ((line ++ ['\n']).flatMap utf16) = Utf8.encode (t ++ (line ++ ['\n'])) := by
    rw [appendFile_text, htext]
  have hlines : linesOf (some (Utf8.encode (t ++ (line ++ ['\n'])))) = linesOf file ++ [Utf8.encode line] := by
    show lines 0x0A (Utf8.encode _) = lines 0x0A (file.getD []) ++ _
    rw [hfile, Utf8.encode, keeps_encode.lines, lines_append hend hline, List.map_append, ← keeps_encode.lines]
    rfl
  rw [hafter]
  refine ⟨whole_iff.mpr ⟨_, rfl, .inr (by simp)⟩, hlines, ?_, ?_⟩
  · rw [ranges, hlines, List.filterMap_append]
    congr 1
    cases hrange : rangeOf line with
    | none => simp [Utf8.decode_encode, hrange]
    | some r => simp [Utf8.decode_encode, hrange]
  · have hnew : textOf (some (Utf8.encode (t ++ (line ++ ['\n'])))) = t ++ (line ++ ['\n']) := Utf8.decode_encode _
    rw [reads_text, reads_text, hnew, htext, lines_append hend hline, List.filterMap_append]
    cases hread : readLine (line.flatMap utf16) with
    | none => simp [hread]
    | some p => simp [hread]

/-- A file keeps its lines just if it is whole. -/
theorem lines_kept_iff {file : Option Bytes} {line : List Char} (hne : line ≠ []) (hline : '\n' ∉ line) :
    (linesOf file).Sublist (linesOf (some (appendFile file ((line ++ ['\n']).flatMap utf16)))) ↔ Whole file := by
  constructor
  · intro hsub
    have htext := appendFile_text file (line ++ ['\n'])
    obtain ⟨t, ht⟩ : ∃ t, file.getD [] = Utf8.encode t := by
      refine exists_encode fun l hl => ?_
      have hmem : l ∈ lines 0x0A (Utf8.encode (textOf file ++ (line ++ ['\n']))) := htext ▸ hsub.subset hl
      rw [Utf8.encode, keeps_encode.lines] at hmem
      obtain ⟨l, -, rfl⟩ := List.mem_map.mp hmem
      exact ⟨l, rfl⟩
    refine whole_iff.mpr ⟨t, ht, ?_⟩
    by_contra hend
    have hfile : textOf file = t := by rw [textOf, ht, Utf8.decode_encode]
    refine lines_lost (mt keeps_encode.terminated.mp hend) (mt keeps_encode.eq_nil.mp hne) (mt keeps_encode.mem.mp hline) ?_
    have hbytes : Utf8.encode (t ++ (line ++ ['\n'])) =
        t.flatMap Utf8.encodeChar ++ (line.flatMap Utf8.encodeChar ++ [0x0A]) := by
      simp only [Utf8.encode, List.flatMap_append]
      rfl
    rw [htext, hfile, linesOf, ht, hbytes] at hsub
    exact hsub
  · intro hwhole
    rw [(grown hwhole hline).lines]
    exact List.sublist_append_left _ _

/-! ## Numbers -/

theorem parseInt_decimal {ds : List Char} {n : Nat} (h : decimal? ds = some n) :
    parseInt (ds.flatMap utf16) = some (n : Int) := by
  unfold decimal? at h
  split at h
  · rename_i hds
    obtain rfl := Option.some.inj h
    exact parseInt_digits (List.all_eq_true.mp hds.2) hds.1
  · cases h

theorem readLine_range {line : List Char} {r : Range} (h : rangeOf line = some r) :
    readLine (line.flatMap utf16) = some ((r.start : Int), (r.count : Int)) := by
  unfold rangeOf at h
  split at h
  · rename_i name start count hfields
    obtain ⟨s, hs, h⟩ := Option.bind_eq_some_iff.mp h
    obtain ⟨c, hc, h⟩ := Option.bind_eq_some_iff.mp h
    obtain rfl := Option.some.inj h
    rw [readLine, keeps_colon.splitOn, hfields]
    simp only [List.map_cons, parseInt_decimal hs, parseInt_decimal hc]
    rfl
  · cases h

theorem decimal?_toDigits (n : Nat) : decimal? (Nat.toDigits 10 n) = some n := by
  rw [decimal?, if_pos ⟨Nat.toDigits_ne_nil, List.all_eq_true.mpr Json.mem_toDigits⟩, Nat.ofDigitChars_ten_toDigits]

theorem nextEnd_none {line : JsString} (h : readLine line = none) (m : JsNumber) : nextEnd m line = m := by
  unfold nextEnd
  split
  · rename_i name start count more hfields
    simp only [readLine, hfields] at h
    cases hs : parseInt start with
    | none => simp [JsNumber.parse, hs, isNaN]
    | some s =>
      cases hc : parseInt count with
      | none => simp [JsNumber.parse, hc, isNaN]
      | some c => simp [hs, hc] at h
  · rfl

theorem nextEnd_some {line : JsString} {p : Int × Int} (h : readLine line = some p) (hp : Exact p) {m : Int}
    (hm : m.natAbs < 2 ^ 53) :
    ∃ hmax, nextEnd (.int m hm) line = .int (max m (p.1 + p.2)) hmax := by
  obtain ⟨hs, hc, hsum⟩ := hp
  have hsum : (p.1 + p.2).natAbs < 2 ^ 53 := Nat.lt_of_lt_of_le (Nat.lt_add_of_pos_right (by decide)) hsum
  have hmax : (max m (p.1 + p.2)).natAbs < 2 ^ 53 := by
    rcases max_choice m (p.1 + p.2) with heq | heq
    · rw [heq]
      exact hm
    · rw [heq]
      exact hsum
  refine ⟨hmax, ?_⟩
  unfold readLine at h
  split at h
  · rename_i name start count more hfields
    obtain ⟨s, hstart, h⟩ := Option.bind_eq_some_iff.mp h
    obtain ⟨c, hcount, h⟩ := Option.bind_eq_some_iff.mp h
    obtain rfl := Option.some.inj h
    rw [nextEnd, hfields]
    simp only [JsNumber.parse, hstart, hcount, JsNumber.ofRat_int hs, JsNumber.ofRat_int hc]
    rw [JsNumber.add_int hs hc hsum, JsNumber.max_int hm hsum hmax]
    rfl
  · cases h

/-- The greatest of an end so far and the ends of lines. -/
theorem foldl_nextEnd (ls : List JsString) (h : ∀ p ∈ ls.filterMap readLine, Exact p) {m : Int} (hm : m.natAbs < 2 ^ 53) :
    ∃ n hn, ls.foldl nextEnd (.int m hm) = .int n hn ∧
        IsGreatest (insert m {e | ∃ p ∈ ls.filterMap readLine, e = p.1 + p.2}) n := by
  induction ls generalizing m with
  | nil => exact ⟨m, hm, rfl, by simp [IsGreatest, upperBounds]⟩
  | cons line ls ih =>
    cases hread : readLine line with
    | none =>
      rw [List.filterMap_cons_none hread] at h ⊢
      rw [List.foldl_cons, nextEnd_none hread]
      exact ih h hm
    | some p =>
      rw [List.filterMap_cons_some hread] at h ⊢
      obtain ⟨hmax, hstep⟩ := nextEnd_some hread (h p (.head _)) hm
      obtain ⟨n, hn, hfold, hmem, hupper⟩ := ih (fun q hq => h q (.tail _ hq)) hmax
      refine ⟨n, hn, by rw [List.foldl_cons, hstep, hfold], ?_, ?_⟩
      · rcases hmem with rfl | ⟨q, hq, rfl⟩
        · rcases max_choice m (p.1 + p.2) with heq | heq
          · exact .inl heq
          · exact .inr ⟨p, .head _, heq⟩
        · exact .inr ⟨q, .tail _ hq, rfl⟩
      · have hle : max m (p.1 + p.2) ≤ n := hupper (.inl rfl)
        rintro e (rfl | ⟨q, hq, rfl⟩)
        · exact (le_max_left _ _).trans hle
        · rcases List.mem_cons.mp hq with rfl | hq
          · exact (le_max_right _ _).trans hle
          · exact hupper (.inr ⟨q, hq, rfl⟩)

/-- The start of the next range: 100000 or the greatest end that is read. -/
structure Starts (files : SubIdFiles) (n : Nat) : Prop where
  found : ∃ hn, findNextSubIdStart files.subuid = .int n hn
  small : n + subIdRange ≤ 2 ^ 53
  low : 100000 ≤ n
  ends : ∀ p ∈ reads files.subuid, p.1 + p.2 ≤ n
  attained : n = 100000 ∨ ∃ p ∈ reads files.subuid, (n : Int) = p.1 + p.2

theorem starts {files : SubIdFiles} (h : Small files) : ∃ n, Starts files n := by
  have hfold : findNextSubIdStart files.subuid =
      (((readFile files.subuid).getD []).splitOn 0x0A).foldl nextEnd (.int 100000 (by decide)) := by
    unfold findNextSubIdStart
    cases readFile files.subuid with
    | none => rfl
    | some content => rfl
  obtain ⟨n, hn, hfound, hmem, hupper⟩ := foldl_nextEnd (((readFile files.subuid).getD []).splitOn 0x0A) h.uids
    (m := 100000) (by decide)
  have hlow : 100000 ≤ n := hupper (.inl rfl)
  obtain ⟨n, rfl⟩ := Int.eq_ofNat_of_zero_le (show 0 ≤ n by omega)
  refine ⟨n, ⟨hn, hfold.trans hfound⟩, ?_, by exact_mod_cast hlow, fun p hp => hupper (.inr ⟨p, hp, rfl⟩), ?_⟩
  · rcases hmem with heq | ⟨p, hp, heq⟩
    · obtain rfl : n = 100000 := by exact_mod_cast heq
      decide
    · have hsmall := (h.uids p hp).2.2
      rw [← heq] at hsmall
      exact hsmall
  · rcases hmem with heq | ⟨p, hp, heq⟩
    · exact .inl (by exact_mod_cast heq)
    · exact .inr ⟨p, hp, heq⟩

/-! ## A call -/

theorem name_text {name : JsString} (h : validateName name = none) :
    ∃ ns : List Char, name = ns.flatMap utf16 ∧ ':' ∉ ns ∧ '\n' ∉ ns := by
  have hunits : ∀ u ∈ name, isNameUnit u = true := by
    unfold validateName at h
    split_ifs at h with _ _ hshape
    rw [Bool.not_eq_true', Bool.not_eq_false, Bool.and_eq_true] at hshape
    exact List.all_eq_true.mp hshape.2
  clear h
  induction name with
  | nil => exact ⟨[], rfl, List.not_mem_nil, List.not_mem_nil⟩
  | cons u name ih =>
    obtain ⟨ns, rfl, hcolon, hnewline⟩ := ih fun v hv => hunits v (.tail _ hv)
    have hu := hunits u (.head _)
    have hlt : u.toNat < 0x7B := by
      simp only [isNameUnit, isLower, Bool.or_eq_true, Bool.and_eq_true, decide_eq_true_eq, beq_iff_eq,
        UInt16.le_iff_toNat_le] at hu
      rcases hu with ((hu | hu) | rfl) | rfl
      · exact Nat.lt_succ_of_le hu.2
      · exact Nat.lt_of_le_of_lt hu.2 (by decide)
      · decide
      · decide
    obtain ⟨hhigh, hlow⟩ := surrogate_false.mpr (.inl (show u.toNat < 0xD800 by omega))
    have hchar := utf16_unit hhigh hlow
    have hne : ∀ (c : Char) (v : UInt16), utf16 c = [v] → isNameUnit v = false → c ≠ Char.ofNat u.toNat := by
      rintro c v hc hv rfl
      obtain rfl := (List.cons.inj (hc.symm.trans hchar)).1
      rw [hu] at hv
      cases hv
    refine ⟨Char.ofNat u.toNat :: ns, by rw [List.flatMap_cons, hchar]; rfl, ?_, ?_⟩
    · exact List.not_mem_cons_of_ne_of_not_mem (hne ':' 0x3A rfl (by decide)) hcolon
    · exact List.not_mem_cons_of_ne_of_not_mem (hne '\n' 0x0A rfl (by decide)) hnewline

theorem call_line {files : SubIdFiles} {n : Nat} (hstart : Starts files n) {name : JsString} (hname : validateName name = none) :
    ∃ line, subIdLine (linuxUser name) (findNextSubIdStart files.subuid) = (line ++ ['\n']).flatMap utf16 ∧
      line ≠ [] ∧ '\n' ∉ line ∧
      rangeOf line = some ⟨n, subIdRange⟩ := by
  obtain ⟨ns, rfl, hcolon, hnewline⟩ := name_text hname
  obtain ⟨hn, hfound⟩ := hstart.found
  have hdigits : ∀ c ∈ Nat.toDigits 10 n, c.isDigit = true := Json.mem_toDigits
  have hnot : ∀ c : Char, c.isDigit = false → c ∉ Nat.toDigits 10 n := by
    intro c hc hmem
    rw [hdigits c hmem] at hc
    cases hc
  refine ⟨"flowhelm-".toList ++ ns ++ ':' :: (Nat.toDigits 10 n ++ ':' :: "65536".toList), ?_, by simp, ?_, ?_⟩
  · have htext : JsNumber.toText (.int (n : Int) hn) = Nat.toDigits 10 n := JsNumber.toText_nat hn
    rw [hfound, subIdLine, htext]
    simp only [linuxUser, linuxUserPrefix, ofString, String.toList_ofList, List.flatMap_append, List.flatMap_cons,
      List.flatMap_nil,
      List.append_assoc, List.append_nil]
    rfl
  · simp [hnewline, hnot '\n' rfl]
  · have hfirst : ':' ∉ "flowhelm-".toList ++ ns := by simp [hcolon]
    rw [rangeOf, List.splitOn_append_cons_self_of_not_mem hfirst, List.splitOn_append_cons_self_of_not_mem (hnot ':' rfl),
      show "65536".toList.splitOn ':' = ["65536".toList] by decide]
    simp only [decimal?_toDigits]
    rfl

/-- What a call makes of both files. -/
structure Called (before after : SubIdFiles) (n : Nat) : Prop where
  uids : Whole after.subuid
  gids : Whole after.subgid
  uidLines : (linesOf before.subuid).Sublist (linesOf after.subuid)
  gidLines : (linesOf before.subgid).Sublist (linesOf after.subgid)
  uidReads : reads after.subuid = reads before.subuid ++ [((n : Int), (subIdRange : Int))]
  uidRanges : ranges after.subuid = ranges before.subuid ++ [⟨n, subIdRange⟩]
  gidRanges : ranges after.subgid = ranges before.subgid ++ [⟨n, subIdRange⟩]

theorem called {files : SubIdFiles} {n : Nat} (hstart : Starts files n) (huids : Whole files.subuid) (hgids : Whole files.subgid)
    {name : JsString} (hname : validateName name = none) : Called files (allocateSubIds files (linuxUser name)) n := by
  obtain ⟨line, hline, -, hnewline, hrange⟩ := call_line hstart hname
  have hu := grown huids hnewline
  have hg := grown hgids hnewline
  unfold allocateSubIds
  dsimp only
  rw [hline]
  refine ⟨hu.whole, hg.whole, ?_, ?_, ?_, ?_, ?_⟩
  · rw [hu.lines]
    exact List.sublist_append_left _ _
  · rw [hg.lines]
    exact List.sublist_append_left _ _
  · rw [hu.reads, readLine_range hrange]
    rfl
  · rw [hu.ranges, hrange]
    rfl
  · rw [hg.ranges, hrange]
    rfl

theorem reads_of_range {file : Option Bytes} (h : Whole file) {r : Range} (hr : r ∈ ranges file) :
    ((r.start : Int), (r.count : Int)) ∈ reads file := by
  obtain ⟨t, hfile, -⟩ := whole_iff.mp h
  have htext : textOf file = t := by rw [textOf, hfile, Utf8.decode_encode]
  rw [ranges, linesOf, hfile, Utf8.encode, keeps_encode.lines, List.filterMap_map] at hr
  obtain ⟨line, hline, hr⟩ := List.mem_filterMap.mp hr
  have hdecode : Utf8.decode (line.flatMap Utf8.encodeChar) = line := Utf8.decode_encode line
  rw [Function.comp_apply, hdecode] at hr
  rw [reads_text, htext]
  exact List.mem_filterMap.mpr ⟨line, hline, readLine_range hr⟩

/-! ## All calls -/

theorem Separable.safe {files : SubIdFiles} (h : Separable files) (hsmall : Small files) {name : JsString}
    (hname : validateName name = none) :
    Safe files (linuxUser name) := by
  obtain ⟨n, hstart⟩ := starts hsmall
  have hcall := called hstart h.uids h.gids hname
  refine ⟨⟨⟨_, hcall.uidRanges, rfl, fun r hr id hnew hhas => ?_⟩, hcall.uidLines⟩,
    ⟨⟨_, hcall.gidRanges, rfl, fun r hr id hnew hhas => ?_⟩, hcall.gidLines⟩⟩
  · have hend := hstart.ends _ (reads_of_range h.uids hr)
    have hfrom : n ≤ id := hnew.1
    unfold Range.Has at hhas
    omega
  · have hlow := hstart.low
    have hfrom : n ≤ id := hnew.1
    unfold Range.Has at hhas
    rcases h.below r hr with hnone | hle | ⟨p, hp, hle⟩
    · omega
    · omega
    · have hend := hstart.ends p hp
      omega

theorem Separable.step {files : SubIdFiles} (h : Separable files) (hsmall : Small files) {name : JsString}
    (hname : validateName name = none) :
    Separable (allocateSubIds files (linuxUser name)) := by
  obtain ⟨n, hstart⟩ := starts hsmall
  have hcall := called hstart h.uids h.gids hname
  refine ⟨hcall.uids, hcall.gids, fun r hr => ?_⟩
  rw [hcall.uidReads]
  rw [hcall.gidRanges] at hr
  rcases List.mem_append.mp hr with hr | hr
  · refine (h.below r hr).imp_right (Or.imp_right fun ⟨p, hp, hle⟩ => ⟨p, List.mem_append_left _ hp, hle⟩)
  · obtain rfl := List.mem_singleton.mp hr
    exact .inr (.inr ⟨_, List.mem_append_right _ (.head _), by push_cast; exact le_refl _⟩)

theorem Called.starts {s t : SubIdFiles} {n m : Nat} (h : Called s t n) (hs : Starts s n) (ht : Starts t m) :
    m = n + subIdRange := by
  have hnew := ht.ends ((n : Int), (subIdRange : Int)) (by rw [h.uidReads]; exact List.mem_append_right _ (.head _))
  have hlow := hs.low
  rcases ht.attained with hm | ⟨p, hp, hm⟩
  · omega
  · rw [h.uidReads] at hp
    rcases List.mem_append.mp hp with hp | hp
    · have hend := hs.ends p hp
      omega
    · obtain rfl := List.mem_singleton.mp hp
      dsimp only at hm
      exact_mod_cast hm

theorem Called.small {s t : SubIdFiles} {n : Nat} (h : Called s t n) (hsmall : Small s)
    (hn : n + subIdRange + subIdRange ≤ 2 ^ 53) :
    Small t := by
  have hrange : subIdRange = 65536 := rfl
  constructor
  · rw [h.uidReads]
    refine List.forall_mem_append.mpr ⟨hsmall.uids, List.forall_mem_singleton.mpr ⟨?_, ?_, ?_⟩⟩
    all_goals
      dsimp only
      omega
  · rw [h.gidRanges]
    exact List.forall_mem_append.mpr ⟨hsmall.gids, List.forall_mem_singleton.mpr (by dsimp only; omega)⟩

/-- A safe call's range has no id of another in /etc/subgid. -/
theorem Called.apart {files : SubIdFiles} {name : JsString} {n : Nat}
    (hcall : Called files (allocateSubIds files (linuxUser name)) n)
    (h : Safe files (linuxUser name)) {r : Range} (hr : r ∈ ranges files.subgid) (id : Nat) (hn : n ≤ id)
    (hlt : id < n + subIdRange) :
    ¬r.Has id := by
  obtain ⟨new, hnew, -, hapart⟩ := h.gids.range
  obtain rfl := List.singleton_inj.mp (List.append_cancel_left (hcall.gidRanges.symm.trans hnew))
  exact hapart r hr id ⟨hn, hlt⟩

/-- Calls that go on come to a range in /etc/subgid that ends above where they start. -/
theorem reaches_range {files : SubIdFiles} (hsafe : ∀ s, Reach (calls files) (fun s _ => Small s) s → Small s → ∀ name,
      validateName name = none → Safe s (linuxUser name)) {r : Range} (hcount : r.count ≠ 0) (d : Nat) :
    ∀ s n, Reach (calls files) (fun s _ => Small s) s → Small s → Whole s.subuid → Whole s.subgid → Starts s n →
      r ∈ ranges s.subgid →
      r.start < n + (d + 1) * subIdRange → r.start + r.count ≤ n := by
  have hrange : subIdRange = 65536 := rfl
  have hname : validateName (ofString "ann") = none := by decide
  induction d with
  | zero =>
    intro s n hs hsmall huids hgids hstart hr hnear
    by_contra hend
    have hapart := (called hstart huids hgids hname).apart (hsafe s hs hsmall _ hname) hr (max r.start n)
    unfold Range.Has at hapart
    omega
  | succ d ih =>
    intro s n hs hsmall huids hgids hstart hr hnear
    have hcall := called hstart huids hgids hname
    by_cases hfirst : r.start < n + subIdRange
    · by_contra hend
      have hapart := hcall.apart (hsafe s hs hsmall _ hname) hr (max r.start n)
      unfold Range.Has at hapart
      omega
    · exfalso
      have hsmall' := hcall.small hsmall (by have := hsmall.gids r hr; omega)
      obtain ⟨m, hstart'⟩ := starts hsmall'
      have hm := hcall.starts hstart hstart'
      have hstep : Reach (calls files) (fun s _ => Small s) (allocateSubIds s (linuxUser (ofString "ann"))) :=
        .step (ofString "ann") hs hsmall (by simp only [calls, hname, if_true])
      have hr' : r ∈ ranges (allocateSubIds s (linuxUser (ofString "ann"))).subgid := by
        rw [hcall.gidRanges]
        exact List.mem_append_left _ hr
      have hend := ih _ m hstep hsmall' hcall.uids hcall.gids hstart' hr' (by rw [hrange] at hnear hm ⊢; omega)
      omega

theorem wholes_of_safe {files : SubIdFiles} (hsmall : Small files) {name : JsString} (hname : validateName name = none)
    (h : Safe files (linuxUser name)) : Whole files.subuid ∧ Whole files.subgid := by
  obtain ⟨n, hstart⟩ := starts hsmall
  obtain ⟨line, hline, hne, hnewline, -⟩ := call_line hstart hname
  have huids := h.uids.lines
  have hgids := h.gids.lines
  unfold allocateSubIds at huids hgids
  dsimp only at huids hgids
  rw [hline] at huids hgids
  exact ⟨(lines_kept_iff hne hnewline).mp huids, (lines_kept_iff hne hnewline).mp hgids⟩

theorem sub_ids_apart {files : SubIdFiles} (h : Small files) :
    (∀ s, Reach (calls files) (fun s _ => Small s) s → Small s → ∀ name, validateName name = none → Safe s (linuxUser name)) ↔
      Separable files := by
  have hrange : subIdRange = 65536 := rfl
  constructor
  · intro hsafe
    obtain ⟨huids, hgids⟩ := wholes_of_safe h (by decide) (hsafe files .init h (ofString "ann") (by decide))
    obtain ⟨n, hstart⟩ := starts h
    refine ⟨huids, hgids, fun r hr => or_iff_not_imp_left.mpr fun hcount => ?_⟩
    have hend := reaches_range hsafe hcount r.start files n .init h huids hgids hstart hr (by rw [hrange]; omega)
    rcases hstart.attained with rfl | ⟨p, hp, hn⟩
    · exact .inl hend
    · exact .inr ⟨p, hp, by omega⟩
  · intro hsep s hs hsmall name hname
    refine Separable.safe ?_ hsmall hname
    refine hs.inv hsep fun s name t _ hsep hsmall hst => ?_
    simp only [calls] at hst
    split_ifs at hst with hname
    obtain rfl := Option.some.inj hst
    exact hsep.step hsmall hname

/-- One user's line in a file. -/
def alice : Option Bytes := some (Utf8.encode "alice:100000:65536\n".toList)

/-- /etc/subuid knows nobody, /etc/subgid knows alice. -/
theorem a_group_range_is_taken_again : ∃ files name, validateName name = none ∧ ¬Safe files (linuxUser name) := by
  refine ⟨⟨none, alice⟩, ofString "bob", by decide, fun h => ?_⟩
  have hranges : ranges alice = [⟨100000, 65536⟩] := by decide
  have hsmall : Small ⟨none, alice⟩ := by
    constructor
    · exact List.forall_mem_nil _
    · show ∀ r ∈ ranges alice, _
      rw [hranges]
      exact List.forall_mem_singleton.mpr (by decide)
  obtain ⟨n, hstart⟩ := starts hsmall
  obtain rfl : n = 100000 := hstart.attained.resolve_right fun ⟨p, hp, _⟩ => List.not_mem_nil hp
  have hcall := called hstart (by decide) (by decide) (show validateName (ofString "bob") = none by decide)
  have halice : (⟨100000, 65536⟩ : Range) ∈ ranges alice := by
    rw [hranges]
    exact .head _
  exact hcall.apart h halice 100000 (le_refl _) (by decide) ⟨by decide, by decide⟩

theorem alice_and_others_are_apart : Small ⟨alice, alice⟩ ∧ ∀ s, Reach (calls ⟨alice, alice⟩) (fun s _ => Small s) s → Small s →
    ∀ name, validateName name = none → Safe s (linuxUser name) := by
  have hreads : reads alice = [(100000, 65536)] := by decide
  have hranges : ranges alice = [⟨100000, 65536⟩] := by decide
  have hsmall : Small ⟨alice, alice⟩ := by
    constructor
    · show ∀ p ∈ reads alice, _
      rw [hreads]
      exact List.forall_mem_singleton.mpr ⟨by decide, by decide, by decide⟩
    · show ∀ r ∈ ranges alice, _
      rw [hranges]
      exact List.forall_mem_singleton.mpr (by decide)
  refine ⟨hsmall, (sub_ids_apart hsmall).mpr ⟨by decide, by decide, ?_⟩⟩
  show ∀ r ∈ ranges alice, _
  rw [hranges]
  exact List.forall_mem_singleton.mpr (.inr (.inr ⟨_, by rw [hreads]; exact .head _, by decide⟩))

end FlowHelm.Admin
