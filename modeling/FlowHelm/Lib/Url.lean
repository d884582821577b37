/-
  FlowHelm.Lib.Url — `new URL(text)` of the URL Standard, without a base: which host a URL
  names and what its path is once dots are resolved.

  The host of a special URL is read by a parameter: it needs the tables of Unicode. What is
  used of it is that it does not look at ASCII case. A path is cut at its separators, each
  segment percent-encoded, and a segment of two dots (a dot may be written `%2e`) takes the
  one before it away.

  - `resolve_pathname`: a path that was resolved stays as it is.
  - `parse_absolute`: the path of a URL is what its target resolves to.
-/
import FlowHelm.Lib.JsText

namespace Url

open Js

def slash : UInt16 := 0x2F

def backslash : UInt16 := 0x5C

def question : UInt16 := 0x3F

def hash : UInt16 := 0x23

def colon : UInt16 := 0x3A

def isAlpha (u : UInt16) : Bool := (0x41 ≤ u && u ≤ 0x5A) || (0x61 ≤ u && u ≤ 0x7A)

def isDigit (u : UInt16) : Bool := 0x30 ≤ u && u ≤ 0x39

def asciiLower (s : JsString) : JsString := s.map fun u => if 0x41 ≤ u ∧ u ≤ 0x5A then u + 0x20 else u

/-! ## Percent-encoding -/

def hexDigit (n : Nat) : UInt16 := UInt16.ofNat (if n < 10 then 0x30 + n else 0x37 + n)

def percentChar (c : Char) : JsString :=
  (String.utf8EncodeChar c).flatMap fun b => [0x25, hexDigit (b.toNat / 16), hexDigit (b.toNat % 16)]

def encodeUnit (set : UInt16 → Bool) (u : UInt16) : JsString :=
  if u < 0x80 && !set u then [u]
  else percentChar (if isHighSurrogate u || isLowSurrogate u then '\ufffd' else Char.ofNat u.toNat)

/-- UTF-8 percent-encode with a set of ASCII units. -/
def encode (set : UInt16 → Bool) : JsString → JsString
  | [] => []
  | [u] => encodeUnit set u
  | u :: v :: rest =>
    if isHighSurrogate u && isLowSurrogate v then
      percentChar (Char.ofNat (0x10000 + (u.toNat - 0xD800) * 0x400 + (v.toNat - 0xDC00))) ++ encode set rest
    else encodeUnit set u ++ encode set (v :: rest)

def c0Set (u : UInt16) : Bool := u < 0x20 || 0x7E < u

def querySet (u : UInt16) : Bool := c0Set u || u ∈ [0x20, 0x22, 0x23, 0x3C, 0x3E]

def specialQuerySet (u : UInt16) : Bool := querySet u || u == 0x27

/-- As Node 22 has it, which leaves a caret. -/
def pathSet (u : UInt16) : Bool := querySet u || u ∈ [0x3F, 0x60, 0x7B, 0x7D]

/-! ## Paths -/

inductive Kind where
  | special
  | file
  | other
  deriving DecidableEq, Repr

def Kind.isSpecial : Kind → Bool
  | special | file => true
  | other => false

def isSep (k : Kind) (u : UInt16) : Bool := u == slash || (k.isSpecial && u == backslash)

def isSingleDot (s : JsString) : Bool := asciiLower s ∈ [ofString ".", ofString "%2e"]

def isDoubleDot (s : JsString) : Bool := asciiLower s ∈ [ofString "..", ofString ".%2e", ofString "%2e.", ofString "%2e%2e"]

/-- A Windows drive letter. -/
def isDrive : JsString → Bool
  | [a, b] => isAlpha a && (b == colon || b == 0x7C)
  | _ => false

def shorten (k : Kind) (out : List JsString) : List JsString :=
  if k = .file ∧ out.length = 1 ∧ out.all (fun s => isDrive s && s.getLast? == some colon) then out else out.dropLast

def addSegment (k : Kind) (out : List JsString) (s : JsString) : List JsString :=
  out ++ [if k = .file ∧ out = [] ∧ isDrive s then s.take 1 ++ [colon] else s]

/-- The segments of a path, on those before them. -/
def walk (k : Kind) (out : List JsString) : List JsString → List JsString
  | [] => out
  | [s] =>
    if isDoubleDot s then shorten k out ++ [[]]
    else if isSingleDot s then out ++ [[]]
    else addSegment k out s
  | s :: t :: more =>
    if isDoubleDot s then walk k (shorten k out) (t :: more)
    else if isSingleDot s then walk k out (t :: more)
    else walk k (addSegment k out s) (t :: more)

def serialize (segments : List JsString) : JsString := segments.flatMap (slash :: ·)

/-- The path that `text` is, its first separator told or not. -/
def pathOf (k : Kind) (text : JsString) : JsString :=
  let text := if text.head?.any (isSep k) then text.drop 1 else text
  serialize (walk k [] ((text.splitOnP (isSep k)).map (encode pathSet)))

/-! ## URLs -/

/-- The host parser for special URLs. -/
structure HostParser where
  parse : JsString → Option JsString
  ignoresCase : ∀ a b, asciiLower a = asciiLower b → parse a = parse b

/-- Domains in ASCII; nothing else is a host. -/
def asciiHosts : HostParser where
  parse s :=
    let domain := asciiLower s
    if domain ≠ [] ∧ domain.all (fun u => isAlpha u || isDigit u || u == 0x2D || u == 0x2E) then some domain else none
  ignoresCase a b h := by rw [h]

structure Parsed where
  kind : Kind
  hostname : JsString
  pathname : JsString
  search : JsString
  deriving DecidableEq, Repr

variable (hosts : HostParser)

/-- Forbidden host code points. -/
def isForbidden (u : UInt16) : Bool :=
  u ∈ [0x00, 0x09, 0x0A, 0x0D, 0x20, 0x23, 0x2F, 0x3A, 0x3C, 0x3E, 0x3F, 0x40, 0x5B, 0x5C, 0x5D, 0x5E, 0x7C]

def parseHost (k : Kind) (text : JsString) : Option JsString :=
  if k.isSpecial || text.head? == some 0x5B then hosts.parse text
  else if text.any isForbidden then none
  else some (encode c0Set text)

/-- What stands before the first `u`, and what stands behind it, if there is one. -/
def cut (u : UInt16) (s : JsString) : JsString × Option JsString :=
  let before := s.takeWhile (· != u)
  (before, if before.length < s.length then some (s.drop (before.length + 1)) else none)

/-- The host and the port of an authority without credentials: a colon in brackets parts nothing. -/
def hostAndPort : Bool → JsString → JsString × Option JsString
  | _, [] => ([], none)
  | inside, u :: s =>
    if u = colon ∧ inside = false then ([], some s)
    else
      let (host, port) := hostAndPort (if u = 0x5B then true else if u = 0x5D then false else inside) s
      (u :: host, port)

def isPort (s : JsString) : Bool :=
  s.all isDigit && s.foldl (fun n u => n * 10 + (u.toNat - 0x30)) 0 ≤ 65535

/-- The host an authority names; `none` is a failure. -/
def parseAuthority (k : Kind) (authority : JsString) : Option JsString :=
  -- what stands before the last `@` are credentials
  let afterAt := (authority.reverse.takeWhile (· != 0x40)).reverse
  if afterAt = [] ∧ afterAt ≠ authority then none
  else
    match hostAndPort false afterAt with
    | (host, port) =>
      if host = [] ∧ (k.isSpecial ∨ port ≠ none) then none
      else if !isPort (port.getD []) then none
      else if host = [] then some [] else parseHost hosts k host

/-- What a file URL has between its slashes. -/
def parseFile (text : JsString) : Option (JsString × JsString) :=
  match text with
  | a :: b :: rest =>
    if isSep .file a && isSep .file b then
      let host := rest.takeWhile fun u => !isSep .file u
      if isDrive host then some ([], pathOf .file rest)
      else if host = [] then some ([], pathOf .file rest)
      else (parseHost hosts .file host).map fun h =>
        (if h = ofString "localhost" then [] else h, pathOf .file (rest.drop host.length))
    else some ([], pathOf .file text)
  | _ => some ([], pathOf .file text)

/-- The host and the path of what stands before the query. -/
def parseRest (k : Kind) (text : JsString) : Option (JsString × JsString) :=
  match k with
  | .special =>
    let text := text.dropWhile (isSep .special)
    let authority := text.takeWhile fun u => !isSep .special u
    (parseAuthority hosts .special authority).map fun host => (host, pathOf .special (text.drop authority.length))
  | .file => parseFile hosts text
  | .other =>
    if [slash, slash].isPrefixOf text then
      let authority := (text.drop 2).takeWhile (· != slash)
      let path := (text.drop 2).drop authority.length
      (parseAuthority hosts .other authority).map fun host => (host, if path = [] then [] else pathOf .other path)
    else if text.head? = some slash then some ([], pathOf .other text)
    else some ([], encode c0Set text)

def schemeKind (scheme : JsString) : Kind :=
  if scheme = ofString "file" then .file
  else if scheme ∈ ["http", "https", "ws", "wss", "ftp"].map ofString then .special
  else .other

/-- `new URL(text)`; `none` is a TypeError. -/
def parse (text : JsString) : Option Parsed :=
  let text := ((text.dropWhile (· ≤ 0x20)).reverse.dropWhile (· ≤ 0x20)).reverse.filter fun u => u != 0x09 && u !=
    0x0A && u != 0x0D
  match cut colon text with
  | (scheme, some rest) =>
    if scheme.head?.any isAlpha && scheme.all fun u => isAlpha u || isDigit u || u ∈ [0x2B, 0x2D, 0x2E] then
      let k := schemeKind (asciiLower scheme)
      let (beforeQuery, query) := cut question (cut hash rest).1
      (parseRest hosts k beforeQuery).map fun (hostname, pathname) =>
        ⟨k, hostname, pathname, match query with
          | some (u :: q) => question :: encode (if k.isSpecial then specialQuerySet else querySet) (u :: q)
          | _ => []⟩
    else none
  | _ => none

/-- The path an https URL has from the target of a request. -/
def resolve (target : JsString) : JsString := pathOf .special (cut question (cut hash target).1).1

/-! ## Encoded text -/

/-- Kept by the path percent-encode set. -/
def Clean (u : UInt16) : Prop := u < 0x80 ∧ pathSet u = false

instance (u : UInt16) : Decidable (Clean u) := inferInstanceAs (Decidable (u < 0x80 ∧ pathSet u = false))

theorem hexDigit_clean {n : Nat} (h : n < 16) : Clean (hexDigit n) ∧ isSep .special (hexDigit n) = false := by
  have hall : ∀ m ∈ List.range 16, Clean (hexDigit m) ∧ isSep .special (hexDigit m) = false := by decide
  exact hall n (List.mem_range.mpr h)

theorem percentChar_clean {c : Char} {u : UInt16} (h : u ∈ percentChar c) : Clean u ∧ isSep .special u = false := by
  obtain ⟨b, -, hu⟩ := List.mem_flatMap.mp h
  have hb : b.toNat < 256 := b.toNat_lt
  rcases List.mem_cons.mp hu with rfl | hu
  · decide
  rcases List.mem_cons.mp hu with rfl | hu
  · exact hexDigit_clean (by omega)
  · rw [List.mem_singleton.mp hu]
    exact hexDigit_clean (by omega)

theorem encodeUnit_clean {u v : UInt16} (h : v ∈ encodeUnit pathSet u) : Clean v ∧ (isSep .special v = true → v = u) := by
  unfold encodeUnit at h
  split at h
  · rename_i hu
    obtain ⟨hlt, hset⟩ := (Bool.and_eq_true ..).mp hu
    obtain rfl := List.mem_singleton.mp h
    exact ⟨⟨of_decide_eq_true hlt, by simpa using hset⟩, fun _ => rfl⟩
  · obtain ⟨hclean, hsep⟩ := percentChar_clean h
    exact ⟨hclean, fun htrue => absurd htrue (by rw [hsep]; exact Bool.false_ne_true)⟩

theorem encode_clean {s : JsString} {v : UInt16} (h : v ∈ encode pathSet s) : Clean v ∧ (isSep .special v = true → v ∈ s) := by
  fun_induction encode pathSet s with
  | case1 => cases h
  | case2 u =>
    obtain ⟨hclean, hsep⟩ := encodeUnit_clean h
    exact ⟨hclean, fun htrue => List.mem_singleton.mpr (hsep htrue)⟩
  | case3 u v' rest hpair ih =>
    rcases List.mem_append.mp h with h | h
    · obtain ⟨hclean, hsep⟩ := percentChar_clean h
      exact ⟨hclean, fun htrue => absurd htrue (by rw [hsep]; exact Bool.false_ne_true)⟩
    · obtain ⟨hclean, hsep⟩ := ih h
      exact ⟨hclean, fun htrue => List.mem_cons_of_mem _ (List.mem_cons_of_mem _ (hsep htrue))⟩
  | case4 u v' rest hpair ih =>
    rcases List.mem_append.mp h with h | h
    · obtain ⟨hclean, hsep⟩ := encodeUnit_clean h
      exact ⟨hclean, fun htrue => hsep htrue ▸ List.mem_cons_self ..⟩
    · obtain ⟨hclean, hsep⟩ := ih h
      exact ⟨hclean, fun htrue => List.mem_cons_of_mem _ (hsep htrue)⟩

theorem encodeUnit_self {u : UInt16} (h : Clean u) : encodeUnit pathSet u = [u] := by
  unfold encodeUnit
  rw [decide_eq_true h.1, h.2]
  rfl

theorem encode_self {s : JsString} (h : ∀ u ∈ s, Clean u) : encode pathSet s = s := by
  fun_induction encode pathSet s with
  | case1 => rfl
  | case2 u => exact encodeUnit_self (h u (List.mem_singleton_self u))
  | case3 u v rest hpair ih =>
    -- a half of a pair is not ASCII
    have hlow := (h u (List.mem_cons_self ..)).1
    have hhigh : isHighSurrogate u = true := ((Bool.and_eq_true ..).mp hpair).1
    have hle : 0xD800 ≤ u := of_decide_eq_true ((Bool.and_eq_true ..).mp hhigh).1
    exact absurd (UInt16.lt_of_le_of_lt hle hlow) (by decide)
  | case4 u v rest hpair ih =>
    rw [encodeUnit_self (h u (List.mem_cons_self ..)), ih fun w hw => h w (List.mem_cons_of_mem _ hw)]
    rfl

/-! ## Resolved paths -/

/-- A segment that stays as it is. -/
structure Normal (s : JsString) : Prop where
  clean : ∀ u ∈ s, Clean u ∧ isSep .special u = false
  doubleDot : isDoubleDot s = false
  singleDot : isSingleDot s = false

theorem normal_nil : Normal [] := ⟨List.forall_mem_nil _, by decide, by decide⟩

/-- A drive letter as the path of a file URL has it. -/
theorem normal_letter {u : UInt16} (h : isAlpha u = true) : Normal [u, colon] := by
  have hlt : u.toNat < 0x7B := by
    have hle : u ≤ 0x7A := by
      rcases (Bool.or_eq_true ..).mp h with h | h
      · exact UInt16.le_trans (of_decide_eq_true ((Bool.and_eq_true ..).mp h).2) (by decide)
      · exact of_decide_eq_true ((Bool.and_eq_true ..).mp h).2
    have hnat : u.toNat ≤ 0x7A := UInt16.le_iff_toNat_le.mp hle
    omega
  have hall : ∀ n ∈ List.range 0x7B, isAlpha (UInt16.ofNat n) = true →
      (Clean (UInt16.ofNat n) ∧ isSep .special (UInt16.ofNat n) = false) ∧
        isDoubleDot [UInt16.ofNat n, colon] = false ∧ isSingleDot [UInt16.ofNat n, colon] = false := by decide +kernel
  have hu := hall u.toNat (List.mem_range.mpr hlt)
  rw [UInt16.ofNat_toNat] at hu
  obtain ⟨hletter, hdouble, hsingle⟩ := hu h
  have hcolon : Clean colon ∧ isSep .special colon = false := by decide
  exact ⟨List.forall_mem_cons.mpr ⟨hletter, List.forall_mem_singleton.mpr hcolon⟩, hdouble, hsingle⟩

theorem normal_drive {s : JsString} (h : isDrive s = true) : Normal (s.take 1 ++ [colon]) := by
  unfold isDrive at h
  split at h
  · exact normal_letter ((Bool.and_eq_true ..).mp h).1
  · cases h

theorem mem_shorten {k : Kind} {out : List JsString} {s : JsString} (h : s ∈ shorten k out) : s ∈ out := by
  unfold shorten at h
  split at h
  · exact h
  · exact (List.dropLast_sublist _).subset h

theorem walk_normal {k : Kind} {out segments : List JsString} (hout : ∀ s ∈ out, Normal s)
    (h : ∀ s ∈ segments, ∀ u ∈ s, Clean u ∧ isSep .special u = false) : ∀ s ∈ walk k out segments, Normal s := by
  have hadd : ∀ out s, (∀ t ∈ out, Normal t) → (∀ u ∈ s, Clean u ∧ isSep .special u = false) → ¬isDoubleDot s = true →
      ¬isSingleDot s = true → ∀ t ∈ addSegment k out s, Normal t := by
    intro out s hout hs hdouble hsingle t ht
    rcases List.mem_append.mp ht with ht | ht
    · exact hout t ht
    · rw [List.mem_singleton.mp ht]
      split
      · rename_i hdrive
        exact normal_drive hdrive.2.2
      · exact ⟨hs, Bool.eq_false_iff.mpr hdouble, Bool.eq_false_iff.mpr hsingle⟩
  have hempty : ∀ out : List JsString, (∀ t ∈ out, Normal t) → ∀ t ∈ out ++ [[]], Normal t := by
    intro out hout t ht
    rcases List.mem_append.mp ht with ht | ht
    · exact hout t ht
    · rw [List.mem_singleton.mp ht]
      exact normal_nil
  fun_induction walk k out segments with
  | case1 out => exact hout
  | case2 out s hdouble => exact hempty _ fun t ht => hout t (mem_shorten ht)
  | case3 out s hdouble hsingle => exact hempty _ hout
  | case4 out s hdouble hsingle => exact hadd out s hout (h s (List.mem_singleton_self s)) hdouble hsingle
  | case5 out s t more hdouble ih =>
    exact ih (fun u hu => hout u (mem_shorten hu)) fun u hu => h u (List.mem_cons_of_mem _ hu)
  | case6 out s t more hdouble hsingle ih => exact ih hout fun u hu => h u (List.mem_cons_of_mem _ hu)
  | case7 out s t more hdouble hsingle ih =>
    exact ih (hadd out s hout (h s (List.mem_cons_self ..)) hdouble hsingle) fun u hu => h u (List.mem_cons_of_mem _ hu)

theorem walk_ne_nil {k : Kind} {out segments : List JsString} (h : segments ≠ []) : walk k out segments ≠ [] := by
  fun_induction walk k out segments with
  | case1 out => exact absurd rfl h
  | case2 out s hdouble => simp
  | case3 out s hdouble hsingle => simp
  | case4 out s hdouble hsingle => simp [addSegment]
  | case5 out s t more hdouble ih => exact ih (List.cons_ne_nil _ _)
  | case6 out s t more hdouble hsingle ih => exact ih (List.cons_ne_nil _ _)
  | case7 out s t more hdouble hsingle ih => exact ih (List.cons_ne_nil _ _)

theorem addSegment_special (out : List JsString) (s : JsString) : addSegment .special out s = out ++ [s] := by
  unfold addSegment
  rw [if_neg fun h => Kind.noConfusion h.1]

theorem walk_self {out segments : List JsString} (h : ∀ s ∈ segments, Normal s) :
    walk .special out segments = out ++ segments := by
  induction segments generalizing out with
  | nil => exact (List.append_nil out).symm
  | cons s more ih =>
    have hs := h s (List.mem_cons_self ..)
    have hmore : ∀ t ∈ more, Normal t := fun t ht => h t (List.mem_cons_of_mem _ ht)
    cases more with
    | nil =>
      unfold walk
      rw [hs.doubleDot, hs.singleDot]
      exact addSegment_special out s
    | cons t more =>
      unfold walk
      rw [hs.doubleDot, hs.singleDot]
      show walk .special (addSegment .special out s) (t :: more) = _
      rw [addSegment_special, ih hmore, List.append_assoc]
      rfl

theorem splitOnP_serialize {s : JsString} {more : List JsString} (h : ∀ t ∈ s :: more, ∀ u ∈ t, isSep .special u = false) :
    (s ++ serialize more).splitOnP (isSep .special) = s :: more := by
  induction more generalizing s with
  | nil =>
    have hs := h s (List.mem_singleton_self s)
    show (s ++ []).splitOnP _ = _
    rw [List.append_nil, List.splitOnP_eq_singleton hs]
  | cons t more ih =>
    have hs := h s (List.mem_cons_self ..)
    show (s ++ slash :: (t ++ serialize more)).splitOnP _ = _
    rw [List.splitOnP_append_cons_of_forall_mem hs slash rfl, ih fun u hu => h u (List.mem_cons_of_mem _ hu)]

/-- Resolved segments are resolved to themselves. -/
theorem pathOf_serialize {segments : List JsString} (hne : segments ≠ []) (h : ∀ s ∈ segments, Normal s) :
    pathOf .special (serialize segments) = serialize segments := by
  cases segments with
  | nil => exact absurd rfl hne
  | cons s more =>
    have hsplit := splitOnP_serialize fun t ht u hu => ((h t ht).clean u hu).2
    have hencode : (s :: more).map (encode pathSet) = (s :: more).map id :=
      List.map_congr_left fun t ht => encode_self fun u hu => ((h t ht).clean u hu).1
    show serialize (walk .special [] (((s ++ serialize more).splitOnP (isSep .special)).map (encode pathSet))) = _
    rw [hsplit, hencode, List.map_id, walk_self h, List.nil_append]

theorem pathOf_normal {k : Kind} (hk : k.isSpecial = true) (text : JsString) :
    ∃ segments, segments ≠ [] ∧ (∀ s ∈ segments, Normal s) ∧ pathOf k text = serialize segments := by
  have hsep : isSep k = isSep .special := by
    cases k with
    | special | file => rfl
    | other => cases hk
  refine ⟨_, walk_ne_nil ?_, walk_normal (List.forall_mem_nil _) fun s hs => ?_, rfl⟩
  · rw [ne_eq, List.map_eq_nil_iff]
    exact List.splitOnP_ne_nil _ _
  · obtain ⟨piece, hpiece, rfl⟩ := List.mem_map.mp hs
    intro u hu
    obtain ⟨hclean, hmem⟩ := encode_clean hu
    refine ⟨hclean, Bool.eq_false_iff.mpr fun htrue => ?_⟩
    have hfalse := of_mem_splitOnP hpiece u (hmem htrue)
    rw [hsep, htrue] at hfalse
    cases hfalse

theorem serialize_unit {segments : List JsString} (h : ∀ s ∈ segments, Normal s) {u : UInt16} (hu : u ∈ serialize segments) :
    u ≠ hash ∧ u ≠ question := by
  obtain ⟨s, hs, hu⟩ := List.mem_flatMap.mp hu
  rcases List.mem_cons.mp hu with rfl | hu
  · decide
  · have hclean := ((h s hs).clean u hu).1.2
    constructor
    · rintro rfl
      exact absurd hclean (by decide)
    · rintro rfl
      exact absurd hclean (by decide)

theorem cut_fst (u : UInt16) (s : JsString) : (cut u s).1 = s.takeWhile (· != u) := rfl

/-- A resolved path, with a query or without, resolves to itself. -/
theorem resolve_serialize {segments : List JsString} (hne : segments ≠ []) (h : ∀ s ∈ segments, Normal s) {search : JsString}
    (hsearch : search = [] ∨ search.head? = some question) : resolve (serialize segments ++ search) = serialize segments := by
  have hhash : ∀ u ∈ serialize segments, (u != hash) = true := fun u hu => bne_iff_ne.mpr (serialize_unit h hu).1
  have hquestion : ∀ u ∈ serialize segments, (u != question) = true := fun u hu => bne_iff_ne.mpr (serialize_unit h hu).2
  have hquery : (search.takeWhile (· != hash)).takeWhile (· != question) = [] := by
    rcases hsearch with rfl | hhead
    · rfl
    · cases search with
      | nil => rfl
      | cons u q =>
        obtain rfl : u = question := Option.some.inj hhead
        rfl
  unfold resolve
  rw [cut_fst, cut_fst, List.takeWhile_append_of_pos hhash, List.takeWhile_append_of_pos hquestion, hquery, List.append_nil]
  exact pathOf_serialize hne h

theorem parseFile_path {hosts : HostParser} {text : JsString} {r : JsString × JsString} (h : parseFile hosts text = some r) :
    ∃ path, r.2 = pathOf .file path := by
  unfold parseFile at h
  split at h
  · split at h
    · dsimp only at h
      split at h
      · obtain rfl := Option.some.inj h
        exact ⟨_, rfl⟩
      · split at h
        · obtain rfl := Option.some.inj h
          exact ⟨_, rfl⟩
        · obtain ⟨host, -, rfl⟩ := Option.map_eq_some_iff.mp h
          exact ⟨_, rfl⟩
    · obtain rfl := Option.some.inj h
      exact ⟨_, rfl⟩
  · obtain rfl := Option.some.inj h
    exact ⟨_, rfl⟩

/-- What a URL has: a path of its kind, and a query with its mark. -/
theorem parse_spec {hosts : HostParser} {text : JsString} {u : Parsed} (h : parse hosts text = some u) :
    (u.kind.isSpecial = true → ∃ path, u.pathname = pathOf u.kind path) ∧
      (u.search = [] ∨ u.search.head? = some question) := by
  unfold parse at h
  dsimp only at h
  split at h
  · split at h
    · obtain ⟨r, hr, rfl⟩ := Option.map_eq_some_iff.mp h
      dsimp only
      refine ⟨fun hk => ?_, ?_⟩
      · unfold parseRest at hr
        split at hr
        · obtain ⟨host, -, rfl⟩ := Option.map_eq_some_iff.mp hr
          rename_i hkind
          rw [hkind]
          exact ⟨_, rfl⟩
        · rename_i hkind
          rw [hkind]
          exact parseFile_path hr
        · rename_i hkind
          rw [hkind] at hk
          cases hk
      · split
        · exact .inr rfl
        · exact .inl rfl
    · cases h
  · cases h

/-- What a special URL sends to its host is the path it resolved. -/
theorem resolve_pathname {hosts : HostParser} {text : JsString} {u : Parsed} (h : parse hosts text = some u)
    (hk : u.kind.isSpecial = true) : resolve (u.pathname ++ u.search) = u.pathname := by
  obtain ⟨hpath, hsearch⟩ := parse_spec h
  obtain ⟨path, hpath⟩ := hpath hk
  obtain ⟨segments, hne, hnormal, heq⟩ := pathOf_normal hk path
  rw [hpath, heq]
  exact resolve_serialize hne hnormal hsearch

theorem head_pathname {hosts : HostParser} {text : JsString} {u : Parsed} (h : parse hosts text = some u)
    (hk : u.kind.isSpecial = true) : u.pathname.head? = some slash := by
  obtain ⟨path, hpath⟩ := (parse_spec h).1 hk
  obtain ⟨segments, hne, -, heq⟩ := pathOf_normal hk path
  rw [hpath, heq]
  cases segments with
  | nil => exact absurd rfl hne
  | cons s more => rfl

/-! ## Absolute form -/

/-- What may stand between the slashes of a URL and its path. -/
structure Authority (authority : JsString) : Prop where
  nonempty : authority ≠ []
  units : ∀ u ∈ authority, 0x20 < u ∧ isSep .special u = false ∧ u ≠ question ∧ u ≠ hash

def absolute (authority target : JsString) : JsString := ofString "http://" ++ authority ++ target

theorem strip_eq {text : JsString} (h : ∀ u ∈ text, 0x20 < u) :
    ((text.dropWhile (· ≤ 0x20)).reverse.dropWhile (· ≤ 0x20)).reverse.filter
      (fun u => u != 0x09 && u != 0x0A && u != 0x0D) = text := by
  have hdrop : ∀ s : JsString, (∀ u ∈ s, 0x20 < u) → s.dropWhile (· ≤ 0x20) = s := by
    intro s hs
    cases s with
    | nil => rfl
    | cons u s =>
      have hu := hs u (List.mem_cons_self ..)
      rw [List.dropWhile_cons_of_neg]
      rw [decide_eq_true_eq, UInt16.not_le]
      exact hu
  rw [hdrop text h, hdrop text.reverse fun u hu => h u (List.mem_reverse.mp hu), List.reverse_reverse, List.filter_eq_self]
  intro u hu
  have hlt := h u hu
  have hne : ∀ v : UInt16, v ≤ 0x20 → (u != v) = true := by
    intro v hv
    rw [bne_iff_ne]
    rintro rfl
    exact absurd hlt (UInt16.not_lt.mpr hv)
  rw [hne 0x09 (by decide), hne 0x0A (by decide), hne 0x0D (by decide)]
  rfl

theorem cut_append {a b : JsString} {u : UInt16} (h : ∀ v ∈ a, v ≠ u) : cut u (a ++ u :: b) = (a, some b) := by
  have hbefore : (a ++ u :: b).takeWhile (· != u) = a := by
    rw [List.takeWhile_append_of_pos fun v hv => bne_iff_ne.mpr (h v hv), List.takeWhile_cons, if_neg (by simp), List.append_nil]
  have hlt : a.length < (a ++ u :: b).length := by simp
  have hdrop : (a ++ u :: b).drop (a.length + 1) = b := by
    rw [← List.drop_drop, List.drop_left]
    rfl
  unfold cut
  rw [hbefore]
  dsimp only
  rw [if_pos hlt, hdrop]

/-- What of a target stands before its query. -/
def pathText (target : JsString) : JsString := (cut question (cut hash target).1).1

theorem head_pathText {target : JsString} (h : target.head? = some slash) : ∃ more, pathText target = slash :: more := by
  cases target with
  | nil => cases h
  | cons u more =>
    obtain rfl : u = slash := Option.some.inj h
    exact ⟨_, rfl⟩

/-- After the scheme: the authority, up to the path. -/
theorem parseRest_absolute {hosts : HostParser} {authority path : JsString} (ha : Authority authority)
    (hpath : ∃ more, path = slash :: more) :
    parseRest hosts .special (slash :: slash :: (authority ++ path)) =
      (parseAuthority hosts .special authority).map fun host => (host, pathOf .special path) := by
  have hunits : ∀ u ∈ authority, (!isSep .special u) = true := fun u hu => by rw [(ha.units u hu).2.1]; rfl
  have hdrop : (slash :: slash :: (authority ++ path)).dropWhile (isSep .special) = authority ++ path := by
    cases hauthority : authority with
    | nil => exact absurd hauthority ha.nonempty
    | cons u more =>
      have hu := (ha.units u (hauthority ▸ List.mem_cons_self ..)).2.1
      show ((u :: more) ++ path).dropWhile (isSep .special) = _
      exact List.dropWhile_cons_of_neg (by rw [hu]; exact Bool.false_ne_true)
  have htake : (authority ++ path).takeWhile (fun u => !isSep .special u) = authority := by
    obtain ⟨more, rfl⟩ := hpath
    rw [List.takeWhile_append_of_pos hunits, List.takeWhile_cons, if_neg (by decide), List.append_nil]
  unfold parseRest
  dsimp only
  rw [hdrop, htake, List.drop_left]

/-- The URL of a target at a host. -/
theorem parse_absolute {hosts : HostParser} {authority target : JsString} (ha : Authority authority)
    (ht : target.head? = some slash) (hplain : ∀ u ∈ target, 0x20 < u) {u : Parsed}
    (h : parse hosts (absolute authority target) = some u) :
    u.kind = .special ∧ parseAuthority hosts .special authority = some u.hostname ∧ u.pathname = resolve target := by
  have hscheme : ofString "http://" = ofString "http" ++ [colon, slash, slash] := by decide
  have habsolute : absolute authority target = ofString "http" ++ colon :: slash :: slash :: (authority ++ target) := by
    unfold absolute
    rw [hscheme, List.append_assoc, List.append_assoc]
    rfl
  have hstrip : ∀ v ∈ absolute authority target, 0x20 < v := by
    intro v hv
    rcases List.mem_append.mp hv with hv | hv
    · rcases List.mem_append.mp hv with hv | hv
      · have hall : ∀ w ∈ ofString "http://", 0x20 < w := by decide
        exact hall v hv
      · exact (ha.units v hv).1
    · exact hplain v hv
  have hcut : cut colon (absolute authority target) = (ofString "http", some (slash :: slash :: (authority ++ target))) := by
    rw [habsolute]
    exact cut_append (by decide)
  -- no mark of a query or a fragment stands in the authority
  have hpath : (cut question (cut hash (slash :: slash :: (authority ++ target))).1).1 =
      slash :: slash :: (authority ++ pathText target) := by
    have hhash : ∀ v ∈ slash :: slash :: authority, (v != hash) = true := by
      intro v hv
      rcases List.mem_cons.mp hv with rfl | hv
      · rfl
      rcases List.mem_cons.mp hv with rfl | hv
      · rfl
      · exact bne_iff_ne.mpr (ha.units v hv).2.2.2
    have hquestion : ∀ v ∈ slash :: slash :: authority, (v != question) = true := by
      intro v hv
      rcases List.mem_cons.mp hv with rfl | hv
      · rfl
      rcases List.mem_cons.mp hv with rfl | hv
      · rfl
      · exact bne_iff_ne.mpr (ha.units v hv).2.2.1
    show (cut question (cut hash ((slash :: slash :: authority) ++ target)).1).1 = (slash :: slash :: authority) ++ _
    unfold pathText
    rw [cut_fst, cut_fst, cut_fst, cut_fst, List.takeWhile_append_of_pos hhash, List.takeWhile_append_of_pos hquestion]
  unfold parse at h
  dsimp only at h
  rw [strip_eq hstrip, hcut] at h
  dsimp only at h
  rw [if_pos (by decide)] at h
  have hkind : schemeKind (asciiLower (ofString "http")) = .special := by decide
  rw [hkind, hpath, parseRest_absolute ha (head_pathText ht)] at h
  obtain ⟨r, hr, rfl⟩ := Option.map_eq_some_iff.mp h
  obtain ⟨host, hhost, rfl⟩ := Option.map_eq_some_iff.mp hr
  exact ⟨rfl, hhost, rfl⟩

/-- A path is no URL. -/
theorem parse_slash (hosts : HostParser) {text : JsString} (h : text.head? = some slash) : parse hosts text = none := by
  -- what is stripped leaves the slash in front, if anything
  have hhead : ∀ u ∈ (((text.dropWhile (· ≤ 0x20)).reverse.dropWhile (· ≤ 0x20)).reverse.filter
      fun u => u != 0x09 && u != 0x0A && u != 0x0D).head?, u = slash := by
    cases text with
    | nil => cases h
    | cons v more =>
      obtain rfl : v = slash := Option.some.inj h
      have hdrop : (slash :: more).dropWhile (· ≤ 0x20) = slash :: more := List.dropWhile_cons_of_neg (by decide)
      have hprefix : (((slash :: more).reverse.dropWhile (· ≤ 0x20)).reverse) <+: slash :: more := by
        rw [← List.reverse_suffix, List.reverse_reverse]
        exact List.dropWhile_suffix _
      rw [hdrop]
      intro u hu
      generalize ((slash :: more).reverse.dropWhile (· ≤ 0x20)).reverse = kept at hprefix hu
      cases kept with
      | nil => cases hu
      | cons w kept =>
        obtain rfl : w = slash := (List.cons_prefix_cons.mp hprefix).1
        exact (Option.some.inj hu).symm
  unfold parse
  dsimp only
  generalize ((text.dropWhile (· ≤ 0x20)).reverse.dropWhile (· ≤ 0x20)).reverse.filter
    (fun u => u != 0x09 && u != 0x0A && u != 0x0D) = stripped at hhead
  have hscheme : (cut colon stripped).1.head?.any isAlpha = false := by
    rw [cut_fst]
    cases stripped with
    | nil => rfl
    | cons u more =>
      obtain rfl : u = slash := hhead u rfl
      rfl
  split
  · rename_i scheme rest heq
    rw [heq] at hscheme
    rw [if_neg]
    rw [hscheme]
    exact Bool.false_ne_true
  · rfl

end Url
