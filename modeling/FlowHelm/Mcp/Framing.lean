/-
  FlowHelm.Mcp.Framing — how McpServer.handleConnection cuts what a socket receives into lines.

  Each `data` event is decoded by itself and appended to the buffer; the lines the buffer
  holds are then trimmed, and those that are not empty are handed to `processLine`.

  - `handed_eq`: what is handed over is the lines of the decoded pieces together.
  - `handed_whole_iff`: it is what the stream in one piece gives, just if no event ends within
    a character that a newline still follows.
  - `a_cut_character_is_lost`: two events that share the bytes of one character.
-/
import Mathlib.Algebra.GroupWithZero.Nat
import Mathlib.Data.List.Basic
import FlowHelm.Lib.Js
import FlowHelm.Lib.Utf8

namespace FlowHelm.Mcp

open Utf8 (decode encode encodeChar replacement Torn Became)

/-- `while ((newlineIdx = buffer.indexOf('\n')) !== -1)`: the lines, and what is left. -/
def takeLines (buffer : List Char) : List String × List Char :=
  match _h : buffer.idxOf? '\n' with
  | none => ([], buffer)
  | some newlineIdx =>
    let line := Js.trim (String.ofList (buffer.take newlineIdx))
    let rest := takeLines (buffer.drop (newlineIdx + 1))
    (if line.length = 0 then rest.1 else line :: rest.1, rest.2)
termination_by buffer.length
decreasing_by
  obtain ⟨hlt, -⟩ := List.idxOf?_eq_some_iff.mp _h
  rw [List.length_drop]
  omega

/-- `buffer += data.toString()`. -/
def onData (buffer : List Char) (data : List UInt8) : List String × List Char := takeLines (buffer ++ decode data)

/-- The lines handed to `processLine` over a socket's `data` events. -/
def handed : List Char → List (List UInt8) → List String
  | _, [] => []
  | buffer, data :: later => (onData buffer data).1 ++ handed (onData buffer data).2 later

def handleConnection (events : List (List UInt8)) : List String := handed [] events

/-! ## Lines -/

def lineOf (text : List Char) : List String :=
  if (Js.trim (String.ofList text)).length = 0 then [] else [Js.trim (String.ofList text)]

/-- The complete lines of a text, one character after the other. -/
def linesFrom (line : List Char) : List Char → List String
  | [] => []
  | c :: text => if c = '\n' then lineOf line ++ linesFrom [] text else linesFrom (line ++ [c]) text

theorem linesFrom_none {text : List Char} (h : '\n' ∉ text) (line : List Char) : linesFrom line text = [] := by
  induction text generalizing line with
  | nil => rfl
  | cons c text ih =>
    unfold linesFrom
    rw [if_neg (List.ne_of_not_mem_cons h).symm]
    exact ih (fun hmem => h (.tail _ hmem)) _

theorem linesFrom_append {text : List Char} (h : '\n' ∉ text) (line more : List Char) :
    linesFrom line (text ++ more) = linesFrom (line ++ text) more := by
  induction text generalizing line with
  | nil => rw [List.nil_append, List.append_nil]
  | cons c text ih =>
    rw [List.cons_append]
    show (if c = '\n' then _ else linesFrom (line ++ [c]) (text ++ more)) = _
    rw [if_neg (List.ne_of_not_mem_cons h).symm, ih fun hmem => h (.tail _ hmem), List.append_assoc]
    rfl

theorem linesFrom_newline (line text : List Char) : linesFrom line ('\n' :: text) = lineOf line ++ linesFrom [] text :=
  if_pos rfl

theorem takeLines_none {buffer : List Char} (h : buffer.idxOf? '\n' = none) : takeLines buffer = ([], buffer) := by
  rw [takeLines]
  split
  · rfl
  · rename_i h'
    rw [h] at h'
    cases h'

theorem takeLines_some {buffer : List Char} {i : Nat} (h : buffer.idxOf? '\n' = some i) :
    takeLines buffer = (lineOf (buffer.take i) ++ (takeLines (buffer.drop (i + 1))).1, (takeLines (buffer.drop (i + 1))).2) := by
  rw [takeLines]
  split
  · rename_i h'
    rw [h] at h'
    cases h'
  · rename_i h'
    rw [h] at h'
    obtain rfl := Option.some.inj h'
    unfold lineOf
    by_cases hempty : (Js.trim (String.ofList (buffer.take i))).length = 0
    · simp only [hempty, if_true, List.nil_append]
    · simp only [hempty, if_false, List.singleton_append]

/-- The loop takes the complete lines and leaves no newline. -/
theorem takeLines_spec (buffer : List Char) :
    '\n' ∉ (takeLines buffer).2 ∧
      ∀ more, linesFrom [] (buffer ++ more) = (takeLines buffer).1 ++ linesFrom [] ((takeLines buffer).2 ++ more) := by
  induction buffer using takeLines.induct with
  | case1 buffer h =>
    rw [takeLines_none h]
    exact ⟨List.idxOf?_eq_none_iff.mp h, fun _ => rfl⟩
  | case2 buffer i h ih =>
    obtain ⟨hlt, hget, hbefore⟩ := List.idxOf?_eq_some_iff.mp h
    have hsplit : buffer = buffer.take i ++ '\n' :: buffer.drop (i + 1) := by
      rw [← hget, ← List.drop_eq_getElem_cons hlt, List.take_append_drop]
    have hnone : '\n' ∉ buffer.take i := by
      intro hmem
      obtain ⟨k, hk, hc⟩ := List.mem_take_iff_getElem.mp hmem
      exact hbefore k (by omega) hc
    rw [takeLines_some h]
    refine ⟨ih.1, fun more => ?_⟩
    conv_lhs => rw [hsplit]
    rw [List.append_assoc, List.cons_append, linesFrom_append hnone, List.nil_append, linesFrom_newline, ih.2 more,
      List.append_assoc]

theorem handed_eq {buffer : List Char} (h : '\n' ∉ buffer) (events : List (List UInt8)) :
    handed buffer events = linesFrom [] (buffer ++ events.flatMap decode) := by
  induction events generalizing buffer with
  | nil =>
    rw [List.flatMap_nil, List.append_nil, linesFrom_none h]
    rfl
  | cons data later ih =>
    obtain ⟨hleft, hlines⟩ := takeLines_spec (buffer ++ decode data)
    show (takeLines (buffer ++ decode data)).1 ++ handed (takeLines (buffer ++ decode data)).2 later = _
    rw [ih hleft, List.flatMap_cons, ← List.append_assoc, hlines]

/-! ## Trimming what became of a text -/

def trimBy {α : Type} (p : α → Bool) (xs : List α) : List α := ((xs.dropWhile p).reverse.dropWhile p).reverse

theorem length_dropWhile_append {α : Type} (p : α → Bool) (xs ys : List α) :
    (xs.dropWhile p).length ≤ ((xs ++ ys).dropWhile p).length := by
  induction xs with
  | nil => exact Nat.zero_le _
  | cons x xs ih =>
    rw [List.cons_append, List.dropWhile_cons, List.dropWhile_cons]
    by_cases hx : p x
    · rw [if_pos hx, if_pos hx]
      exact ih
    · rw [if_neg hx, if_neg hx, List.length_cons, List.length_cons, List.length_append]
      omega

/-- What is dropped more easily leaves less. -/
theorem dropWhile_suffix_of {α : Type} {p q : α → Bool} (h : ∀ x, q x → p x) (xs : List α) :
    xs.dropWhile p <:+ xs.dropWhile q := by
  induction xs with
  | nil => exact List.suffix_refl _
  | cons x xs ih =>
    by_cases hq : q x
    · rw [List.dropWhile_cons_of_pos hq, List.dropWhile_cons_of_pos (h x hq)]
      exact ih
    · rw [List.dropWhile_cons_of_neg hq]
      exact List.dropWhile_suffix p

theorem length_trimBy_le {α : Type} {p q : α → Bool} (h : ∀ x, q x → p x) (xs : List α) :
    (trimBy p xs).length ≤ (trimBy q xs).length := by
  obtain ⟨front, hfront⟩ := dropWhile_suffix_of h xs
  unfold trimBy
  rw [List.length_reverse, List.length_reverse, ← hfront, List.reverse_append]
  have hmore := length_dropWhile_append p (xs.dropWhile p).reverse front.reverse
  have hless := (dropWhile_suffix_of h ((xs.dropWhile p).reverse ++ front.reverse)).length_le
  omega

theorem mem_dropWhile {α : Type} {p : α → Bool} {xs : List α} {x : α} (hx : x ∈ xs) (hp : ¬p x) : x ∈ xs.dropWhile p := by
  induction xs with
  | nil => cases hx
  | cons y xs ih =>
    by_cases hy : p y
    · rw [List.dropWhile_cons_of_pos hy]
      rcases List.mem_cons.mp hx with rfl | hx
      · exact (hp hy).elim
      · exact ih hx
    · rw [List.dropWhile_cons_of_neg hy]
      exact hx

theorem mem_trimBy {α : Type} {p : α → Bool} {xs : List α} {x : α} (hx : x ∈ xs) (hp : ¬p x) : x ∈ trimBy p xs :=
  List.mem_reverse.mpr (mem_dropWhile (List.mem_reverse.mpr (mem_dropWhile hx hp)) hp)

/-- A character and what it became: itself, or two or more U+FFFD. -/
abbrev Block := Char × List Char

def Block.whole (x : Block) : Bool := decide (x.2 = [x.1])

def Block.Good (x : Block) : Prop := x.2 = [x.1] ∨ ∃ n, 2 ≤ n ∧ x.2 = List.replicate n replacement

/-- White space that stayed itself. -/
def Block.white (x : Block) : Bool := Js.isWhite x.1 && Block.whole x

theorem Block.Good.white_cases {x : Block} (h : Block.Good x) :
    (Block.white x = true ∧ x.2 = [x.1] ∧ Js.isWhite x.1 = true) ∨
      (Block.white x = false ∧ ∃ c cs, x.2 = c :: cs ∧ Js.isWhite c = false) := by
  rcases h with h | ⟨n, hn, h⟩
  · by_cases hw : Js.isWhite x.1 = true
    · exact Or.inl ⟨by simp [Block.white, Block.whole, hw, h], h, hw⟩
    · exact Or.inr ⟨by simp [Block.white, hw], x.1, [], h, by simpa using hw⟩
  · refine Or.inr ⟨?_, replacement, List.replicate (n - 1) replacement, ?_, by decide⟩
    · have hne : x.2 ≠ [x.1] := by
        intro heq
        have hlength := congrArg List.length heq
        rw [h, List.length_replicate, List.length_singleton] at hlength
        omega
      simp [Block.white, Block.whole, hne]
    · rw [h, ← List.replicate_succ, show n - 1 + 1 = n by omega]

theorem dropWhile_blocks {blocks : List Block} (h : ∀ x ∈ blocks, Block.Good x) :
    (blocks.flatMap Prod.snd).dropWhile Js.isWhite = (blocks.dropWhile Block.white).flatMap Prod.snd := by
  induction blocks with
  | nil => rfl
  | cons x blocks ih =>
    rcases Block.Good.white_cases (h x (.head _)) with ⟨hwhite, hx, hc⟩ | ⟨hwhite, c, cs, hx, hc⟩
    · rw [List.flatMap_cons, hx, List.singleton_append, List.dropWhile_cons_of_pos hc, List.dropWhile_cons_of_pos hwhite]
      exact ih fun y hy => h y (.tail _ hy)
    · rw [List.dropWhile_cons_of_neg (by simp [hwhite]), List.flatMap_cons, hx, List.cons_append,
        List.dropWhile_cons_of_neg (by simp [hc])]

theorem reverse_blocks {blocks : List Block} (h : ∀ x ∈ blocks, Block.Good x) :
    (blocks.flatMap Prod.snd).reverse = blocks.reverse.flatMap Prod.snd := by
  rw [List.reverse_flatMap]
  refine List.flatMap_congr fun x hx => ?_
  rcases h x (List.mem_reverse.mp hx) with hx | ⟨n, -, hx⟩
  · rw [Function.comp_apply, hx]
    rfl
  · rw [Function.comp_apply, hx, List.reverse_replicate]

theorem trimBy_blocks {blocks : List Block} (h : ∀ x ∈ blocks, Block.Good x) :
    trimBy Js.isWhite (blocks.flatMap Prod.snd) = (trimBy Block.white blocks).flatMap Prod.snd := by
  have hdrop : ∀ x ∈ blocks.dropWhile Block.white, Block.Good x := fun x hx => h x ((List.dropWhile_suffix _).mem hx)
  have hreverse : ∀ x ∈ (blocks.dropWhile Block.white).reverse, Block.Good x := fun x hx => hdrop x (List.mem_reverse.mp hx)
  unfold trimBy
  rw [dropWhile_blocks h, reverse_blocks hdrop, dropWhile_blocks hreverse, reverse_blocks]
  intro x hx
  exact hreverse x ((List.dropWhile_suffix _).mem hx)

theorem trimBy_map (blocks : List Block) :
    trimBy Js.isWhite (blocks.map Prod.fst) = (trimBy (fun x => Js.isWhite x.1) blocks).map Prod.fst := by
  unfold trimBy
  rw [List.dropWhile_map, ← List.map_reverse, List.dropWhile_map, List.map_reverse]
  rfl

theorem length_blocks {blocks : List Block} (h : ∀ x ∈ blocks, Block.Good x) :
    blocks.length ≤ (blocks.flatMap Prod.snd).length ∧
      ((∃ x ∈ blocks, Block.whole x = false) → blocks.length < (blocks.flatMap Prod.snd).length) := by
  induction blocks with
  | nil => exact ⟨Nat.le_refl _, nofun⟩
  | cons x blocks ih =>
    obtain ⟨hle, hlt⟩ := ih fun y hy => h y (.tail _ hy)
    rw [List.flatMap_cons, List.length_append, List.length_cons]
    rcases h x (.head _) with hx | ⟨n, hn, hx⟩
    · have hlength : x.2.length = 1 := by rw [hx, List.length_singleton]
      refine ⟨by omega, fun htorn => ?_⟩
      obtain ⟨y, hy, hty⟩ := htorn
      rcases List.mem_cons.mp hy with rfl | hy
      · simp [Block.whole, hx] at hty
      · have hrest := hlt ⟨y, hy, hty⟩
        omega
    · have hlength : x.2.length = n := by rw [hx, List.length_replicate]
      exact ⟨by omega, fun _ => by omega⟩

/-- A line with a character that was torn comes out longer, trimmed as it may be. -/
theorem length_trim_blocks {blocks : List Block} (h : ∀ x ∈ blocks, Block.Good x) :
    (trimBy Js.isWhite (blocks.map Prod.fst)).length ≤ (trimBy Js.isWhite (blocks.flatMap Prod.snd)).length ∧
      ((∃ x ∈ blocks, Block.whole x = false) →
        (trimBy Js.isWhite (blocks.map Prod.fst)).length < (trimBy Js.isWhite (blocks.flatMap Prod.snd)).length) := by
  rw [trimBy_map, List.length_map, trimBy_blocks h]
  have hwhite : ∀ x : Block, Block.white x → Js.isWhite x.1 := by
    intro x hx
    simp only [Block.white, Bool.and_eq_true] at hx
    exact hx.1
  have hfewer := length_trimBy_le hwhite blocks
  have hgood : ∀ x ∈ trimBy Block.white blocks, Block.Good x := by
    intro x hx
    have hx' := (List.dropWhile_suffix _).mem (List.mem_reverse.mp hx)
    exact h x ((List.dropWhile_suffix _).mem (List.mem_reverse.mp hx'))
  obtain ⟨hle, hlt⟩ := length_blocks hgood
  refine ⟨by omega, fun htorn => ?_⟩
  obtain ⟨x, hx, htx⟩ := htorn
  have hmore := hlt ⟨x, mem_trimBy hx (by simp [Block.white, htx]), htx⟩
  omega

/-! ## Cut characters -/

def weight (lines : List String) : Nat := (lines.map String.length).sum

theorem weight_lineOf (text : List Char) : weight (lineOf text) = (trimBy Js.isWhite text).length := by
  have htrim : (Js.trim (String.ofList text)).length = (trimBy Js.isWhite text).length := by
    unfold Js.trim
    rw [String.length_ofList, String.toList_ofList]
    rfl
  unfold lineOf
  by_cases hempty : (Js.trim (String.ofList text)).length = 0
  · rw [if_pos hempty, ← htrim, hempty]
    rfl
  · rw [if_neg hempty, ← htrim]
    unfold weight
    rw [List.map_singleton, List.sum_singleton]

theorem weight_append (lines more : List String) : weight (lines ++ more) = weight lines + weight more := by
  unfold weight
  rw [List.map_append, List.sum_append]

/-- A newline is one byte and stays itself. -/
structure Blocks (blocks : List Block) : Prop where
  good : ∀ x ∈ blocks, Block.Good x
  newline : ∀ x ∈ blocks, x.1 = '\n' → x.2 = ['\n']

theorem Blocks.tail {x : Block} {blocks : List Block} (h : Blocks (x :: blocks)) : Blocks blocks :=
  ⟨fun y hy => h.good y (.tail _ hy), fun y hy => h.newline y (.tail _ hy)⟩

theorem Blocks.no_newline {x : Block} {blocks : List Block} (h : Blocks (x :: blocks)) (hx : x.1 ≠ '\n') : '\n' ∉ x.2 := by
  rcases h.good x (.head _) with hgood | ⟨n, -, hgood⟩
  · rw [hgood, List.mem_singleton]
    exact Ne.symm hx
  · rw [hgood]
    intro hmem
    exact absurd (List.eq_of_mem_replicate hmem) (by decide)

theorem Blocks.newlines {blocks : List Block} (h : Blocks blocks) (hnone : '\n' ∉ blocks.map Prod.fst) :
    '\n' ∉ blocks.flatMap Prod.snd := by
  induction blocks with
  | nil => exact List.not_mem_nil
  | cons x blocks ih =>
    rw [List.map_cons, List.mem_cons, not_or] at hnone
    rw [List.flatMap_cons, List.mem_append, not_or]
    exact ⟨h.no_newline (Ne.symm hnone.1), ih h.tail hnone.2⟩

theorem Blocks.nil : Blocks [] := ⟨nofun, nofun⟩

/-- A torn character that a newline follows. -/
def Lost (blocks : List Block) : Prop :=
  ∃ a x b, blocks = a ++ x :: b ∧ '\n' ∈ b.map Prod.fst ∧ Block.whole x = false

/-- With nothing torn before the last newline the lines are the text's. -/
theorem lines_kept {blocks : List Block} (h : Blocks blocks) (hkept : ¬Lost blocks) (line : List Char) :
    linesFrom line (blocks.flatMap Prod.snd) = linesFrom line (blocks.map Prod.fst) := by
  induction blocks generalizing line with
  | nil => rfl
  | cons x blocks ih =>
    have hkept' : ¬Lost blocks := by
      intro hlost
      obtain ⟨a, y, b, rfl, hb, hy⟩ := hlost
      exact hkept ⟨x :: a, y, b, rfl, hb, hy⟩
    by_cases hnewline : '\n' ∈ blocks.map Prod.fst
    · have hx : x.2 = [x.1] := by
        by_contra hne
        exact hkept ⟨[], x, blocks, rfl, hnewline, by simp [Block.whole, hne]⟩
      rw [List.flatMap_cons, hx, List.map_cons, List.singleton_append]
      unfold linesFrom
      rw [ih h.tail hkept', ih h.tail hkept']
    · by_cases hx : x.1 = '\n'
      · rw [List.flatMap_cons, h.newline x (.head _) hx, List.map_cons, hx, List.singleton_append, linesFrom_newline,
          linesFrom_newline, linesFrom_none (h.tail.newlines hnewline), linesFrom_none hnewline]
      · have hnone : '\n' ∉ (x :: blocks).map Prod.fst := by
          rw [List.map_cons, List.mem_cons, not_or]
          exact ⟨Ne.symm hx, hnewline⟩
        rw [linesFrom_none (h.newlines hnone), linesFrom_none hnone]

/-- Otherwise they are longer together; `line` is what of the current line has been read. -/
theorem lines_longer {line blocks : List Block} (hline : Blocks line) (h : Blocks blocks) :
    weight (linesFrom (line.map Prod.fst) (blocks.map Prod.fst)) ≤
        weight (linesFrom (line.flatMap Prod.snd) (blocks.flatMap Prod.snd)) ∧
      (Lost blocks ∨ ('\n' ∈ blocks.map Prod.fst ∧ ∃ x ∈ line, Block.whole x = false) →
        weight (linesFrom (line.map Prod.fst) (blocks.map Prod.fst)) <
          weight (linesFrom (line.flatMap Prod.snd) (blocks.flatMap Prod.snd))) := by
  induction blocks generalizing line with
  | nil =>
    refine ⟨Nat.le_refl _, fun hbad => ?_⟩
    rcases hbad with ⟨a, x, b, hnil, -⟩ | ⟨hmem, -⟩
    · exact absurd hnil (by simp)
    · cases hmem
  | cons x blocks ih =>
    by_cases hx : x.1 = '\n'
    · obtain ⟨hle, hlt⟩ := ih Blocks.nil h.tail
      obtain ⟨htrim, htrim'⟩ := length_trim_blocks hline.good
      rw [List.flatMap_cons, h.newline x (.head _) hx, List.map_cons, hx, List.singleton_append, linesFrom_newline,
        linesFrom_newline, weight_append, weight_append, weight_lineOf, weight_lineOf]
      simp only [List.map_nil, List.flatMap_nil] at hle hlt
      refine ⟨by omega, fun hbad => ?_⟩
      rcases hbad with ⟨a, y, b, hsplit, hb, hy⟩ | ⟨-, htorn⟩
      · cases a with
        | nil =>
          obtain ⟨rfl, -⟩ := List.cons.inj hsplit
          simp [Block.whole, h.newline x (.head _) hx, hx] at hy
        | cons z a =>
          obtain ⟨rfl, rfl⟩ := List.cons.inj hsplit
          have hmore := hlt (Or.inl ⟨a, y, b, rfl, hb, hy⟩)
          omega
      · have hmore := htrim' htorn
        omega
    · have hline' : Blocks (line ++ [x]) := by
        constructor
        · intro y hy
          rcases List.mem_append.mp hy with hy | hy
          · exact hline.good y hy
          · rw [List.mem_singleton.mp hy]
            exact h.good x (.head _)
        · intro y hy
          rcases List.mem_append.mp hy with hy | hy
          · exact hline.newline y hy
          · rw [List.mem_singleton.mp hy]
            exact h.newline x (.head _)
      obtain ⟨hle, hlt⟩ := ih hline' h.tail
      have hleft : linesFrom (line.map Prod.fst) ((x :: blocks).map Prod.fst) =
          linesFrom ((line ++ [x]).map Prod.fst) (blocks.map Prod.fst) := by
        rw [List.map_append]
        exact if_neg hx
      have hright : linesFrom (line.flatMap Prod.snd) ((x :: blocks).flatMap Prod.snd) =
          linesFrom ((line ++ [x]).flatMap Prod.snd) (blocks.flatMap Prod.snd) := by
        rw [List.flatMap_cons, linesFrom_append (h.no_newline hx), List.flatMap_append, List.flatMap_singleton]
      rw [hleft, hright]
      refine ⟨hle, fun hbad => hlt ?_⟩
      rcases hbad with ⟨a, y, b, hsplit, hb, hy⟩ | ⟨hmem, y, hy, htorn⟩
      · cases a with
        | nil =>
          obtain ⟨rfl, rfl⟩ := List.cons.inj hsplit
          exact Or.inr ⟨hb, x, List.mem_append_right _ (.head _), hy⟩
        | cons z a =>
          obtain ⟨rfl, rfl⟩ := List.cons.inj hsplit
          exact Or.inl ⟨a, y, b, rfl, hb, hy⟩
      · rw [List.map_cons, List.mem_cons] at hmem
        rcases hmem with hmem | hmem
        · exact (hx hmem.symm).elim
        · exact Or.inr ⟨hmem, y, List.mem_append_left _ hy, htorn⟩

/-- The lines are those of the stream in one piece just if no `data` event ends within a
    character that a newline follows. -/
theorem handed_whole_iff (text : List Char) (events : List (List UInt8)) (h : events.flatten = encode text) :
    handleConnection events = handleConnection [encode text] ↔
      ∀ a c b, text = a ++ c :: b → '\n' ∈ b → ¬Torn events (encode a).length c := by
  obtain ⟨blocks, rfl, hdecode, hall⟩ := Utf8.decode_pieces h
  have hwhole : ∀ a x b, blocks = a ++ x :: b → (Block.whole x = false ↔ Torn events (encode (a.map Prod.fst)).length x.1) := by
    intro a x b hsplit
    rcases hall a x b hsplit with ⟨htorn, hx⟩ | ⟨htorn, n, hn, hx⟩
    · simp [Block.whole, hx, htorn]
    · have hne : x.2 ≠ [x.1] := by
        intro heq
        have hlength := congrArg List.length heq
        rw [hx, List.length_replicate, List.length_singleton] at hlength
        omega
      simp [Block.whole, hne, htorn]
  have hblocks : Blocks blocks := by
    constructor
    · intro x hx
      obtain ⟨a, b, hsplit⟩ := List.append_of_mem hx
      rcases hall a x b hsplit with ⟨-, hx⟩ | ⟨-, hx⟩
      · exact Or.inl hx
      · exact Or.inr hx
    · intro x hx hc
      obtain ⟨a, b, hsplit⟩ := List.append_of_mem hx
      rcases hall a x b hsplit with ⟨-, hx⟩ | ⟨⟨n, -, hlo, hhi⟩, -⟩
      · rw [hx, hc]
      · have hone : (encodeChar x.1).length = 1 := by
          rw [hc]
          rfl
        omega
  have hlost : Lost blocks ↔ ∃ a c b, blocks.map Prod.fst = a ++ c :: b ∧ '\n' ∈ b ∧ Torn events (encode a).length c := by
    constructor
    · intro hlost
      obtain ⟨a, x, b, hsplit, hb, hx⟩ := hlost
      exact ⟨a.map Prod.fst, x.1, b.map Prod.fst, by rw [hsplit, List.map_append, List.map_cons], hb, (hwhole a x b hsplit).mp hx⟩
    · intro hlost
      obtain ⟨a, c, b, hsplit, hb, hc⟩ := hlost
      obtain ⟨a', rest, rfl, rfl, hrest⟩ := List.map_eq_append_iff.mp hsplit
      obtain ⟨x, b', rfl, rfl, rfl⟩ := List.map_eq_cons_iff.mp hrest
      exact ⟨a', x, b', rfl, hb, (hwhole a' x b' rfl).mpr hc⟩
  have hpieces : handleConnection events = linesFrom [] (blocks.flatMap Prod.snd) := by
    rw [← hdecode]
    exact handed_eq List.not_mem_nil events
  have hone : handleConnection [encode (blocks.map Prod.fst)] = linesFrom [] (blocks.map Prod.fst) := by
    unfold handleConnection
    rw [handed_eq List.not_mem_nil, List.flatMap_singleton, Utf8.decode_encode]
    rfl
  rw [hpieces, hone]
  constructor
  · intro heq a c b hsplit hb hc
    have hlonger := (lines_longer Blocks.nil hblocks).2 (Or.inl (hlost.mpr ⟨a, c, b, hsplit, hb, hc⟩))
    simp only [List.map_nil, List.flatMap_nil, heq] at hlonger
    exact Nat.lt_irrefl _ hlonger
  · intro hnone
    refine lines_kept hblocks (fun hbad => ?_) []
    obtain ⟨a, c, b, hsplit, hb, hc⟩ := hlost.mp hbad
    exact hnone a c b hsplit hb hc

/-- An event may end between two characters. -/
theorem handed_whole_between : handleConnection [[0xC3, 0xA9], [0x0A]] = handleConnection [encode ['é', '\n']] := by
  refine (handed_whole_iff ['é', '\n'] [[0xC3, 0xA9], [0x0A]] (by decide)).mpr fun a c b hsplit hb htorn => ?_
  cases a with
  | nil =>
    obtain ⟨rfl, rfl⟩ := List.cons.inj hsplit
    obtain ⟨n, hn, hlo, hhi⟩ := htorn
    have hends : Utf8.ends 0 [[0xC3, 0xA9], [0x0A]] = [2, 3] := by decide
    have hlength : (encodeChar 'é').length = 2 := by decide
    rw [hends] at hn
    simp only [List.mem_cons, List.not_mem_nil, or_false] at hn
    simp only [Utf8.encode_nil, List.length_nil, hlength] at hhi
    omega
  | cons x a =>
    have hb' : b = [] := by
      have hlength := congrArg List.length hsplit
      simp only [List.length_cons, List.length_append, List.length_nil] at hlength
      exact List.length_eq_zero_iff.mp (by omega)
    rw [hb'] at hb
    cases hb

/-- The two bytes of `é` come in two events. -/
theorem a_cut_character_is_lost :
    [[0x22, 0xC3], [0xA9, 0x22, 0x0A]].flatten = encode ['"', 'é', '"', '\n'] ∧
      handleConnection [[0x22, 0xC3], [0xA9, 0x22, 0x0A]] = ["\"\ufffd\ufffd\""] ∧
      handleConnection [encode ['"', 'é', '"', '\n']] = ["\"é\""] := by
  unfold handleConnection
  rw [handed_eq List.not_mem_nil, handed_eq List.not_mem_nil]
  decide

end FlowHelm.Mcp
