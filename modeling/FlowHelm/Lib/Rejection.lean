/-
  FlowHelm.Lib.Rejection — words drawn letter by letter from random symbols, some of which stand
  for no letter and are thrown away; the symbols come in batches, and what is left of the last
  batch is thrown away too.

  - `draw_respell`: the symbols of one word are those of another, spelt anew.
  - `drawUnused_redraw`: so it is where words in use are drawn again.
  - `card_drawUnused`: of all symbols there can be, as many give the one word as the other.
-/
import Mathlib.Data.Fintype.Vector
import Mathlib.Data.Finset.Card

namespace Rejection

variable {A B : Type}

/-- Symbols for letters: what stands for a letter stands for any other once it is spelt so. -/
structure Code (A B : Type) where
  letter : B → Option A
  spell : A → B → B
  letter_spell : ∀ {a a' b}, letter b = some a' → letter (spell a b) = some a
  spell_letter : ∀ {a b}, letter b = some a → spell a b = b
  spell_spell : ∀ {a a' a'' b}, letter b = some a'' → spell a (spell a' b) = spell a b

variable (C : Code A B) (n extra : Nat)

/-- A symbol is read, for a word of `n` letters. -/
def push (word : List A) (b : B) : List A := match C.letter b with
  | some a => if word.length < n then word ++ [a] else word
  | none => word

/-- In batches of as many as are missing and `extra` more; `none` where the symbols run out. -/
def draw (word : List A) (symbols : List B) : Option (List A × List B) :=
  if word.length < n then
    if n - word.length + extra ≤ symbols.length then
      draw ((symbols.take (n - word.length + extra)).foldl (push C n) word) (symbols.drop (n - word.length + extra))
    else none
  else some (word, symbols)
termination_by symbols.length
decreasing_by
  rw [List.length_drop]
  omega

/-- The first letters that come are those of `word`. -/
def respell : List A → List B → List B
  | [], symbols => symbols
  | _, [] => []
  | a :: word, b :: symbols => match C.letter b with
    | some _ => C.spell a b :: respell word symbols
    | none => b :: respell (a :: word) symbols

/-- What of `word` has not come yet. -/
def unspelt : List A → List B → List A
  | [], _ => []
  | word, [] => word
  | a :: word, b :: symbols => match C.letter b with
    | some _ => unspelt word symbols
    | none => unspelt (a :: word) symbols

variable {C n extra}

/-! ## Spelling -/

@[simp] theorem respell_nil (symbols : List B) : respell C [] symbols = symbols := by cases symbols <;> rfl

@[simp] theorem respell_empty (word : List A) : respell C word ([] : List B) = [] := by cases word <;> rfl

@[simp] theorem unspelt_nil (symbols : List B) : unspelt C [] symbols = [] := by cases symbols <;> rfl

@[simp] theorem unspelt_empty (word : List A) : unspelt C word ([] : List B) = word := by cases word <;> rfl

theorem length_respell (word : List A) (symbols : List B) : (respell C word symbols).length = symbols.length := by
  induction symbols generalizing word with
  | nil => simp
  | cons b symbols ih =>
    cases word with
    | nil => simp
    | cons a word =>
      rw [respell]
      split <;> rw [List.length_cons, List.length_cons, ih]

theorem respell_append (word : List A) (xs ys : List B) :
    respell C word (xs ++ ys) = respell C word xs ++ respell C (unspelt C word xs) ys := by
  induction xs generalizing word with
  | nil => simp
  | cons b xs ih =>
    cases word with
    | nil => simp
    | cons a word =>
      rw [List.cons_append, respell, respell, unspelt]
      split <;> rw [ih, List.cons_append]

/-- Spelt anew, the symbols are as if they had been so at first. -/
theorem respell_respell {v w : List A} (h : v.length = w.length) (symbols : List B) :
    respell C v (respell C w symbols) = respell C v symbols := by
  induction symbols generalizing v w with
  | nil => simp
  | cons b symbols ih =>
    cases v with
    | nil =>
      obtain rfl := List.eq_nil_of_length_eq_zero h.symm
      simp
    | cons a v =>
      cases w with
      | nil => cases h
      | cons a' w =>
        have hlength : v.length = w.length := Nat.succ.inj h
        cases hb : C.letter b with
        | some x => simp only [respell, hb, C.letter_spell hb, C.spell_spell hb, ih hlength]
        | none => simp only [respell, hb, ih h]

/-! ## Reading -/

/-- The letters that are missing come as they are spelt. -/
theorem foldl_respell {word v : List A} (h : word.length + v.length = n) (symbols : List B) :
    (respell C v symbols).foldl (push C n) word ++ unspelt C v symbols = word ++ v := by
  induction symbols generalizing word v with
  | nil => simp
  | cons b symbols ih =>
    cases v with
    | nil =>
      -- the word is whole
      have hfull : ∀ bs : List B, bs.foldl (push C n) word = word := by
        intro bs
        induction bs with
        | nil => rfl
        | cons b bs ih =>
          have hpush : push C n word b = word := by
            unfold push
            split
            · exact if_neg (by simpa using Nat.le_of_eq h.symm)
            · rfl
          rw [List.foldl_cons, hpush, ih]
      rw [respell_nil, hfull, unspelt_nil]
    | cons a v =>
      rw [List.length_cons] at h
      cases hb : C.letter b with
      | some x =>
        have hpush : push C n word (C.spell a b) = word ++ [a] := by
          rw [push, C.letter_spell hb]
          exact if_pos (by omega)
        simp only [respell, unspelt, hb, List.foldl_cons, hpush]
        rw [ih (by rw [List.length_append, List.length_singleton]; omega), List.append_assoc, List.singleton_append]
      | none =>
        have hpush : push C n word b = word := by rw [push, hb]
        simp only [respell, unspelt, hb, List.foldl_cons, hpush]
        exact ih (by rw [List.length_cons]; omega)

theorem prefix_foldl (word : List A) (symbols : List B) : word <+: symbols.foldl (push C n) word := by
  induction symbols generalizing word with
  | nil => exact List.prefix_refl word
  | cons b symbols ih =>
    refine List.IsPrefix.trans ?_ (ih _)
    unfold push
    split
    · split
      · exact List.prefix_append word _
      · exact List.prefix_refl word
    · exact List.prefix_refl word

/-- What has been read is how the symbols are spelt. -/
theorem read_spelt {w u v : List A} {symbols : List B} (h : w.length + u.length + v.length = n)
    (hread : symbols.foldl (push C n) w = w ++ u) :
    respell C (u ++ v) symbols = symbols ∧ unspelt C (u ++ v) symbols = v := by
  induction symbols generalizing w u with
  | nil =>
    obtain rfl : u = [] := by simpa using hread
    simp
  | cons b symbols ih =>
    rw [List.foldl_cons] at hread
    cases hb : C.letter b with
    | some x =>
      by_cases hfull : w.length = n
      · -- nothing is missing
        obtain rfl : u = [] := List.eq_nil_of_length_eq_zero (by omega)
        obtain rfl : v = [] := List.eq_nil_of_length_eq_zero (by omega)
        simp
      · have hpush : push C n w b = w ++ [x] := by
          rw [push, hb]
          exact if_pos (by omega)
        rw [hpush] at hread
        obtain ⟨u', hu⟩ := prefix_foldl (C := C) (n := n) (w ++ [x]) symbols
        rw [hread, List.append_assoc] at hu
        obtain rfl := List.append_cancel_left hu
        rw [List.singleton_append, List.length_cons] at h
        obtain ⟨hrespell, hunspelt⟩ := ih (w := w ++ [x]) (u := u') (by simp; omega) (by rw [hread]; simp)
        rw [List.singleton_append, List.cons_append]
        simp only [respell, unspelt, hb, C.spell_letter hb, hrespell, hunspelt, and_self]
    | none =>
      have hpush : push C n w b = w := by rw [push, hb]
      rw [hpush] at hread
      obtain ⟨hrespell, hunspelt⟩ := ih h hread
      cases huv : u ++ v with
      | nil =>
        have hv : v = [] := (List.append_eq_nil_iff.mp huv).2
        simp [hv]
      | cons a w =>
        rw [huv] at hrespell hunspelt
        simp only [respell, unspelt, hb, hrespell, hunspelt, and_self]

theorem length_push_eq {word word' : List A} {b b' : B} (hsame : word'.length = word.length)
    (hb : (C.letter b').isSome = (C.letter b).isSome) : (push C n word' b').length = (push C n word b).length := by
  unfold push
  cases hl : C.letter b with
  | none =>
    cases hl' : C.letter b' with
    | none => exact hsame
    | some x => simp [hl, hl'] at hb
  | some x =>
    cases hl' : C.letter b' with
    | none => simp [hl, hl'] at hb
    | some y =>
      dsimp only
      rw [hsame]
      split <;> simp [hsame]

/-- How many letters have come does not depend on the letters. -/
theorem length_foldl_respell {word word' v : List A} (hsame : word'.length = word.length) (symbols : List B) :
    ((respell C v symbols).foldl (push C n) word').length = (symbols.foldl (push C n) word).length := by
  induction symbols generalizing word word' v with
  | nil => simpa using hsame
  | cons b symbols ih =>
    cases v with
    | nil =>
      have hrest := ih (v := []) (length_push_eq (C := C) (n := n) hsame (b := b) rfl)
      rwa [respell_nil] at hrest ⊢
    | cons a v =>
      rw [respell]
      cases hb : C.letter b with
      | some x =>
        have hspell : (C.letter (C.spell a b)).isSome = (C.letter b).isSome := by rw [C.letter_spell hb, hb]; rfl
        exact ih (length_push_eq hsame hspell)
      | none => exact ih (length_push_eq hsame rfl)

/-! ## Drawing -/

/-- The symbols of one word spell another. -/
theorem draw_respell {word w v t : List A} {symbols rest : List B} (hdraw : draw C n extra word symbols = some (t, rest))
    (hsame : w.length = word.length) (h : w.length + v.length = n) :
    draw C n extra w (respell C v symbols) = some (w ++ v, rest) := by
  induction word, symbols using draw.induct C n extra generalizing w v with
  | case1 word symbols hshort hsize ih =>
    generalize hk : n - word.length + extra = size at hsize ih
    have hsplit := respell_append (C := C) v (symbols.take size) (symbols.drop size)
    rw [List.take_append_drop] at hsplit
    have htaken : (respell C v (symbols.take size)).length = size := by
      rw [length_respell, List.length_take, Nat.min_eq_left hsize]
    have hread := foldl_respell (C := C) h (symbols.take size)
    have hmissing :
        ((respell C v (symbols.take size)).foldl (push C n) w).length + (unspelt C v (symbols.take size)).length = n := by
      rw [← List.length_append, hread, List.length_append, h]
    rw [draw, if_pos hshort, hk, if_pos hsize] at hdraw
    rw [draw, if_pos (hsame ▸ hshort), hsame, hk, length_respell, if_pos hsize, hsplit, List.take_left' htaken,
      List.drop_left' htaken,
      ih hdraw (length_foldl_respell hsame _) hmissing, hread]
  | case2 word symbols hshort hsize =>
    rw [draw, if_pos hshort, if_neg hsize] at hdraw
    cases hdraw
  | case3 word symbols hfull =>
    rw [draw, if_neg hfull] at hdraw
    obtain ⟨rfl, rfl⟩ := Prod.mk.inj (Option.some.inj hdraw)
    obtain rfl : v = [] := List.eq_nil_of_length_eq_zero (by omega)
    rw [respell_nil, draw, if_neg (hsame ▸ hfull), List.append_nil]

theorem length_foldl_le {word : List A} (h : word.length ≤ n) (symbols : List B) :
    (symbols.foldl (push C n) word).length ≤ n := by
  induction symbols generalizing word with
  | nil => exact h
  | cons b symbols ih =>
    refine ih ?_
    unfold push
    split
    · split
      · rw [List.length_append, List.length_singleton]
        omega
      · exact h
    · exact h

/-- A word that is drawn is how its symbols are spelt. -/
theorem draw_spelt {word t : List A} {symbols rest : List B} (hdraw : draw C n extra word symbols = some (t, rest))
    (hword : word.length ≤ n) : ∃ v, t = word ++ v ∧ t.length = n ∧ respell C v symbols = symbols := by
  induction word, symbols using draw.induct C n extra with
  | case1 word symbols hshort hsize ih =>
    generalize hk : n - word.length + extra = size at hsize ih
    rw [draw, if_pos hshort, hk, if_pos hsize] at hdraw
    obtain ⟨u, hu⟩ := prefix_foldl (C := C) (n := n) word (symbols.take size)
    obtain ⟨v, rfl, hlength, hrest⟩ := ih hdraw (length_foldl_le hword _)
    rw [← hu] at hlength
    obtain ⟨htaken, hleft⟩ := read_spelt (C := C) (u := u) (v := v) (by simpa [Nat.add_assoc] using hlength) hu.symm
    refine ⟨u ++ v, by rw [← hu, List.append_assoc], by rw [← hu, hlength], ?_⟩
    rw [← List.take_append_drop size symbols, respell_append, htaken, hleft, hrest]
  | case2 word symbols hshort hsize =>
    rw [draw, if_pos hshort, if_neg hsize] at hdraw
    cases hdraw
  | case3 word symbols hfull =>
    rw [draw, if_neg hfull] at hdraw
    obtain ⟨rfl, rfl⟩ := Prod.mk.inj (Option.some.inj hdraw)
    exact ⟨[], (List.append_nil _).symm, by omega, respell_nil _⟩

/-- What comes behind a word's symbols is left alone. -/
theorem draw_append {word t : List A} {symbols rest : List B} (hdraw : draw C n extra word symbols = some (t, rest)) :
    ∃ used, symbols = used ++ rest ∧ ∀ more, draw C n extra word (used ++ more) = some (t, more) := by
  induction word, symbols using draw.induct C n extra with
  | case1 word symbols hshort hsize ih =>
    generalize hk : n - word.length + extra = size at hsize ih
    rw [draw, if_pos hshort, hk, if_pos hsize] at hdraw
    obtain ⟨used, hused, hmore⟩ := ih hdraw
    have htaken : (symbols.take size).length = size := by rw [List.length_take, Nat.min_eq_left hsize]
    refine ⟨symbols.take size ++ used, by rw [List.append_assoc, ← hused, List.take_append_drop], fun more => ?_⟩
    rw [draw, if_pos hshort, hk, List.append_assoc, if_pos (by rw [List.length_append, htaken]; exact Nat.le_add_right ..),
      List.take_left' htaken, List.drop_left' htaken, hmore]
  | case2 word symbols hshort hsize =>
    rw [draw, if_pos hshort, if_neg hsize] at hdraw
    cases hdraw
  | case3 word symbols hfull =>
    rw [draw, if_neg hfull] at hdraw
    obtain ⟨rfl, rfl⟩ := Prod.mk.inj (Option.some.inj hdraw)
    exact ⟨[], rfl, fun more => by rw [draw, if_neg hfull, List.nil_append]⟩

/-! ## Words in use -/

variable (C n extra) in
/-- Of at most so many words the first that is not in use. -/
def drawUnused (used : List A → Bool) : Nat → List B → Option (List A)
  | 0, _ => none
  | tries + 1, symbols => match draw C n extra [] symbols with
    | some (word, rest) => if used word then drawUnused used tries rest else some word
    | none => none

variable (C n extra) in
/-- The word that is drawn spelt anew, those in use as they were. -/
def redraw (used : List A → Bool) (v : List A) : Nat → List B → List B
  | 0, symbols => symbols
  | tries + 1, symbols => match draw C n extra [] symbols with
    | some (word, rest) =>
      if used word then symbols.take (symbols.length - rest.length) ++ redraw used v tries rest else respell C v symbols
    | none => symbols

variable {used : List A → Bool}

theorem length_redraw (v : List A) (tries : Nat) (symbols : List B) :
    (redraw C n extra used v tries symbols).length = symbols.length := by
  induction tries generalizing symbols with
  | zero => rfl
  | succ tries ih =>
    rw [redraw]
    split
    · rename_i word rest hdraw
      obtain ⟨front, rfl, -⟩ := draw_append hdraw
      split
      · rw [List.length_append, ih, List.length_append, Nat.add_sub_cancel, List.take_left' rfl]
      · exact length_respell v _
    · rfl

theorem drawUnused_length {t : List A} {tries : Nat} {symbols : List B} (h : drawUnused C n extra used tries symbols = some t) :
    t.length = n ∧ used t = false := by
  induction tries generalizing symbols with
  | zero => cases h
  | succ tries ih =>
    rw [drawUnused] at h
    split at h
    · rename_i word rest hdraw
      split at h
      · exact ih h
      · rename_i hfree
        obtain rfl := Option.some.inj h
        obtain ⟨v, -, hlength, -⟩ := draw_spelt hdraw (Nat.zero_le n)
        exact ⟨hlength, by simpa using hfree⟩
    · cases h

theorem drawUnused_redraw {t v : List A} (hlength : v.length = n) (hfree : used v = false) {tries : Nat} {symbols : List B}
    (h : drawUnused C n extra used tries symbols = some t) :
    drawUnused C n extra used tries (redraw C n extra used v tries symbols) = some v ∧
      redraw C n extra used t tries (redraw C n extra used v tries symbols) = symbols := by
  induction tries generalizing symbols with
  | zero => cases h
  | succ tries ih =>
    rw [drawUnused] at h
    split at h
    · rename_i word rest hdraw
      obtain ⟨front, hfront, hmore⟩ := draw_append hdraw
      split at h
      · -- a word in use is drawn again
        rename_i hused
        obtain ⟨hword, hback⟩ := ih h
        have hredraw : redraw C n extra used v (tries + 1) symbols = front ++ redraw C n extra used v tries rest := by
          simp only [redraw, hdraw, if_pos hused]
          rw [hfront, List.length_append, Nat.add_sub_cancel, List.take_left' rfl]
        rw [hredraw]
        simp only [drawUnused, redraw, hmore, if_pos hused]
        rw [List.length_append, Nat.add_sub_cancel, List.take_left' rfl, hback, hfront]
        exact ⟨hword, rfl⟩
      · rename_i hunused
        obtain rfl := Option.some.inj h
        have hspelt := draw_respell hdraw (w := []) rfl (v := v) (by simpa using hlength)
        obtain ⟨u, hu, huLength, hsame⟩ := draw_spelt hdraw (Nat.zero_le n)
        rw [List.nil_append] at hu hspelt
        have hredraw : redraw C n extra used v (tries + 1) symbols = respell C v symbols := by
          simp only [redraw, hdraw, if_neg hunused]
        rw [hredraw]
        simp only [drawUnused, redraw, hspelt, hfree, Bool.false_eq_true, if_false]
        rw [respell_respell (huLength.trans hlength.symm), hu, hsame]
        exact ⟨trivial, rfl⟩
    · cases h

variable (used) in
/-- Every word that is not in use is drawn from as many of all symbols there can be. -/
theorem card_drawUnused [Fintype B] [DecidableEq A] (tries size : Nat) {t v : List A} (ht : t.length = n ∧ used t = false)
    (hv : v.length = n ∧ used v = false) :
    (Finset.univ.filter fun symbols : List.Vector B size => drawUnused C n extra used tries symbols.toList = some t).card =
      (Finset.univ.filter fun symbols : List.Vector B size => drawUnused C n extra used tries symbols.toList = some v).card := by
  let change (w : List A) (symbols : List.Vector B size) : List.Vector B size :=
    ⟨redraw C n extra used w tries symbols.toList, (length_redraw w tries _).trans symbols.toList_length⟩
  have hchange : ∀ {t w : List A} {symbols : List.Vector B size}, w.length = n ∧ used w = false →
      drawUnused C n extra used tries symbols.toList = some t →
      drawUnused C n extra used tries (change w symbols).toList = some w ∧ change t (change w symbols) = symbols := by
    intro t w symbols hw h
    obtain ⟨hword, hback⟩ := drawUnused_redraw hw.1 hw.2 h
    exact ⟨hword, List.Vector.toList_injective hback⟩
  refine Finset.card_bij' (fun symbols _ => change v symbols) (fun symbols _ => change t symbols) ?_ ?_ ?_ ?_ <;>
    intro symbols hsymbols <;> rw [Finset.mem_filter] at hsymbols
  · exact Finset.mem_filter.mpr ⟨Finset.mem_univ _, (hchange hv hsymbols.2).1⟩
  · exact Finset.mem_filter.mpr ⟨Finset.mem_univ _, (hchange ht hsymbols.2).1⟩
  · exact (hchange hv hsymbols.2).2
  · exact (hchange ht hsymbols.2).2

end Rejection
