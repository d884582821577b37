/-
  FlowHelm.Lib.JsWords — the words of a text: `trim`, `split(/\s+/)` and joining by blanks.

  - `join_intercalate`: `join` is the list library's.
  - `Tidy`: blanks are the only white units, each alone, and none stands at an end.
  - `trimEnds_tidy` / `join_tokenize`: a tidy text is trimmed, and its words joined by blanks.
  - `Tidy.append` / `Tidy.spaced`: where tidy texts are put together.
-/
import Mathlib.Data.List.Chain
import FlowHelm.Lib.JsSlice

namespace Js

theorem join_intercalate (sep : JsString) (xs : List JsString) : join sep xs = sep.intercalate xs := by
  induction xs using join.induct with
  | case1 => rfl
  | case2 x => simp [join]
  | case3 x y xs ih => simp [join, ih, List.intercalate, List.intersperse]

/-- The unit between two words. -/
def gap : UInt16 := 0x20

/-- `s.trim()`. -/
def trimEnds (s : JsString) : JsString := ((s.dropWhile isWhiteUnit).reverse.dropWhile isWhiteUnit).reverse

/-- `s.split(/\s+/).filter(Boolean)`: to split at each white unit makes more empty pieces. -/
def tokenize (s : JsString) : List JsString := (s.splitOnP isWhiteUnit).filter (· != [])

structure Tidy (s : JsString) : Prop where
  blanks : ∀ u ∈ s, isWhiteUnit u = true → u = gap
  single : s.IsChain fun u v => isWhiteUnit u = true → isWhiteUnit v = false
  first : ∀ u ∈ s.head?, isWhiteUnit u = false
  last : ∀ u ∈ s.getLast?, isWhiteUnit u = false

theorem isWhiteUnit_gap : isWhiteUnit gap = true := by decide

/-- An end that is no white unit, computed. -/
theorem plain_end {o : Option UInt16} (h : o.all (fun u => !isWhiteUnit u) = true) : ∀ u ∈ o, isWhiteUnit u = false := by
  rintro u rfl
  simpa using h

/-! ## Putting texts together -/

theorem Tidy.plain {s : JsString} (h : ∀ u ∈ s, isWhiteUnit u = false) : Tidy s where
  blanks u hu hwhite := absurd hwhite (Bool.eq_false_iff.mp (h u hu))
  single := by
    refine List.isChain_iff_forall_rel_of_append_cons_cons.mpr fun u v l₁ l₂ hs _ => h v ?_
    rw [hs]
    simp
  first u hu := h u (List.mem_of_mem_head? hu)
  last u hu := h u (List.mem_of_mem_getLast? hu)

theorem Tidy.append {s t : JsString} (hs : Tidy s) (ht : Tidy t) : Tidy (s ++ t) where
  blanks u hu := (List.mem_append.mp hu).elim (hs.blanks u) (ht.blanks u)
  single := by
    refine List.isChain_append.mpr ⟨hs.single, ht.single, fun u hu v hv _ => ?_⟩
    exact ht.first v hv
  first u hu := by
    cases s with
    | nil => exact ht.first u hu
    | cons x s => exact hs.first u hu
  last u hu := by
    rw [List.getLast?_append] at hu
    cases hlast : t.getLast? with
    | none =>
      rw [hlast] at hu
      exact hs.last u hu
    | some y =>
      rw [hlast] at hu
      cases hu
      exact ht.last _ hlast

/-- A blank between two texts that are not empty. -/
theorem Tidy.spaced {s t : JsString} (hs : Tidy s) (ht : Tidy t) (hsne : s ≠ []) (htne : t ≠ []) : Tidy (s ++ gap :: t) where
  blanks u hu := by
    rcases List.mem_append.mp hu with hu | hu
    · exact hs.blanks u hu
    rcases List.mem_cons.mp hu with rfl | hu
    · exact fun _ => rfl
    · exact ht.blanks u hu
  single := by
    obtain ⟨v, t, rfl⟩ := List.exists_cons_of_ne_nil htne
    refine List.isChain_append.mpr ⟨hs.single, List.isChain_cons_cons.mpr ⟨fun _ => ht.first v rfl, ht.single⟩, ?_⟩
    intro u hu _ _ hwhite
    exact absurd hwhite (Bool.eq_false_iff.mp (hs.last u hu))
  first u hu := by
    obtain ⟨x, s, rfl⟩ := List.exists_cons_of_ne_nil hsne
    exact hs.first u hu
  last u hu := by
    obtain ⟨v, t, rfl⟩ := List.exists_cons_of_ne_nil htne
    rw [List.getLast?_append, List.getLast?_cons_cons] at hu
    cases hlast : (v :: t).getLast? with
    | none => simp at hlast
    | some y =>
      rw [hlast] at hu
      cases hu
      exact ht.last _ hlast

/-! ## The words of a tidy text -/

theorem trimEnds_tidy {s : JsString} (h : Tidy s) : trimEnds s = s := by
  have hkeep : ∀ t : JsString, (∀ u ∈ t.head?, isWhiteUnit u = false) → t.dropWhile isWhiteUnit = t := by
    intro t ht
    cases t with
    | nil => rfl
    | cons u t => exact List.dropWhile_cons_of_neg (Bool.eq_false_iff.mp (ht u rfl))
  have hreverse : ∀ u ∈ s.reverse.head?, isWhiteUnit u = false := by
    rw [List.head?_reverse]
    exact h.last
  rw [trimEnds, hkeep s h.first, hkeep s.reverse hreverse, List.reverse_reverse]

/-- Behind the first piece, each is between two white units. -/
theorem tail_pieces {s : JsString} (hsingle : s.IsChain fun u v => isWhiteUnit u = true → isWhiteUnit v = false)
    (hlast : ∀ u ∈ s.getLast?, isWhiteUnit u = false) : ∀ piece ∈ (s.splitOnP isWhiteUnit).tail, piece ≠ [] := by
  induction s with
  | nil => simp
  | cons u s ih =>
    have hrest : ∀ piece ∈ (s.splitOnP isWhiteUnit).tail, piece ≠ [] := by
      refine ih hsingle.tail fun v hv => ?_
      cases s with
      | nil => cases hv
      | cons w s => exact hlast v (by rw [List.getLast?_cons_cons]; exact hv)
    rw [List.splitOnP_cons_eq_if_modifyHead]
    by_cases hu : isWhiteUnit u = true
    · rw [if_pos hu]
      cases s with
      | nil => exact absurd hu (Bool.eq_false_iff.mp (hlast u rfl))
      | cons v s =>
        have hv : ¬isWhiteUnit v = true := Bool.eq_false_iff.mp ((List.isChain_cons_cons.mp hsingle).1 hu)
        show ∀ piece ∈ (v :: s).splitOnP isWhiteUnit, piece ≠ []
        rw [List.splitOnP_cons_eq_if_modifyHead, if_neg hv] at hrest ⊢
        cases hsplit : s.splitOnP isWhiteUnit with
        | nil => exact absurd hsplit (List.splitOnP_ne_nil _ _)
        | cons first more =>
          rw [hsplit] at hrest
          exact List.forall_mem_cons.mpr ⟨List.cons_ne_nil v first, hrest⟩
    · rw [if_neg hu]
      cases hsplit : s.splitOnP isWhiteUnit with
      | nil => exact absurd hsplit (List.splitOnP_ne_nil _ _)
      | cons first more =>
        rw [hsplit] at hrest
        exact hrest

theorem pieces_tidy {s : JsString} (h : Tidy s) (hne : s ≠ []) : ∀ piece ∈ s.splitOnP isWhiteUnit, piece ≠ [] := by
  obtain ⟨u, s, rfl⟩ := List.exists_cons_of_ne_nil hne
  have htail := tail_pieces h.single h.last
  have hu : ¬isWhiteUnit u = true := Bool.eq_false_iff.mp (h.first u rfl)
  rw [List.splitOnP_cons_eq_if_modifyHead, if_neg hu] at htail ⊢
  cases hsplit : s.splitOnP isWhiteUnit with
  | nil => exact absurd hsplit (List.splitOnP_ne_nil _ _)
  | cons first more =>
    rw [hsplit] at htail
    exact List.forall_mem_cons.mpr ⟨List.cons_ne_nil u first, htail⟩

theorem splitOnP_blanks {s : JsString} (h : ∀ u ∈ s, isWhiteUnit u = true → u = gap) :
    s.splitOnP isWhiteUnit = s.splitOn gap := by
  show s.splitOnP isWhiteUnit = s.splitOnP (· == gap)
  induction s with
  | nil => rfl
  | cons u s ih =>
    obtain ⟨hu, hs⟩ := List.forall_mem_cons.mp h
    have hsame : isWhiteUnit u = (u == gap) := by
      rw [Bool.eq_iff_iff, beq_iff_eq]
      exact ⟨hu, fun heq => heq ▸ isWhiteUnit_gap⟩
    rw [List.splitOnP_cons_eq_if_modifyHead, List.splitOnP_cons_eq_if_modifyHead, ih hs, hsame]

/-- The words of a tidy text, joined by blanks, are the text. -/
theorem join_tokenize {s : JsString} (h : Tidy s) : join [gap] (tokenize s) = s := by
  by_cases hne : s = []
  · subst hne
    rfl
  · have hall : tokenize s = s.splitOn gap := by
      rw [← splitOnP_blanks h.blanks]
      refine List.filter_eq_self.mpr fun piece hpiece => ?_
      simpa using pieces_tidy h hne piece hpiece
    rw [hall, join_intercalate]
    exact List.intercalate_splitOn gap

end Js
