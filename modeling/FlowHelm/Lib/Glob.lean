/-
  FlowHelm.Lib.Glob — patterns with one wildcard: a star covers any run of covered elements,
  every other element stands for itself.

  - `globTest_rest`: what a pattern says of a text's tail, some tail of the pattern says.
  - `globTest_append`: a pattern behind a text takes what it took, behind that text.
  - `globTest_uncovered`: a text that is taken has as many uncovered elements as the pattern.
-/
import Mathlib.Data.List.Infix

namespace Glob

variable {α : Type*} {covered : α → Bool}

/-- `next` on the text behind some run of covered elements. -/
def afterRun (covered : α → Bool) (next : List α → Bool) : List α → Bool
  | [] => next []
  | u :: s => next (u :: s) || (covered u && afterRun covered next s)

theorem afterRun_iff {next : List α → Bool} {s : List α} : afterRun covered next s = true ↔
    ∃ run rest, s = run ++ rest ∧ (∀ u ∈ run, covered u = true) ∧ next rest = true := by
  induction s with
  | nil => simp [afterRun]
  | cons u s ih =>
    simp only [afterRun, Bool.or_eq_true, Bool.and_eq_true]
    constructor
    · intro h
      rcases h with h | ⟨hu, h⟩
      · exact ⟨[], u :: s, rfl, by simp, h⟩
      · obtain ⟨run, rest, hs, hrun, hrest⟩ := ih.mp h
        exact ⟨u :: run, rest, by simp [hs], by simpa [hu] using hrun, hrest⟩
    · intro h
      obtain ⟨run, rest, hs, hrun, hrest⟩ := h
      cases run with
      | nil =>
        rw [List.nil_append] at hs
        exact .inl (hs ▸ hrest)
      | cons v run =>
        obtain ⟨rfl, rfl⟩ := List.cons.inj hs
        exact .inr ⟨hrun u (by simp), ih.mpr ⟨run, rest, rfl, fun v hv => hrun v (by simp [hv]), hrest⟩⟩

variable [DecidableEq α]

/-- The pattern takes the whole text. -/
def globTest (covered : α → Bool) (star : α) : List α → List α → Bool
  | [] => List.isEmpty
  | c :: p =>
    if c = star then afterRun covered (globTest covered star p)
    else fun
      | [] => false
      | u :: s => u == c && globTest covered star p s

variable {star : α} {p q s t : List α}

@[simp] theorem globTest_nil : globTest covered star [] s = s.isEmpty := rfl

@[simp] theorem globTest_star : globTest covered star (star :: p) s = afterRun covered (globTest covered star p) s := by
  simp [globTest]

theorem globTest_literal {c : α} (h : c ≠ star) :
    globTest covered star (c :: p) s = true ↔ ∃ rest, s = c :: rest ∧ globTest covered star p rest = true := by
  simp only [globTest, if_neg h]
  cases s with
  | nil => simp
  | cons u s => simp

/-- The tail of the pattern begins with the star whose run goes over the cut. -/
theorem globTest_rest (h : globTest covered star p (s ++ t) = true) : ∃ q, q <:+ p ∧ globTest covered star q t = true := by
  induction p generalizing s with
  | nil =>
    have ht : t = [] := by simp_all
    exact ⟨[], List.suffix_rfl, by simp [ht]⟩
  | cons c p ih =>
    by_cases hc : c = star
    · subst hc
      rw [globTest_star, afterRun_iff] at h
      obtain ⟨run, rest, hst, hrun, hrest⟩ := h
      rcases List.append_eq_append_iff.mp hst with ⟨more, hmore, ht⟩ | ⟨more, hmore, ht⟩
      · refine ⟨c :: p, List.suffix_rfl, ?_⟩
        rw [globTest_star, afterRun_iff]
        exact ⟨more, rest, ht, fun u hu => hrun u (by simp [hmore, hu]), hrest⟩
      · obtain ⟨q, hq, htest⟩ := ih (ht ▸ hrest)
        exact ⟨q, hq.trans (List.suffix_cons c p), htest⟩
    · cases s with
      | nil => exact ⟨c :: p, List.suffix_rfl, h⟩
      | cons u s =>
        obtain ⟨rest, hst, hrest⟩ := (globTest_literal hc).mp h
        obtain ⟨-, rfl⟩ := List.cons.inj hst
        obtain ⟨q, hq, htest⟩ := ih hrest
        exact ⟨q, hq.trans (List.suffix_cons c p), htest⟩

/-- A star takes itself. -/
theorem globTest_append (hstar : covered star = true) (h : globTest covered star q t = true) (s : List α) :
    globTest covered star (s ++ q) (s ++ t) = true := by
  induction s with
  | nil => exact h
  | cons c s ih =>
    rw [List.cons_append, List.cons_append]
    by_cases hc : c = star
    · subst hc
      rw [globTest_star, afterRun_iff]
      exact ⟨[c], s ++ t, rfl, by simpa using hstar, ih⟩
    · exact (globTest_literal hc).mpr ⟨s ++ t, rfl, ih⟩

theorem globTest_uncovered (hstar : covered star = true) (h : globTest covered star p s = true) :
    s.countP (!covered ·) = p.countP (!covered ·) := by
  induction p generalizing s with
  | nil => simp_all
  | cons c p ih =>
    by_cases hc : c = star
    · subst hc
      rw [globTest_star, afterRun_iff] at h
      obtain ⟨run, rest, rfl, hrun, hrest⟩ := h
      have hnone : run.countP (!covered ·) = 0 := by
        apply List.countP_eq_zero.mpr
        intro u hu
        simp [hrun u hu]
      simp [List.countP_append, hnone, ih hrest, hstar]
    · obtain ⟨rest, rfl, hrest⟩ := (globTest_literal hc).mp h
      simp [List.countP_cons, ih hrest]

end Glob
