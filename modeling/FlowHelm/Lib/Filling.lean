/-
  FlowHelm.Lib.Filling — tables filled by loops: which cells a loop marks, and values written at
  one cell after another and read again.

  - `foldl_marks`: a loop marks what one of its turns marks.
  - `foldl_write`: where no cell comes twice, the values are read back in order.
  - `map_getD_range`: a list with its default read at the end.
-/
import Mathlib.Data.List.Nodup
import Mathlib.Logic.Function.Basic

namespace Filling

variable {σ ι α β : Type}

/-- Each turn keeps `I` and marks what it marks of `P`. -/
theorem foldl_marks {f : σ → ι → σ} {I P : σ → Prop} {marks : ι → Prop} (hI : ∀ s i, I s → I (f s i))
    (hP : ∀ s i, I s → (P (f s i) ↔ P s ∨ marks i)) (xs : List ι) {s : σ} (h : I s) :
    I (xs.foldl f s) ∧ (P (xs.foldl f s) ↔ P s ∨ ∃ i ∈ xs, marks i) := by
  induction xs generalizing s with
  | nil => exact ⟨h, by simp⟩
  | cons x xs ih =>
    obtain ⟨hkeep, hmarks⟩ := ih (hI s x h)
    refine ⟨hkeep, ?_⟩
    rw [List.foldl_cons, hmarks, hP s x h, List.exists_mem_cons_iff, or_assoc]

/-- Every turn marks what it marks of `P`. -/
theorem foldl_iff {f : σ → ι → σ} {P : σ → Prop} {marks : ι → Prop} (hP : ∀ s i, P (f s i) ↔ P s ∨ marks i)
    (xs : List ι) (s : σ) :
    P (xs.foldl f s) ↔ P s ∨ ∃ i ∈ xs, marks i :=
  (foldl_marks (I := fun _ => True) (fun _ _ _ => trivial) (fun s i _ => hP s i) xs trivial).2

/-- A loop in a loop. -/
theorem foldl_iff₂ {κ : Type} {f : σ → ι → κ → σ} {P : σ → Prop} {marks : ι → κ → Prop}
    (hP : ∀ s i j, P (f s i j) ↔ P s ∨ marks i j)
    (xs : List ι) (ys : List κ) (s : σ) :
    P (xs.foldl (fun s i => ys.foldl (fun s j => f s i j) s) s) ↔ P s ∨ ∃ i ∈ xs, ∃ j ∈ ys, marks i j :=
  foldl_iff (fun s i => foldl_iff (fun s j => hP s i j) ys s) xs s

variable [DecidableEq α]

/-- The next value, at this cell. -/
def write (v : Nat → β) (s : (α → β) × Nat) (p : α) : (α → β) × Nat := (Function.update s.1 p (v s.2), s.2 + 1)

theorem foldl_write_other (v : Nat → β) (ps : List α) (s : (α → β) × Nat) {q : α} (h : q ∉ ps) :
    (ps.foldl (write v) s).1 q = s.1 q := by
  induction ps generalizing s with
  | nil => rfl
  | cons p ps ih =>
    rw [List.mem_cons, not_or] at h
    rw [List.foldl_cons, ih (write v s p) h.2]
    exact Function.update_of_ne h.1 ..

theorem foldl_write (v : Nat → β) {ps : List α} (h : ps.Nodup) (s : (α → β) × Nat) :
    ps.map (ps.foldl (write v) s).1 = (List.range' s.2 ps.length).map v := by
  induction ps generalizing s with
  | nil => rfl
  | cons p ps ih =>
    obtain ⟨hp, hps⟩ := List.nodup_cons.mp h
    have hhead : (ps.foldl (write v) (write v s p)).1 p = v s.2 := by
      rw [foldl_write_other v ps _ hp]
      exact Function.update_self ..
    rw [List.foldl_cons, List.map_cons, hhead, ih hps, List.length_cons, List.range'_succ, List.map_cons]
    rfl

/-- A list read past its end. -/
theorem map_getD_range (xs : List β) (more : Nat) (d : β) :
    ((List.range (xs.length + more)).map fun k => xs.getD k d) = xs ++ List.replicate more d := by
  refine List.ext_getElem (by simp) fun k hk hk' => ?_
  rw [List.getElem_map, List.getElem_range, List.getD_eq_getElem?_getD]
  by_cases hin : k < xs.length
  · rw [List.getElem_append_left hin, List.getElem?_eq_getElem hin, Option.getD_some]
  · rw [List.getElem_append_right (by omega), List.getElem_replicate, List.getElem?_eq_none (by omega), Option.getD_none]

end Filling
