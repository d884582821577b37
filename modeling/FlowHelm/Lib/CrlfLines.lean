/-
  FlowHelm.Lib.CrlfLines — lines that a carriage return and a line feed end, and the end of
  data told by a dot.

  `lines` is what stands before each end of a line and behind the last. `unstuff` and
  `receive` are the reader of a transparent block: it ends at the first line that is a dot
  alone, and of any other line that starts with a dot that dot is dropped.

  - `lines_induction`: an induction along the reading of a text.
  - `lines_append`: an end of a line put anywhere ends a line.
  - `intercalate_lines`: the lines put together again.
  - `lines_ended`: ended lines are read apart again if no end of a line is within one.
  - `receive_lines`: what is read of a block none of whose lines is a dot alone.
-/
import Mathlib.Data.List.Infix

namespace Crlf

variable {α : Type} {cr lf a b : α} {s line : List α} {ls : List (List α)}

/-- No end of a line is within it. -/
def Unbroken (cr lf : α) (line : List α) : Prop := ¬[cr, lf] <:+: line

theorem unbroken_cons_cons : Unbroken cr lf (a :: b :: s) ↔ ¬(a = cr ∧ b = lf) ∧ Unbroken cr lf (b :: s) := by
  rw [Unbroken, Unbroken, List.infix_cons_iff, not_or]
  exact and_congr_left fun _ => not_congr (by simp [eq_comm])

@[simp] theorem unbroken_nil : Unbroken cr lf [] := by
  intro h
  simpa using h.length_le

@[simp] theorem unbroken_singleton : Unbroken cr lf [a] := by
  intro h
  simpa using h.length_le

theorem unbroken_of_not_mem (h : lf ∉ s) : Unbroken cr lf s := fun hin => h (hin.subset (by simp))

theorem intercalate_ended {sep : List α} (h : ls ≠ []) : sep.intercalate ls ++ sep = ls.flatMap (· ++ sep) := by
  induction ls with
  | nil => exact absurd rfl h
  | cons l ls ih =>
    by_cases hnil : ls = []
    · simp [hnil]
    · rw [List.intercalate_cons_of_ne_nil hnil, List.append_assoc, ih hnil]
      simp

theorem modifyHead_append {f : List α → List α} (h : ls ≠ []) (more : List (List α)) :
    (ls ++ more).modifyHead f = ls.modifyHead f ++ more := by
  cases ls with
  | nil => exact absurd rfl h
  | cons l ls => rfl

theorem intercalate_modifyHead {sep : List α} (h : ls ≠ []) :
    sep.intercalate (ls.modifyHead (a :: ·)) = a :: sep.intercalate ls := by
  cases ls with
  | nil => exact absurd rfl h
  | cons l ls =>
    cases ls with
    | nil => simp
    | cons m ls => simp [List.intercalate_cons_of_ne_nil]

/-! ## Lines -/

variable [DecidableEq α]

/-- What stands before each end of a line, and behind the last. -/
def lines (cr lf : α) : List α → List (List α)
  | [] => [[]]
  | [a] => [[a]]
  | a :: b :: rest => if a = cr ∧ b = lf then [] :: lines cr lf rest else (lines cr lf (b :: rest)).modifyHead (a :: ·)

@[simp] theorem lines_nil : lines cr lf ([] : List α) = [[]] := rfl

@[simp] theorem lines_singleton : lines cr lf [a] = [[a]] := rfl

@[simp] theorem lines_break : lines cr lf (cr :: lf :: s) = [] :: lines cr lf s := if_pos ⟨rfl, rfl⟩

theorem lines_cons_cons (h : ¬(a = cr ∧ b = lf)) : lines cr lf (a :: b :: s) = (lines cr lf (b :: s)).modifyHead (a :: ·) :=
  if_neg h

/-- A text is read from its front: an end of a line, or one element. -/
@[elab_as_elim] theorem lines_induction (cr lf : α) {motive : List α → Prop} (nil : motive []) (singleton : ∀ a, motive [a])
    (ended : ∀ s, motive s → motive (cr :: lf :: s))
    (cons : ∀ a b s, ¬(a = cr ∧ b = lf) → motive (b :: s) → motive (a :: b :: s)) (s : List α) : motive s := by
  fun_induction lines cr lf s with
  | case1 => exact nil
  | case2 a => exact singleton a
  | case3 a b rest hab ih =>
    obtain ⟨rfl, rfl⟩ := hab
    exact ended rest ih
  | case4 a b rest hab ih => exact cons a b rest hab ih

theorem lines_ne_nil : lines cr lf s ≠ [] := by
  induction s using lines_induction cr lf with
  | nil => simp
  | singleton a => simp
  | ended s ih => simp
  | cons a b s hab ih =>
    rw [lines_cons_cons hab]
    simpa using ih

theorem lines_append (hne : cr ≠ lf) (s t : List α) : lines cr lf (s ++ cr :: lf :: t) = lines cr lf s ++ lines cr lf t := by
  induction s using lines_induction cr lf with
  | nil => simp
  | singleton a =>
    rw [List.singleton_append, lines_cons_cons (by simp [hne]), lines_break]
    rfl
  | ended s ih => simp [ih]
  | cons a b s hab ih =>
    rw [List.cons_append, List.cons_append, lines_cons_cons hab, ← List.cons_append, ih, lines_cons_cons hab,
      modifyHead_append lines_ne_nil]

theorem lines_unbroken (h : Unbroken cr lf s) : lines cr lf s = [s] := by
  induction s using lines_induction cr lf with
  | nil => rfl
  | singleton a => rfl
  | ended s ih => exact absurd ⟨rfl, rfl⟩ (unbroken_cons_cons.mp h).1
  | cons a b s hab ih =>
    rw [lines_cons_cons hab, ih (unbroken_cons_cons.mp h).2]
    rfl

theorem intercalate_lines (s : List α) : [cr, lf].intercalate (lines cr lf s) = s := by
  induction s using lines_induction cr lf with
  | nil => simp
  | singleton a => simp
  | ended s ih =>
    rw [lines_break, List.intercalate_cons_of_ne_nil lines_ne_nil, ih]
    rfl
  | cons a b s hab ih => rw [lines_cons_cons hab, intercalate_modifyHead lines_ne_nil, ih]

/-- Ended lines in front of a text. -/
theorem lines_ended (hne : cr ≠ lf) (h : ∀ l ∈ ls, Unbroken cr lf l) (s : List α) :
    lines cr lf (ls.flatMap (· ++ [cr, lf]) ++ s) = ls ++ lines cr lf s := by
  induction ls with
  | nil => rfl
  | cons l ls ih =>
    obtain ⟨hl, hls⟩ := List.forall_mem_cons.mp h
    have hassoc : (l :: ls).flatMap (· ++ [cr, lf]) ++ s = l ++ cr :: lf :: (ls.flatMap (· ++ [cr, lf]) ++ s) := by simp
    rw [hassoc, lines_append hne, lines_unbroken hl, ih hls]
    rfl

theorem mem_lines_unbroken (s : List α) : ∀ line ∈ lines cr lf s, Unbroken cr lf line := by
  induction s using lines_induction cr lf with
  | nil => simp
  | singleton a => simp
  | ended s ih =>
    rw [lines_break]
    exact List.forall_mem_cons.mpr ⟨unbroken_nil, ih⟩
  | cons a b rest hab ih =>
    rw [lines_cons_cons hab]
    have hwhole : [cr, lf].intercalate (lines cr lf (b :: rest)) = b :: rest := intercalate_lines _
    cases hlines : lines cr lf (b :: rest) with
    | nil => exact absurd hlines lines_ne_nil
    | cons l ls =>
      rw [hlines] at hwhole ih
      obtain ⟨hl, hls⟩ := List.forall_mem_cons.mp ih
      refine List.forall_mem_cons.mpr ⟨?_, hls⟩
      cases l with
      | nil => exact unbroken_singleton
      | cons c l =>
        -- The first line of a text starts as the text does.
        obtain rfl : c = b := by
          cases ls with
          | nil => exact (List.cons.inj (by simpa using hwhole)).1
          | cons m ls => exact (List.cons.inj (by simpa [List.intercalate_cons_of_ne_nil] using hwhole)).1
        exact unbroken_cons_cons.mpr ⟨hab, hl⟩

/-! ## Complete lines -/

/-- The lines that have ended. -/
def complete (cr lf : α) (s : List α) : List (List α) := (lines cr lf s).dropLast

/-- The line that has not. -/
def unfinished (cr lf : α) (s : List α) : List α := (lines cr lf s).getLast lines_ne_nil

theorem lines_eq (s : List α) : lines cr lf s = complete cr lf s ++ [unfinished cr lf s] :=
  (List.dropLast_concat_getLast lines_ne_nil).symm

theorem complete_unbroken (s : List α) : ∀ l ∈ complete cr lf s, Unbroken cr lf l :=
  fun l hl => mem_lines_unbroken s l (List.dropLast_subset _ hl)

theorem ended_unfinished (s : List α) : (complete cr lf s).flatMap (· ++ [cr, lf]) ++ unfinished cr lf s = s := by
  have hwhole : [cr, lf].intercalate (complete cr lf s ++ [unfinished cr lf s]) = s := by rw [← lines_eq, intercalate_lines]
  have hjoin : ∀ ls : List (List α), [cr, lf].intercalate (ls ++ [unfinished cr lf s]) =
      ls.flatMap (· ++ [cr, lf]) ++ unfinished cr lf s := by
    intro ls
    induction ls with
    | nil => simp
    | cons l ls ih =>
      rw [List.cons_append, List.intercalate_cons_of_ne_nil (by simp), ih]
      simp
  rw [← hjoin, hwhole]

theorem getLast_lines_append (ls : List (List α)) (s : List α) (h : ls ++ lines cr lf s ≠ []) :
    (ls ++ lines cr lf s).getLast h = unfinished cr lf s := List.getLast_append_of_ne_nil _ lines_ne_nil

theorem complete_ended (hne : cr ≠ lf) (h : ∀ l ∈ ls, Unbroken cr lf l) (s : List α) :
    complete cr lf (ls.flatMap (· ++ [cr, lf]) ++ s) = ls ++ complete cr lf s := by
  rw [complete, lines_ended hne h, List.dropLast_append_of_ne_nil lines_ne_nil]
  rfl

theorem unfinished_ended (hne : cr ≠ lf) (h : ∀ l ∈ ls, Unbroken cr lf l) (s : List α) :
    unfinished cr lf (ls.flatMap (· ++ [cr, lf]) ++ s) = unfinished cr lf s := by
  rw [unfinished]
  simp only [lines_ended hne h s]
  exact getLast_lines_append ls s _

theorem append_eq_ended (cr lf : α) (s t : List α) :
    s ++ t = (complete cr lf s).flatMap (· ++ [cr, lf]) ++ (unfinished cr lf s ++ t) := by
  rw [← List.append_assoc, ended_unfinished]

/-- More of a text ends more lines. -/
theorem complete_append (hne : cr ≠ lf) (s t : List α) :
    complete cr lf (s ++ t) = complete cr lf s ++ complete cr lf (unfinished cr lf s ++ t) := by
  rw [append_eq_ended cr lf s t, complete_ended hne (complete_unbroken s)]

theorem unfinished_append (hne : cr ≠ lf) (s t : List α) :
    unfinished cr lf (s ++ t) = unfinished cr lf (unfinished cr lf s ++ t) := by
  rw [append_eq_ended cr lf s t, unfinished_ended hne (complete_unbroken s)]

/-! ## Transparency -/

variable {dot : α}

/-- A line as it was before dots were added. -/
def unstuff (dot : α) : List α → List α
  | a :: rest => if a = dot then rest else a :: rest
  | [] => []

/-- The data up to the line that is a dot alone, if there is one. -/
def receive (cr lf dot : α) (s : List α) : Option (List α) :=
  let ls := (lines cr lf s).dropLast
  if [dot] ∈ ls then some ((ls.takeWhile (· ≠ [dot])).flatMap fun line => unstuff dot line ++ [cr, lf]) else none

theorem receive_lines (h : ∀ l ∈ ls, l ≠ [dot]) (hs : lines cr lf s = ls ++ [[dot], line]) :
    receive cr lf dot s = some (ls.flatMap fun l => unstuff dot l ++ [cr, lf]) := by
  have hlast : (lines cr lf s).dropLast = ls ++ [[dot]] := by
    rw [hs]
    simp
  unfold receive
  simp only [hlast]
  rw [if_pos (by simp), List.takeWhile_append_of_pos (by simpa using h)]
  simp

end Crlf
