/-
  FlowHelm.Lib.RingBuffer — an array that is written round and round: what it holds is the last of
  what was written.

  `window` is what it holds, the oldest first; `values` the same as it lies in the array.

  - `window_push`: one more is written, and the oldest goes once the array is full.
  - `values_perm`: the array holds the window.
-/
import Mathlib.Data.List.DropRight
import Mathlib.Data.List.Perm.Basic

structure RingBuffer (α : Type) where
  cells : List α
  index : Nat
  count : Nat
  within : count ≤ cells.length
  /-- Until it is full, the next cell is the first that is free. -/
  filling : count < cells.length → index = count

namespace RingBuffer

variable {α : Type}

def new (filler : α) (capacity : Nat) : RingBuffer α where
  cells := List.replicate capacity filler
  index := 0
  count := 0
  within := Nat.zero_le _
  filling _ := rfl

def capacity (r : RingBuffer α) : Nat := r.cells.length

def push (v : α) (r : RingBuffer α) : RingBuffer α where
  cells := r.cells.set (r.index % r.cells.length) v
  index := r.index + 1
  count := if r.count < r.cells.length then r.count + 1 else r.count
  within := by
    rw [List.length_set]
    have := r.within
    split <;> omega
  filling := by
    rw [List.length_set]
    intro h
    split at h
    · rename_i hroom
      rw [if_pos hroom, r.filling hroom]
    · omega

def values (r : RingBuffer α) : List α := r.cells.take r.count

/-- From the cell that is written next. -/
def window (r : RingBuffer α) : List α :=
  if r.count < r.cells.length then r.cells.take r.count
  else r.cells.drop (r.index % r.cells.length) ++ r.cells.take (r.index % r.cells.length)

@[simp] theorem capacity_new (filler : α) (capacity : Nat) : (new filler capacity).capacity = capacity := List.length_replicate

@[simp] theorem capacity_push (v : α) (r : RingBuffer α) : (r.push v).capacity = r.capacity := List.length_set

@[simp] theorem window_new (filler : α) (capacity : Nat) : (new filler capacity).window = [] := by
  cases capacity with
  | zero => rfl
  | succ capacity => simp [new, window]

theorem values_perm (r : RingBuffer α) : r.values.Perm r.window := by
  unfold values window
  split
  · exact .refl _
  · rename_i hfull
    have hcount : r.count = r.cells.length := by
      have := r.within
      omega
    rw [hcount, List.take_length]
    have hparts := List.take_append_drop (r.index % r.cells.length) r.cells
    have hturn := @List.perm_append_comm _ (r.cells.take (r.index % r.cells.length)) (r.cells.drop (r.index % r.cells.length))
    rwa [hparts] at hturn

theorem length_window (r : RingBuffer α) : r.window.length = r.count := by
  rw [← r.values_perm.length_eq, values, List.length_take]
  exact Nat.min_eq_left r.within

theorem take_set_self {cells : List α} {i : Nat} (hi : i < cells.length) (v : α) :
    (cells.set i v).take (i + 1) = cells.take i ++ [v] := by
  rw [List.take_succ_eq_append_getElem (by rwa [List.length_set]), List.take_set_of_le (Nat.le_refl i), List.getElem_set_self]

/-- One more is written: the oldest goes once the array is full. -/
theorem window_push (v : α) (r : RingBuffer α) : (r.push v).window = (r.window ++ [v]).rtake r.capacity := by
  have hlength := r.length_window
  have hwithin := r.within
  unfold List.rtake capacity
  rw [List.length_append, hlength, List.length_singleton]
  by_cases hroom : r.count < r.cells.length
  · -- the cell is free
    have hindex : r.index % r.cells.length = r.count := by rw [r.filling hroom, Nat.mod_eq_of_lt hroom]
    have hdrop : r.count + 1 - r.cells.length = 0 := by omega
    rw [hdrop, List.drop_zero]
    unfold window push
    simp only [List.length_set, if_pos hroom, hindex]
    split
    · exact take_set_self hroom v
    · rename_i hfull
      have hlast : r.count + 1 = r.cells.length := by omega
      rw [r.filling hroom, hlast, Nat.mod_self, List.drop_zero, List.take_zero, List.append_nil, ← take_set_self hroom v, hlast]
      exact (List.take_of_length_le (by rw [List.length_set])).symm
  · have hcount : r.count = r.cells.length := by omega
    have hdrop : r.count + 1 - r.cells.length = 1 := by omega
    rw [hdrop]
    unfold window push
    simp only [List.length_set, if_neg hroom]
    rcases Nat.eq_zero_or_pos r.cells.length with hnil | hpos
    · simp [List.length_eq_zero_iff.mp hnil]
    · have hlt : r.index % r.cells.length < r.cells.length := Nat.mod_lt _ hpos
      generalize hi : r.index % r.cells.length = i at hlt
      -- the cell written last is left behind, and the next one comes first
      have hold : r.cells.drop i = r.cells[i] :: r.cells.drop (i + 1) := List.drop_eq_getElem_cons hlt
      rw [hold, List.cons_append, List.cons_append, List.drop_succ_cons, List.drop_zero, List.append_assoc, ← take_set_self hlt v]
      by_cases hnext : i + 1 < r.cells.length
      · have hmod : (r.index + 1) % r.cells.length = i + 1 := by
          rw [Nat.add_mod, hi, Nat.mod_eq_of_lt (show 1 < r.cells.length by omega), Nat.mod_eq_of_lt hnext]
        rw [hmod, List.drop_set_of_lt (Nat.lt_succ_self i)]
      · have hlast : i + 1 = r.cells.length := by omega
        have hmod : (r.index + 1) % r.cells.length = 0 := by
          rw [← Nat.mod_add_mod, hi, hlast, Nat.mod_self]
        rw [hmod, List.drop_zero, List.take_zero, List.append_nil, hlast, List.drop_length, List.nil_append]
        exact (List.take_of_length_le (by rw [List.length_set])).symm

end RingBuffer
