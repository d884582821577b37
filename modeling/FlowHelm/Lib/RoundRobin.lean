/-
  FlowHelm.Lib.RoundRobin — a list given out by turns: turn `n` gives the entry at `n` modulo the
  length, and begins again at the front after the last.

  A log is balanced for a list when of no two of its entries one is logged more than one time
  more than the other. A list can repeat an entry; it then comes up once for each place.

  - `count_turns`: how often an entry has come up.
  - `balanced_turns`: the turns of an evenly listed list are balanced, after any number.
  - `evenlyListed_of_turns`: and of no other; that shows within two rounds.
  - `evenlyListed_of_nodup`: a list without repetitions is evenly listed.
-/
import Mathlib.Data.List.Count
import Mathlib.Data.List.Nodup

namespace RoundRobin

variable {α : Type}

/-! ## Turns -/

/-- What turn `n` gives; nothing of an empty list. -/
def turn (xs : List α) (n : Nat) : Option α := xs[n % xs.length]?

/-- What the first `n` turns give. -/
def turns (xs : List α) (n : Nat) : List α := (List.range n).filterMap (turn xs)

@[simp] theorem turns_zero (xs : List α) : turns xs 0 = [] := rfl

theorem turns_succ (xs : List α) (n : Nat) : turns xs (n + 1) = turns xs n ++ (turn xs n).toList := by
  unfold turns
  rw [List.range_succ, List.filterMap_append]
  cases h : turn xs n with
  | none => simp [h]
  | some x => simp [h]

/-- From the beginning of a round. -/
theorem turns_add (xs : List α) (q : Nat) {r : Nat} (hr : r ≤ xs.length) :
    turns xs (q * xs.length + r) = turns xs (q * xs.length) ++ xs.take r := by
  induction r with
  | zero => simp
  | succ r ih =>
    have hplace : (q * xs.length + r) % xs.length = r := by
      rw [Nat.mul_add_mod_self_right, Nat.mod_eq_of_lt hr]
    rw [← Nat.add_assoc, turns_succ, ih (Nat.le_of_lt hr), turn, hplace, List.append_assoc, List.take_add_one]

theorem turns_rounds (xs : List α) (q : Nat) : turns xs (q * xs.length) = (List.replicate q xs).flatten := by
  induction q with
  | zero => simp
  | succ q ih =>
    rw [Nat.succ_mul, turns_add xs q (Nat.le_refl _), ih, List.take_length, List.replicate_succ', List.flatten_append,
      List.flatten_singleton]

theorem turn_range {n : Nat} (hn : 0 < n) (m : Nat) : turn (List.range n) m = some (m % n) := by
  rw [turn, List.length_range, List.getElem?_range (Nat.mod_lt m hn)]

/-! ## Balance -/

theorem eq_of_length_le_one {xs : List α} (h : xs.length ≤ 1) {a b : α} (ha : a ∈ xs) (hb : b ∈ xs) : a = b := by
  match xs with
  | [] => cases ha
  | [x] => exact (List.mem_singleton.mp ha).trans (List.mem_singleton.mp hb).symm

variable [DecidableEq α]

/-- Of no two entries of `xs` one is in the log more than one time more than the other. -/
def Balanced (xs log : List α) : Prop := ∀ a ∈ xs, ∀ b ∈ xs, log.count a ≤ log.count b + 1

instance (xs log : List α) : Decidable (Balanced xs log) := inferInstanceAs (Decidable (∀ _ ∈ _, ∀ _ ∈ _, _))

theorem balanced_of_eq {xs log : List α} (h : ∀ a ∈ xs, ∀ b ∈ xs, a = b) : Balanced xs log := by
  intro a ha b hb
  rw [h a ha b hb]
  exact Nat.le_succ _

theorem balanced_of_length_le_one {xs log : List α} (h : xs.length ≤ 1) : Balanced xs log :=
  balanced_of_eq fun _ ha _ hb => eq_of_length_le_one h ha hb

structure EvenlyListed (xs : List α) : Prop where
  /-- Each entry is listed equally often. -/
  whole : ∀ a ∈ xs, ∀ b ∈ xs, xs.count a = xs.count b
  parts : ∀ n, Balanced xs (xs.take n)

theorem count_turns (xs : List α) (q : Nat) {r : Nat} (hr : r ≤ xs.length) (a : α) :
    (turns xs (q * xs.length + r)).count a = q * xs.count a + (xs.take r).count a := by
  rw [turns_add xs q hr, turns_rounds, List.count_append, List.count_flatten, List.map_replicate, List.sum_replicate_nat]

theorem balanced_turns {xs : List α} (h : EvenlyListed xs) (n : Nat) : Balanced xs (turns xs n) := by
  intro a ha b hb
  have hpos : 0 < xs.length := List.length_pos_of_mem ha
  have hpart := h.parts (n % xs.length) a ha b hb
  have hn : n / xs.length * xs.length + n % xs.length = n := Nat.div_add_mod' n xs.length
  rw [← hn, count_turns xs _ (Nat.le_of_lt (Nat.mod_lt n hpos)), count_turns xs _ (Nat.le_of_lt (Nat.mod_lt n hpos)),
    h.whole a ha b hb]
  omega

/-- An uneven list shows within two rounds. -/
theorem evenlyListed_of_turns {xs : List α} (h : ∀ n ≤ 2 * xs.length, Balanced xs (turns xs n)) : EvenlyListed xs where
  whole := by
    have hle : ∀ a ∈ xs, ∀ b ∈ xs, xs.count a ≤ xs.count b := by
      intro a ha b hb
      have htwo := h (2 * xs.length) (Nat.le_refl _) a ha b hb
      have hcount := fun c => count_turns xs 2 (Nat.zero_le _) c
      simp only [Nat.add_zero, List.take_zero, List.count_nil] at hcount
      rw [hcount, hcount] at htwo
      omega
    exact fun a ha b hb => Nat.le_antisymm (hle a ha b hb) (hle b hb a ha)
  parts n := by
    have hfirst := h (min n xs.length) (by omega)
    have hturns := turns_add xs 0 (Nat.min_le_right n xs.length)
    rw [Nat.zero_mul, Nat.zero_add, turns_zero, List.nil_append] at hturns
    rwa [hturns, ← List.take_take, List.take_length] at hfirst

/-- A list that repeats nothing. -/
theorem evenlyListed_of_nodup {xs : List α} (h : xs.Nodup) : EvenlyListed xs where
  whole a ha b hb := by rw [List.count_eq_one_of_mem h ha, List.count_eq_one_of_mem h hb]
  parts n a _ b _ := by
    have hle : (xs.take n).count a ≤ 1 := List.nodup_iff_count_le_one.mp (h.sublist (List.take_sublist n xs)) a
    omega

end RoundRobin
