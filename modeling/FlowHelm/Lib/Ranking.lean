/-
  FlowHelm.Lib.Ranking — the first entries of a stable sort, said of the list that is sorted: an
  entry is one of the first `n` just where fewer than `n` entries outrank it.

  An entry stands with its place in the list, so that of entries which compare as equal the
  earlier one outranks the later.

  - `countP_before` / `pairwise_take`: the first entries of a list in a strict order.
  - `sorted_outranks`: a stable sort is such a list.
  - `pairwise_best`: what holds between the first entries of a stable sort.

  And the percentile of the nearest rank: the least of the values that at least so many per cent of
  them are not above.

  - `nearestRank_sorted`: it stands at the rank in the sorted list.
-/
import Mathlib.Data.List.Perm.Basic
import Mathlib.Order.Lattice

namespace Ranking

variable {α : Type}

/-! ## Lists in a strict order -/

section
variable {O R : α → α → Prop} [DecidableRel O]

/-- Those that come before an entry are the ones that stand before it. -/
theorem countP_before (hasymm : ∀ a b, O a b → ¬O b a) {pre post : List α} {q : α} (h : (pre ++ q :: post).Pairwise O) :
    (pre ++ q :: post).countP (fun p => decide (O p q)) = pre.length := by
  have hcross := (List.pairwise_append.mp h).2.2
  have hpost := (List.pairwise_cons.mp (List.pairwise_append.mp h).2.1).1
  have hbefore : pre.countP (fun p => decide (O p q)) = pre.length :=
    List.countP_eq_length.mpr fun p hp => decide_eq_true (hcross p hp q (List.mem_cons_self ..))
  have hself : ¬O q q := fun hq => hasymm q q hq hq
  have hafter : post.countP (fun p => decide (O p q)) = 0 :=
    List.countP_eq_zero.mpr fun p hp hd => hasymm q p (hpost p hp) (of_decide_eq_true hd)
  rw [List.countP_append, List.countP_cons, hbefore, hafter, if_neg (by simpa using hself), Nat.add_zero]

/-- What holds between the first `n` entries, by how many come before one. -/
theorem pairwise_take (hasymm : ∀ a b, O a b → ¬O b a) {l : List α} (h : l.Pairwise O) (n : Nat) :
    (l.take n).Pairwise R ↔ ∀ p ∈ l, ∀ q ∈ l, O p q → l.countP (fun p => decide (O p q)) < n → R p q := by
  constructor
  · intro htake p hp q hq hpq hn
    obtain ⟨pre, post, rfl⟩ := List.append_of_mem hq
    rw [countP_before hasymm h] at hn
    have hfirst : (pre ++ q :: post).take n = pre ++ q :: post.take (n - pre.length - 1) := by
      rw [List.take_append, List.take_of_length_le (Nat.le_of_lt hn)]
      obtain ⟨k, hk⟩ : ∃ k, n - pre.length = k + 1 := ⟨n - pre.length - 1, by omega⟩
      rw [hk, List.take_succ_cons, Nat.add_sub_cancel]
    rw [hfirst] at htake
    have hpre : p ∈ pre := by
      rcases List.mem_append.mp hp with hp | hp
      · exact hp
      rcases List.mem_cons.mp hp with rfl | hp
      · exact absurd hpq (hasymm p p hpq)
      · exact absurd hpq (hasymm q p ((List.pairwise_cons.mp (List.pairwise_append.mp h).2.1).1 p hp))
    exact (List.pairwise_append.mp htake).2.2 p hpre q (List.mem_cons_self ..)
  · intro hall
    rw [List.pairwise_iff_forall_sublist]
    intro p q hpq
    have hsub := hpq.trans (List.take_sublist n l)
    have hp : p ∈ l := hsub.subset (List.mem_cons_self ..)
    have hq : q ∈ l := hsub.subset (List.mem_cons_of_mem _ (List.mem_cons_self ..))
    refine hall p hp q hq (List.pairwise_iff_forall_sublist.mp h hsub) ?_
    have hmem : q ∈ l.take n := hpq.subset (List.mem_cons_of_mem _ (List.mem_cons_self ..))
    obtain ⟨pre, post, hsplit⟩ := List.append_of_mem hmem
    have hl : l = pre ++ q :: (post ++ l.drop n) := by
      rw [← List.cons_append, ← List.append_assoc, ← hsplit, List.take_append_drop]
    have hlen : pre.length < n := by
      have hle := List.length_take_le n l
      rw [hsplit, List.length_append, List.length_cons] at hle
      omega
    have hcount := countP_before hasymm (hl ▸ h)
    rw [← hl] at hcount
    rw [hcount]
    exact hlen

end

/-! ## Stable sorts -/

/-- `p` comes before `q` in a stable sort: it compares as no worse and, where neither is better,
    it was earlier. -/
def Outranks (le : α → α → Bool) (p q : α × Nat) : Prop := le p.1 q.1 = true ∧ (le q.1 p.1 = true → p.2 < q.2)

instance decidableOutranks (le : α → α → Bool) : DecidableRel (Outranks le) :=
  fun p q => inferInstanceAs (Decidable (le p.1 q.1 = true ∧ (le q.1 p.1 = true → p.2 < q.2)))

/-- How many entries of `l` outrank `q`. -/
def rank (le : α → α → Bool) (l : List α) (q : α × Nat) : Nat := l.zipIdx.countP fun p => decide (Outranks le p q)

theorem outranks_asymm (le : α → α → Bool) (p q : α × Nat) (hpq : Outranks le p q) : ¬Outranks le q p :=
  fun hqp => Nat.lt_asymm (hpq.2 hqp.1) (hqp.2 hpq.1)

section
variable {le : α → α → Bool} (htrans : ∀ a b c, le a b → le b c → le a c) (htotal : ∀ a b, le a b || le b a)
include htrans htotal

theorem sorted_outranks (l : List α) : (l.zipIdx.mergeSort (List.zipIdxLE le)).Pairwise (Outranks le) := by
  have hsorted := List.pairwise_mergeSort (List.zipIdxLE_trans htrans) (List.zipIdxLE_total htotal) l.zipIdx
  have hplaces : (l.zipIdx.mergeSort (List.zipIdxLE le)).Pairwise fun p q => p.2 ≠ q.2 := by
    have hperm := (List.mergeSort_perm l.zipIdx (List.zipIdxLE le)).map Prod.snd
    rw [List.zipIdx_map_snd] at hperm
    exact List.pairwise_map.mp (hperm.nodup_iff.mpr (List.nodup_range' 1))
  refine hsorted.imp₂ (fun p q hle hne => ?_) hplaces
  simp only [List.zipIdxLE] at hle
  split at hle
  · rename_i hpq
    refine ⟨hpq, fun hqp => ?_⟩
    rw [if_pos hqp] at hle
    exact Nat.lt_of_le_of_ne (of_decide_eq_true hle) hne
  · cases hle

/-- What holds between the first `n` entries of a stable sort. -/
theorem pairwise_best {R : α → α → Prop} (l : List α) (n : Nat) :
    ((l.mergeSort le).take n).Pairwise R ↔
      ∀ p ∈ l.zipIdx, ∀ q ∈ l.zipIdx, Outranks le p q → rank le l q < n → R p.1 q.1 := by
  have hperm := List.mergeSort_perm l.zipIdx (List.zipIdxLE le)
  rw [← List.mergeSort_zipIdx, ← List.map_take, List.pairwise_map,
    pairwise_take (outranks_asymm le) (sorted_outranks htrans htotal l)]
  simp only [hperm.mem_iff, hperm.countP_eq, rank]

end

end Ranking

namespace Percentile

variable {α : Type} [LinearOrder α]

/-- At least `p` per cent of the values are at most `v`, fewer are less. -/
structure NearestRank (p : Nat) (v : α) (xs : List α) : Prop where
  mem : v ∈ xs
  atMost : p * xs.length ≤ 100 * xs.countP (· ≤ v)
  less : 100 * xs.countP (· < v) < p * xs.length

theorem NearestRank.perm {p : Nat} {v : α} {xs ys : List α} (h : NearestRank p v xs) (hperm : xs.Perm ys) :
    NearestRank p v ys where
  mem := hperm.mem_iff.mp h.mem
  atMost := by
    rw [← hperm.length_eq, ← hperm.countP_eq]
    exact h.atMost
  less := by
    rw [← hperm.length_eq, ← hperm.countP_eq]
    exact h.less

/-- The rank among `n` values, from 1 on. -/
def rank (p n : Nat) : Nat := (p * n + 99) / 100

theorem countP_le_of_sorted {xs : List α} (hsorted : xs.Pairwise (· ≤ ·)) {i : Nat} {v : α} (hv : xs[i]? = some v) :
    i < xs.countP (· ≤ v) := by
  induction xs generalizing i with
  | nil => cases hv
  | cons x xs ih =>
    obtain ⟨hle, hsorted⟩ := List.pairwise_cons.mp hsorted
    cases i with
    | zero =>
      obtain rfl := Option.some.inj hv
      rw [List.countP_cons_of_pos (by simp)]
      exact Nat.succ_pos _
    | succ i =>
      have hx : x ≤ v := hle v (List.mem_of_getElem? hv)
      rw [List.countP_cons_of_pos (by simpa using hx)]
      exact Nat.succ_lt_succ (ih hsorted hv)

theorem countP_lt_of_sorted {xs : List α} (hsorted : xs.Pairwise (· ≤ ·)) {i : Nat} {v : α} (hv : xs[i]? = some v) :
    xs.countP (· < v) ≤ i := by
  induction xs generalizing i with
  | nil => exact Nat.zero_le i
  | cons x xs ih =>
    obtain ⟨hle, hsorted⟩ := List.pairwise_cons.mp hsorted
    cases i with
    | zero =>
      obtain rfl := Option.some.inj hv
      refine Nat.le_of_eq (List.countP_eq_zero.mpr fun y hy => ?_)
      rcases List.mem_cons.mp hy with rfl | hy
      · simp
      · simpa using hle y hy
    | succ i =>
      calc (x :: xs).countP (· < v) ≤ xs.countP (· < v) + 1 := by
            rw [List.countP_cons]
            split <;> omega
        _ ≤ i + 1 := Nat.succ_le_succ (ih hsorted hv)

/-- In the sorted list it stands at the rank. -/
theorem nearestRank_sorted {p : Nat} {xs : List α} {v : α} (hp : 0 < p) (hsorted : xs.Pairwise (· ≤ ·))
    (hv : xs[rank p xs.length - 1]? = some v) : NearestRank p v xs := by
  have hatMost := countP_le_of_sorted hsorted hv
  have hless := countP_lt_of_sorted hsorted hv
  have hpos : 0 < p * xs.length := by
    refine Nat.mul_pos hp (List.length_pos_of_mem (List.mem_of_getElem? hv))
  unfold rank at hatMost hless
  exact ⟨List.mem_of_getElem? hv, by omega, by omega⟩

end Percentile
