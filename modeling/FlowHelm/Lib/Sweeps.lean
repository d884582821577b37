/-
  FlowHelm.Lib.Sweeps — repeated sweeps over a graph in layers.

  Every vertex has a rank and a value. One sweep goes up the ranks and lets each vertex
  that is due take a step, where whether it is due depends on vertices of lower rank alone,
  and so on the values this sweep has given them. Where a step cannot be taken more than
  `K` times, a rank is settled `K` sweeps after the ranks below it, however many vertices
  there are.

  - `Sweep.settles`: the ranks up to `d` do not change after `K * d` sweeps.
  - `Sweep.fixed`: after `K * height` sweeps nothing does.
-/
import Mathlib.Logic.Function.Iterate
import Mathlib.Order.Basic

namespace Sweeps

structure Sweep (V X : Type*) where
  rank : V → ℕ
  height : ℕ
  due : (V → X) → V → Prop
  next : X → X
  run : (V → X) → V → X
  due_lower : ∀ {σ τ : V → X} {v : V}, (∀ u, rank u < rank v → σ u = τ u) → due σ v → due τ v
  due_within : ∀ {σ : V → X} {v : V}, due σ v → 0 < rank v ∧ rank v ≤ height
  run_due : ∀ {σ : V → X} {v : V}, due (run σ) v → run σ v = next (σ v)
  run_idle : ∀ {σ : V → X} {v : V}, ¬due (run σ) v → run σ v = σ v

namespace Sweep

variable {V X : Type*} (S : Sweep V X) {P : X → Prop} {K : ℕ} {σ : V → X}

theorem succ_idle {n : ℕ} {v : V} (h : ¬S.due (S.run^[n + 1] σ) v) : S.run^[n + 1] σ v = S.run^[n] σ v := by
  rw [Function.iterate_succ_apply'] at h ⊢
  exact S.run_idle h

theorem succ_due {n : ℕ} {v : V} (h : S.due (S.run^[n + 1] σ) v) : S.run^[n + 1] σ v = S.next (S.run^[n] σ v) := by
  rw [Function.iterate_succ_apply'] at h ⊢
  exact S.run_due h

/-- What a step keeps, a sweep keeps. -/
theorem iterate_keeps (hnext : ∀ x, P x → P (S.next x)) (hσ : ∀ v, P (σ v)) (n : ℕ) (v : V) : P (S.run^[n] σ v) := by
  induction n with
  | zero => exact hσ v
  | succ n ih =>
    by_cases h : S.due (S.run^[n + 1] σ) v
    · rw [S.succ_due h]
      exact hnext _ ih
    · rw [S.succ_idle h]
      exact ih

/-- Values that do not change from one sweep to the next are those of the first of them. -/
theorem constant_from {N n : ℕ} (hn : N ≤ n) {u : V} (h : ∀ m, N ≤ m → S.run^[m + 1] σ u = S.run^[m] σ u) :
    S.run^[n] σ u = S.run^[N] σ u := by
  obtain ⟨k, rfl⟩ := Nat.exists_eq_add_of_le hn
  clear hn
  induction k with
  | zero => rfl
  | succ k ih => exact (h (N + k) (Nat.le_add_right N k)).trans ih

/-- A vertex due in every sweep from `N` on has taken all its steps `K` sweeps later. -/
theorem due_settles (hnext : ∀ x, P x → P (S.next x)) (hK : ∀ x, P x → S.next (S.next^[K] x) = S.next^[K] x)
    (hσ : ∀ v, P (σ v)) {N : ℕ} {v : V} (hdue : ∀ n, N ≤ n → S.due (S.run^[n] σ) v) {n : ℕ} (hn : N + K ≤ n) :
    S.run^[n + 1] σ v = S.run^[n] σ v := by
  have hsteps : ∀ k, S.run^[N + k] σ v = S.next^[k] (S.run^[N] σ v) := by
    intro k
    induction k with
    | zero => rfl
    | succ k ih =>
      rw [Function.iterate_succ_apply', ← ih]
      exact S.succ_due (n := N + k) (hdue (N + k + 1) (by omega))
  obtain ⟨j, rfl⟩ := Nat.exists_eq_add_of_le hn
  have hstop := hK _ (S.iterate_keeps hnext hσ N v)
  have hlast : ∀ j, S.run^[N + K + j] σ v = S.next^[K] (S.run^[N] σ v) := by
    intro j
    rw [Nat.add_assoc, hsteps, Nat.add_comm K j, Function.iterate_add_apply, Function.iterate_fixed hstop]
  rw [Nat.add_assoc, hlast, hlast]

theorem settles (hnext : ∀ x, P x → P (S.next x)) (hK : ∀ x, P x → S.next (S.next^[K] x) = S.next^[K] x)
    (hσ : ∀ v, P (σ v)) (d : ℕ) {n : ℕ} (hn : K * d ≤ n) {v : V} (hv : S.rank v ≤ d) :
    S.run^[n + 1] σ v = S.run^[n] σ v := by
  induction d generalizing n v with
  | zero =>
    refine S.succ_idle fun h => ?_
    have := (S.due_within h).1
    omega
  | succ d ih =>
    rw [Nat.mul_succ] at hn
    rcases Nat.lt_or_ge d (S.rank v) with hlt | hle
    · -- from `K * d` on the lower ranks are what they are, and so is whether `v` is due
      have hlower : ∀ m, K * d ≤ m → ∀ u, S.rank u < S.rank v → S.run^[m] σ u = S.run^[K * d] σ u :=
        fun m hm u hu => S.constant_from hm fun k hk => ih hk (by omega)
      by_cases hdue : S.due (S.run^[K * d] σ) v
      · refine S.due_settles hnext hK hσ (fun m hm => ?_) hn
        exact S.due_lower (fun u hu => (hlower m hm u hu).symm) hdue
      · refine S.succ_idle fun h => hdue ?_
        exact S.due_lower (hlower (n + 1) (by omega)) h
    · exact ih (by omega) hle

theorem fixed (hnext : ∀ x, P x → P (S.next x)) (hK : ∀ x, P x → S.next (S.next^[K] x) = S.next^[K] x)
    (hσ : ∀ v, P (σ v)) {n : ℕ} (hn : K * S.height ≤ n) : S.run (S.run^[n] σ) = S.run^[n] σ := by
  funext v
  rw [← Function.iterate_succ_apply' S.run]
  by_cases h : S.due (S.run^[n + 1] σ) v
  · exact S.settles hnext hK hσ S.height hn (S.due_within h).2
  · exact S.succ_idle h

/-- A vertex due at a fixed point can take no step. -/
theorem stuck {τ : V → X} (hτ : S.run τ = τ) {v : V} (h : S.due τ v) : S.next (τ v) = τ v := by
  have := S.run_due (σ := τ) (v := v) (by rw [hτ]; exact h)
  rw [hτ] at this
  exact this.symm

end Sweep

end Sweeps
