/-
  FlowHelm.Lib.Finality — a client that has been told to stop: whether it stays so until it is
  asked to connect again.

  What is seen of a client is how many attempts it has begun and whether it is connected. A state
  is final when in every run from it, in which nothing asks, each step is quiet: it begins no
  attempt, and the client does not become connected.

  - `Final.of_closed`: final are the states of a set that such steps do not leave and in which
    each of them is quiet.
  - `Final.step`: what comes behind a final state is final.
-/
import FlowHelm.Lib.Runs

namespace Finality

open Runs

variable {S E : Type}

structure View (S E : Type) where
  attempts : S → Nat
  connected : S → Bool
  /-- The event asks for a connection. -/
  asks : E → Bool

def Quiet (V : View S E) (s t : S) : Prop :=
  V.attempts t = V.attempts s ∧ (V.connected t = true → V.connected s = true)

def Final (M : System S E) (V : View S E) (s : S) : Prop :=
  ∀ es u, (∀ e ∈ es, V.asks e = false) → exec M s es = some u →
    ∀ e v, V.asks e = false → M.step u e = some v → Quiet V u v

variable {M : System S E} {V : View S E}

theorem Final.quiet {s t : S} {e : E} (h : Final M V s) (he : V.asks e = false) (hst : M.step s e = some t) : Quiet V s t :=
  h [] s (fun _ h => nomatch h) rfl e t he hst

theorem Final.step {s t : S} {e : E} (h : Final M V s) (he : V.asks e = false) (hst : M.step s e = some t) : Final M V t := by
  intro es u hes hu
  refine h (e :: es) u ?_ ?_
  · intro f hf
    rcases List.mem_cons.mp hf with rfl | hf
    · exact he
    · exact hes f hf
  · simp only [exec, hst]
    exact hu

/-- The induction is on the run behind the state. -/
theorem Final.of_closed {I : S → Prop}
    (hI : ∀ s e t, I s → V.asks e = false → M.step s e = some t → I t ∧ Quiet V s t) {s : S} (hs : I s) : Final M V s := by
  intro es
  induction es generalizing s with
  | nil =>
    intro u _ hu e v he hv
    obtain rfl := Option.some.inj hu
    exact (hI _ e v hs he hv).2
  | cons f es ih =>
    intro u hes hu
    simp only [exec] at hu
    cases hst : M.step s f with
    | none => simp [hst] at hu
    | some t =>
      rw [hst] at hu
      exact ih (hI s f t hs (hes f (List.mem_cons_self ..)) hst).1 u (fun g hg => hes g (List.mem_cons_of_mem _ hg)) hu

end Finality
