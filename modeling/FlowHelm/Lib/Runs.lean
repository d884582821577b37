/-
  FlowHelm.Lib.Runs — runs of a deterministic labelled system, and runs each of whose
  steps meets a condition.

  A system is a start state and a partial step: `step s e` is what event `e` does in
  `s`, `none` when `e` cannot happen there. `Reach C s` says that `s` ends a run all of
  whose steps meet `C` (the state before the step and its event); `Free` is the
  condition every step meets, so `Reach Free` is plain reachability. `Path s t` is a
  run from `s` to `t` without a condition.

  - `Reach.inv`: the invariant rule for conditional runs.
  - `Reach.keeps_iff`: the same where the condition is also what it takes to keep the invariant.
  - `Reach.mono`: a run under a condition is a run under a weaker one.
  - `meets_of_inv`: what every event of a run meets.
  - `reach_of_exec` / `reach_any`: a concrete event list whose steps meet the condition.
-/

namespace Runs

structure System (S E : Type) where
  init : S
  step : S → E → Option S

variable {S E : Type} (M : System S E)

/-- The condition every step meets. -/
def Free : S → E → Prop := fun _ _ => True

inductive Reach (C : S → E → Prop) : S → Prop
  | init : Reach C M.init
  | step {s t : S} (e : E) : Reach C s → C s e → M.step s e = some t → Reach C t

/-- The state after the events `es`, `none` when one of them cannot happen. -/
def exec : S → List E → Option S
  | s, [] => some s
  | s, e :: es => match M.step s e with
    | some t => exec t es
    | none => none

def Path (s t : S) : Prop := ∃ es, exec M s es = some t

/-- Every event of `es`, run from `s`, meets `C` where it happens. -/
def Meets (C : S → E → Prop) : S → List E → Prop
  | _, [] => True
  | s, e :: es => C s e ∧ match M.step s e with
    | some t => Meets C t es
    | none => True

variable {M}

/-! ## Conditional runs -/

/-- What holds at the start and is kept by every step meeting the condition holds in
    every state such runs reach. -/
theorem Reach.inv {C : S → E → Prop} {I : S → Prop} (h0 : I M.init)
    (hs : ∀ s e t, Reach M C s → I s → C s e → M.step s e = some t → I t) {s : S} (h : Reach M C s) : I s := by
  induction h with
  | init => exact h0
  | step e hr hc he ih => exact hs _ e _ hr ih hc he

/-- Where a step keeps `I` just if it meets the condition, runs of such steps keep it and the first
    other step breaks it. -/
theorem Reach.keeps_iff {C : S → E → Prop} {I : S → Prop} {s : S} (h : Reach M C s) (h0 : I M.init)
    (hs : ∀ s e t, I s → M.step s e = some t → (I t ↔ C s e)) : I s ∧ ∀ e t, M.step s e = some t → (I t ↔ C s e) := by
  have hI : I s := h.inv h0 fun s e t _ hi hc he => (hs s e t hi he).mpr hc
  exact ⟨hI, fun e t he => hs s e t hI he⟩

theorem Reach.mono {C D : S → E → Prop} (hcd : ∀ s e, C s e → D s e) {s : S} (h : Reach M C s) : Reach M D s := by
  induction h with
  | init => exact .init
  | step e _ hc he ih => exact .step e ih (hcd _ _ hc) he

/-! ## Paths -/

theorem Path.refl (s : S) : Path M s s := ⟨[], rfl⟩

theorem Path.cons {s t u : S} (e : E) (h : M.step s e = some t) (hp : Path M t u) : Path M s u := by
  obtain ⟨es, hes⟩ := hp
  exact ⟨e :: es, by simp only [exec, h]; exact hes⟩

theorem Path.single {s t : S} (e : E) (h : M.step s e = some t) : Path M s t := .cons e h (.refl t)

theorem exec_append (s : S) (es fs : List E) :
    exec M s (es ++ fs) = (exec M s es).bind (exec M · fs) := by
  induction es generalizing s with
  | nil => rfl
  | cons e es ih =>
    simp only [List.cons_append, exec]
    cases M.step s e with
    | none => rfl
    | some t => exact ih t

theorem Path.trans {s t u : S} (h1 : Path M s t) (h2 : Path M t u) : Path M s u := by
  obtain ⟨es, hes⟩ := h1
  obtain ⟨fs, hfs⟩ := h2
  exact ⟨es ++ fs, by rw [exec_append, hes]; exact hfs⟩

/-! ## Every event of a run -/

/-- A run from where `I` holds meets what every step from there meets. -/
theorem meets_of_inv {C : S → E → Prop} {I : S → Prop} (hI : ∀ s e t, I s → M.step s e = some t → C s e ∧ I t) {s t : S}
    {es : List E} (h0 : I s) (he : exec M s es = some t) : Meets M C s es := by
  induction es generalizing s with
  | nil => trivial
  | cons e es ih =>
    simp only [exec, Meets] at he ⊢
    cases hst : M.step s e with
    | none => simp [hst] at he
    | some u =>
      rw [hst] at he
      obtain ⟨hc, hu⟩ := hI s e u h0 hst
      exact ⟨hc, ih hu he⟩

theorem Meets.imp {C D : S → E → Prop} (hcd : ∀ s e, C s e → D s e) {s : S} {es : List E} (h : Meets M C s es) :
    Meets M D s es := by
  induction es generalizing s with
  | nil => trivial
  | cons e es ih =>
    refine ⟨hcd s e h.1, ?_⟩
    have hrest := h.2
    cases hst : M.step s e with
    | none => trivial
    | some u =>
      rw [hst] at hrest
      exact ih hrest

theorem Meets.and {C D : S → E → Prop} {s : S} {es : List E} (hc : Meets M C s es) (hd : Meets M D s es) :
    Meets M (fun s e => C s e ∧ D s e) s es := by
  induction es generalizing s with
  | nil => trivial
  | cons e es ih =>
    refine ⟨⟨hc.1, hd.1⟩, ?_⟩
    have hc' := hc.2
    have hd' := hd.2
    cases hst : M.step s e with
    | none => trivial
    | some u =>
      rw [hst] at hc' hd'
      exact ih hc' hd'

/-! ## Concrete runs -/

theorem Reach.exec {C : S → E → Prop} {s t : S} (h : Reach M C s) (es : List E) (hm : Meets M C s es)
    (he : exec M s es = some t) : Reach M C t := by
  induction es generalizing s with
  | nil => simp only [Runs.exec, Option.some.injEq] at he; exact he ▸ h
  | cons e es ih =>
    simp only [Runs.exec, Meets] at he hm
    cases hst : M.step s e with
    | none => simp [hst] at he
    | some u =>
      rw [hst] at he hm
      exact ih (.step e h hm.1 hst) hm.2 he

theorem reach_of_exec {C : S → E → Prop} {t : S} (es : List E) (hm : Meets M C M.init es)
    (he : exec M M.init es = some t) : Reach M C t :=
  Reach.exec .init es hm he

/-- A concrete run to a state with a property that can be computed. -/
theorem reach_any {C : S → E → Prop} {P : S → Bool} (es : List E) (hm : Meets M C M.init es)
    (h : (Runs.exec M M.init es).any P = true) : ∃ t, Reach M C t ∧ P t = true := by
  obtain ⟨t, ht, hp⟩ := (Option.any_eq_true _ _).mp h
  exact ⟨t, reach_of_exec es hm ht, hp⟩

/-- Whether a concrete run meets a decidable condition can be computed. -/
instance decidableMeets (C : S → E → Prop) [∀ s e, Decidable (C s e)] : ∀ s es, Decidable (Meets M C s es)
  | _, [] => inferInstanceAs (Decidable True)
  | s, e :: es =>
    have : Decidable (match M.step s e with | some t => Meets M C t es | none => True) :=
      match M.step s e with
      | some t => decidableMeets C t es
      | none => inferInstanceAs (Decidable True)
    inferInstanceAs (Decidable (C s e ∧ _))

theorem meets_free (s : S) (es : List E) : Meets M Free s es := by
  induction es generalizing s with
  | nil => trivial
  | cons e es ih =>
    refine ⟨trivial, ?_⟩
    cases M.step s e with
    | none => trivial
    | some t => exact ih t

end Runs
