/-
  FlowHelm.Channels.GmailRenewals — the renewal timer of GmailWatchManager, and what is stopped by
  `stopWatch` (src/channels/gmail/watch.ts).

  A renewal that fails sets a timer for one retry; a retry that fails sets none. `stopWatch` clears
  the timer that is held and then awaits the client; a request in flight goes on, and when it is
  answered it makes the watch active again and sets a timer. The timer of a retry replaces the one
  that is held without clearing it, so there can be timers that nobody can clear.

  - `Kept`: an active watch has a timer or a renewal in flight, a stopped one neither.
  - `step_kept` / `watch_kept`: so it is just while no retry fails that is the last there is, and
    nothing is under way when `stopWatch` returns, or answered after it.
  - `a_second_failure_is_final` / `a_renewal_outlives_the_stop`: the runs that break it.
-/
import FlowHelm.Lib.Runs

namespace FlowHelm.Channels.GmailRenewals

open Runs

inductive Timer where
  /-- Of `scheduleRenewal`. -/
  | renewal
  /-- An hour after a renewal failed. -/
  | retry
  deriving DecidableEq, Repr

/-- What awaits `client.createWatch`. -/
inductive Request where
  | createWatch
  | renewWatch (timer : Timer)
  deriving DecidableEq, Repr

def Request.isRenewal : Request → Bool
  | .createWatch => false
  | .renewWatch _ => true

structure St where
  active : Bool
  /-- The timer that is held, `none` once it has fired. -/
  renewalTimer : Option Timer
  /-- Timers that are pending and not held any more. -/
  lost : List Timer
  requests : List Request
  /-- The calls of `stopWatch` that await the client. -/
  stops : Nat
  /-- `createWatch` was called since the last `stopWatch` returned. -/
  created : Bool
  deriving DecidableEq

inductive Ev where
  | createWatch
  | stopWatch
  | stopped
  | fire
  | fireLost (i : Nat)
  | answered (i : Nat)
  | failed (i : Nat)
  deriving DecidableEq

def cancelRenewal (s : St) : St := { s with renewalTimer := none }

def scheduleRenewal (s : St) : St := { cancelRenewal s with renewalTimer := some .renewal }

/-- `stopWatch` behind its await, or without one. -/
def stop (s : St) : St := { s with active := false, created := false }

def step (s : St) : Ev → Option St
  | .createWatch => some { s with requests := s.requests ++ [.createWatch], created := true }
  | .stopWatch =>
    let s := cancelRenewal s
    some (if s.active then { s with stops := s.stops + 1 } else stop s)
  | .stopped => if s.stops = 0 then none else some (stop { s with stops := s.stops - 1 })
  | .fire => match s.renewalTimer with
    | some timer => some { s with renewalTimer := none, requests := s.requests ++ [.renewWatch timer] }
    | none => none
  | .fireLost i => match s.lost[i]? with
    | some timer => some { s with lost := s.lost.eraseIdx i, requests := s.requests ++ [.renewWatch timer] }
    | none => none
  | .answered i => match s.requests[i]? with
    | some _ => some (scheduleRenewal { s with requests := s.requests.eraseIdx i, active := true })
    | none => none
  | .failed i => match s.requests[i]? with
    | some (.renewWatch .renewal) => some { s with requests := s.requests.eraseIdx i
                                                   lost := s.lost ++ s.renewalTimer.toList
                                                   renewalTimer := some .retry }
    | some _ => some { s with requests := s.requests.eraseIdx i }
    | none => none

def St.init : St := ⟨false, none, [], [], 0, false⟩

def watch : System St Ev := ⟨St.init, step⟩

/-! ## What is under way -/

def Pending (s : St) : Prop := s.renewalTimer.isSome = true ∨ s.lost ≠ [] ∨ s.requests.any Request.isRenewal = true

instance (s : St) : Decidable (Pending s) := inferInstanceAs (Decidable (_ ∨ _ ∨ _))

/-- An active watch that nobody stops has a renewal before it; one that was stopped has none, and
    is not active. -/
structure Kept (s : St) : Prop where
  goes : s.created = true → s.stops = 0 → s.active = true → Pending s
  rests : s.created = false → s.active = false ∧ ¬Pending s

instance (s : St) : Decidable (Kept s) := decidable_of_iff
  ((s.created = true → s.stops = 0 → s.active = true → Pending s) ∧ (s.created = false → s.active = false ∧ ¬Pending s))
  ⟨fun h => ⟨h.1, h.2⟩, fun h => ⟨h.goes, h.rests⟩⟩

/-- A `stopWatch` that returns leaves nothing under way, nothing is answered after it, and a retry
    that fails is not the last renewal of an active watch. -/
def InTime (s : St) : Ev → Prop
  | .stopWatch => s.active = false → ¬Pending (cancelRenewal s)
  | .stopped => ¬Pending s
  | .answered _ => s.created = true
  | .failed i => s.requests[i]? = some (.renewWatch .retry) → s.stops = 0 → s.active = true →
      Pending { s with requests := s.requests.eraseIdx i }
  | _ => True

instance decidableInTime (s : St) : (e : Ev) → Decidable (InTime s e)
  | .stopWatch => inferInstanceAs (Decidable (s.active = false → ¬Pending (cancelRenewal s)))
  | .stopped => inferInstanceAs (Decidable (¬Pending s))
  | .answered _ => inferInstanceAs (Decidable (s.created = true))
  | .failed i => inferInstanceAs (Decidable (s.requests[i]? = some (.renewWatch .retry) → s.stops = 0 → s.active = true →
      Pending { s with requests := s.requests.eraseIdx i }))
  | .createWatch | .fire | .fireLost _ => inferInstanceAs (Decidable True)

/-! ## Steps -/

/-- What was pending still is where the renewals in flight are. -/
theorem Pending.imp {s t : St} (htimer : t.renewalTimer = s.renewalTimer) (hlost : t.lost = s.lost)
    (hrequests : s.requests.any Request.isRenewal = true → t.requests.any Request.isRenewal = true) (h : Pending s) :
    Pending t := by
  unfold Pending
  rw [htimer, hlost]
  exact h.imp_right (Or.imp_right hrequests)

/-- A renewal in flight is pending. -/
theorem pending_of_request {s : St} {i : Nat} {timer : Timer} (h : s.requests[i]? = some (.renewWatch timer)) : Pending s :=
  .inr (.inr (List.any_eq_true.mpr ⟨_, List.mem_of_getElem? h, rfl⟩))

theorem Kept.created {s : St} (h : Kept s) (hp : Pending s) : s.created = true := by
  cases hc : s.created with
  | true => rfl
  | false => exact absurd hp (h.rests hc).2

/-- A state that was just stopped is kept if nothing is pending. -/
theorem kept_stop {s : St} : Kept (stop s) ↔ ¬Pending s :=
  ⟨fun h => (h.rests rfl).2, fun h => ⟨(fun hc => by cases hc), fun _ => ⟨rfl, h⟩⟩⟩

/-- A timer or a renewal keeps a watch that was created. -/
theorem kept_of_pending {s : St} (hc : s.created = true) (hp : Pending s) : Kept s :=
  ⟨fun _ _ _ => hp, fun hf => by rw [hc] at hf; cases hf⟩

/-- Of requests but renewals, one that is over changes nothing. -/
theorem any_eraseIdx {requests : List Request} {i : Nat} (h : requests[i]? = some .createWatch) :
    (requests.eraseIdx i).any Request.isRenewal = requests.any Request.isRenewal := by
  induction requests generalizing i with
  | nil => rfl
  | cons r requests ih =>
    cases i with
    | zero =>
      obtain rfl := Option.some.inj h
      rfl
    | succ i =>
      rw [List.eraseIdx_cons_succ, List.any_cons, List.any_cons, ih h]

/-- A step keeps the rule just if it meets the condition. -/
theorem step_kept {s t : St} {e : Ev} (h : Kept s) (hs : step s e = some t) : Kept t ↔ InTime s e := by
  cases e with
  | createWatch =>
    obtain rfl := Option.some.inj hs
    refine iff_of_true ⟨fun _ hstops hactive => ?_, fun hc => by cases hc⟩ trivial
    cases hc : s.created with
    | true => exact Pending.imp (s := s) rfl rfl (fun hany => by simp [hany]) (h.goes hc hstops hactive)
    | false => cases (h.rests hc).1.symm.trans hactive
  | stopWatch =>
    rw [step] at hs
    obtain rfl := Option.some.inj hs
    simp only [InTime]
    split
    · rename_i hactive
      have hc : s.created = true := by
        cases hc : s.created with
        | true => rfl
        | false => cases (h.rests hc).1.symm.trans hactive
      refine iff_of_true ⟨fun _ hstops => ?_, fun hf => ?_⟩ fun hf => ?_
      · cases hstops
      · cases hc.symm.trans hf
      · cases (show s.active = true from hactive).symm.trans hf
    · rename_i hactive
      have hfalse : s.active = false := Bool.eq_false_iff.mpr hactive
      rw [kept_stop]
      exact ⟨fun hp _ => hp, fun hp => hp hfalse⟩
  | stopped =>
    rw [step] at hs
    split at hs
    · cases hs
    · obtain rfl := Option.some.inj hs
      exact kept_stop
  | fire =>
    rw [step] at hs
    split at hs
    · rename_i timer htimer
      obtain rfl := Option.some.inj hs
      have hc := h.created (.inl (by rw [htimer]; rfl))
      exact iff_of_true (kept_of_pending hc (.inr (.inr (by simp [Request.isRenewal])))) trivial
    · cases hs
  | fireLost i =>
    rw [step] at hs
    split at hs
    · rename_i timer htimer
      obtain rfl := Option.some.inj hs
      have hc := h.created (.inr (.inl (List.ne_nil_of_mem (List.mem_of_getElem? htimer))))
      exact iff_of_true (kept_of_pending hc (.inr (.inr (by simp [Request.isRenewal])))) trivial
    · cases hs
  | answered i =>
    rw [step] at hs
    split at hs
    · obtain rfl := Option.some.inj hs
      refine ⟨fun ht => ?_, fun hc => kept_of_pending hc (.inl rfl)⟩
      cases hc : s.created with
      | true => exact hc
      | false => cases (ht.rests hc).1
    · cases hs
  | failed i =>
    rw [step] at hs
    split at hs
    · rename_i hrequest
      obtain rfl := Option.some.inj hs
      refine iff_of_true (kept_of_pending (h.created (pending_of_request hrequest)) (.inl rfl)) fun hretry => ?_
      cases hrequest.symm.trans hretry
    · rename_i request hother hrequest
      obtain rfl := Option.some.inj hs
      cases request with
      | createWatch =>
        have hsame := any_eraseIdx hrequest
        have hpending : Pending { s with requests := s.requests.eraseIdx i } ↔ Pending s := by
          simp only [Pending, hsame]
        refine iff_of_true ⟨fun hc hstops hactive => hpending.mpr (h.goes hc hstops hactive), fun hc => ?_⟩ fun hretry => ?_
        · exact ⟨(h.rests hc).1, fun hp => (h.rests hc).2 (hpending.mp hp)⟩
        · cases hrequest.symm.trans hretry
      | renewWatch timer => cases timer with
        | renewal => exact absurd rfl hother
        | retry =>
          have hc := h.created (pending_of_request hrequest)
          refine ⟨fun ht _ hstops hactive => ht.goes hc hstops hactive, fun hlast => ?_⟩
          exact ⟨fun _ hstops hactive => hlast hrequest hstops hactive, fun hf => by cases hc.symm.trans hf⟩
    · cases hs

/-- In a run of such steps an active watch has a renewal before it and a stopped one none; the
    first other step breaks that. -/
theorem watch_kept {s : St} (h : Reach watch InTime s) : Kept s ∧ ∀ e t, step s e = some t → (Kept t ↔ InTime s e) := by
  refine h.keeps_iff (I := Kept) ⟨(fun hc => by cases hc), fun _ => ⟨rfl, by decide⟩⟩ fun s e t hs hst => ?_
  exact step_kept hs hst

/-! ## Runs -/

def created : List Ev := [.createWatch, .answered 0]

/-- A renewal fails once, its retry succeeds, and the watch is stopped. -/
theorem a_failure_is_retried : ∃ s, Reach watch InTime s ∧ Kept s ∧ s.active = false ∧ s.created = false := by
  obtain ⟨s, hs, hrun⟩ := reach_any (M := watch) (C := InTime) (P := fun s => !s.active && !s.created)
    (created ++ [.fire, .failed 0, .fire, .answered 0, .stopWatch, .stopped]) (by decide) (by decide)
  simp only [Bool.and_eq_true, Bool.not_eq_true'] at hrun
  exact ⟨s, hs, (watch_kept hs).1, hrun⟩

/-- A renewal and its retry fail: the watch stays active and is never renewed. -/
theorem a_second_failure_is_final : ∃ s, Reach watch Free s ∧ s.active = true ∧ s.created = true ∧ ¬Kept s := by
  obtain ⟨s, hs, hrun⟩ := reach_any (M := watch) (C := Free) (P := fun s => s.active && s.created && !decide (Kept s))
    (created ++ [.fire, .failed 0, .fire, .failed 0]) (meets_free ..) (by decide)
  simp only [Bool.and_eq_true, Bool.not_eq_true', decide_eq_false_iff_not] at hrun
  exact ⟨s, hs, hrun.1.1, hrun.1.2, hrun.2⟩

/-- A renewal in flight while the watch is stopped makes it active again. -/
theorem a_renewal_outlives_the_stop : ∃ s, Reach watch Free s ∧ s.created = false ∧ s.active = true ∧ ¬Kept s := by
  obtain ⟨s, hs, hrun⟩ := reach_any (M := watch) (C := Free) (P := fun s => !s.created && s.active && !decide (Kept s))
    (created ++ [.fire, .stopWatch, .stopped, .answered 0]) (meets_free ..) (by decide)
  simp only [Bool.and_eq_true, Bool.not_eq_true', decide_eq_false_iff_not] at hrun
  exact ⟨s, hs, hrun.1.1, hrun.1.2, hrun.2⟩

end FlowHelm.Channels.GmailRenewals
