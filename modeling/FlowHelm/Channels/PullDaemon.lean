/-
  FlowHelm.Channels.PullDaemon — `start` and `stop` of PubSubPullDaemon, and its intervals
  (src/channels/gmail/pubsub-pull.ts).

  `start` sets the flag, awaits a token and a first pull, and creates its interval without reading
  the flag again; a token that is refused leaves the flag set. `stop` clears the one interval that
  is held. The intervals that another replaced in `pullTimer` go on, and nobody can clear them.

  - `Live`: with no start in flight, a running daemon has one interval and another none.
  - `step_live` / `daemon_live`: so it is just while the last start that ends finds things so.
  - `a_refused_start_runs` / `an_interval_outlives_the_stop`: the runs that break it.
-/
import FlowHelm.Lib.Runs

namespace FlowHelm.Channels.PullDaemon

open Runs

/-- What a `start` awaits. -/
inductive Start where
  | getAccessToken
  /-- Its first pull; `pulls` unless `doPull` returned at once. -/
  | doPull (pulls : Bool)
  deriving DecidableEq, Repr

structure St where
  running : Bool
  pulling : Bool
  /-- An interval is held. -/
  pullTimer : Bool
  /-- Intervals that are active and not held any more. -/
  lost : Nat
  starts : List Start
  /-- The pull of an interval is in flight. -/
  ticking : Bool
  deriving DecidableEq

inductive Ev where
  | start
  | stop
  /-- The token of the `i`th start. -/
  | authorized (i : Nat)
  | refused (i : Nat)
  /-- The first pull of the `i`th start is over; `doPull` catches what fails in it. -/
  | pulled (i : Nat)
  | tick
  | ticked
  deriving DecidableEq

def intervals (s : St) : Nat := s.lost + s.pullTimer.toNat

/-- Not the `return` at the top of `doPull`. -/
def goesOn (s : St) : Bool := s.running && !s.pulling

def step (s : St) : Ev → Option St
  | .start => some (if s.running then s else { s with running := true, starts := s.starts ++ [.getAccessToken] })
  | .stop => some { s with running := false, pullTimer := false }
  | .authorized i => match s.starts[i]? with
    | some .getAccessToken => some { s with pulling := s.pulling || goesOn s
                                            starts := s.starts.set i (.doPull (goesOn s)) }
    | _ => none
  | .refused i => match s.starts[i]? with
    | some .getAccessToken => some { s with starts := s.starts.eraseIdx i }
    | _ => none
  | .pulled i => match s.starts[i]? with
    | some (.doPull pulls) => some { s with pulling := s.pulling && !pulls
                                            pullTimer := true
                                            lost := intervals s
                                            starts := s.starts.eraseIdx i }
    | _ => none
  | .tick => if intervals s = 0 then none
    else some { s with pulling := s.pulling || goesOn s, ticking := s.ticking || goesOn s }
  | .ticked => if s.ticking then some { s with pulling := false, ticking := false } else none

def St.init : St := ⟨false, false, false, 0, [], false⟩

def daemon : System St Ev := ⟨St.init, step⟩

/-! ## Who pulls -/

/-- With no start in flight, a daemon runs just where it has one interval, and has none where it
    does not. -/
def Live (s : St) : Prop := s.starts = [] → (s.running = true ↔ intervals s = 1) ∧ (s.running = false → intervals s = 0)

instance (s : St) : Decidable (Live s) := inferInstanceAs (Decidable (_ → _))

/-- No start but the `i`th is in flight. -/
def Last (s : St) (i : Nat) : Prop := s.starts.eraseIdx i = []

instance (s : St) (i : Nat) : Decidable (Last s i) := inferInstanceAs (Decidable (_ = _))

/-- The last start in flight makes its interval of a daemon that nobody stopped and that has none;
    its token is refused only where the daemon was stopped, or runs with the interval of another
    start; and a stop finds no interval that is not held. -/
def InTime (s : St) : Ev → Prop
  | .stop => s.starts = [] → s.lost = 0
  | .refused i => Last s i → intervals s = s.running.toNat
  | .pulled i => Last s i → s.running = true ∧ intervals s = 0
  | _ => True

instance decidableInTime (s : St) : (e : Ev) → Decidable (InTime s e)
  | .stop => inferInstanceAs (Decidable (s.starts = [] → s.lost = 0))
  | .refused i => inferInstanceAs (Decidable (Last s i → intervals s = s.running.toNat))
  | .pulled i => inferInstanceAs (Decidable (Last s i → s.running = true ∧ intervals s = 0))
  | .start | .authorized _ | .tick | .ticked => inferInstanceAs (Decidable True)

/-! ## Steps -/

theorem live_iff {s : St} : Live s ↔ (s.starts = [] → intervals s = s.running.toNat) := by
  refine imp_congr_right fun _ => ?_
  cases s.running with
  | false =>
    refine ⟨fun h => h.2 rfl, fun h => ⟨?_, fun _ => h⟩⟩
    rw [h]
    decide
  | true => simp

/-- An interval beside others: it is the one of a daemon that runs just where there is no other. -/
theorem succ_eq_toNat {n : Nat} {running : Bool} : n + 1 = running.toNat ↔ running = true ∧ n = 0 := by
  cases running with
  | false => simp
  | true => simp

/-- A step keeps the rule just if it meets the condition. -/
theorem step_live {s t : St} {e : Ev} (h : Live s) (hs : step s e = some t) : Live t ↔ InTime s e := by
  rw [live_iff] at h ⊢
  cases e with
  | start =>
    rw [step] at hs
    obtain rfl := Option.some.inj hs
    refine iff_of_true ?_ trivial
    split
    · exact h
    · exact fun hnil => absurd hnil (by simp)
  | stop =>
    obtain rfl := Option.some.inj hs
    exact Iff.rfl
  | authorized i =>
    rw [step] at hs
    split at hs
    · rename_i hstart
      obtain rfl := Option.some.inj hs
      refine iff_of_true (fun hnil => ?_) trivial
      rw [(List.set_eq_nil_iff _ _).mp hnil] at hstart
      cases hstart
    · cases hs
  | refused i =>
    rw [step] at hs
    split at hs
    · obtain rfl := Option.some.inj hs
      exact Iff.rfl
    · cases hs
  | pulled i =>
    rw [step] at hs
    split at hs
    · obtain rfl := Option.some.inj hs
      exact imp_congr_right fun _ => succ_eq_toNat
    · cases hs
  | tick =>
    rw [step] at hs
    split at hs
    · cases hs
    · obtain rfl := Option.some.inj hs
      exact iff_of_true h trivial
  | ticked =>
    rw [step] at hs
    split at hs
    · obtain rfl := Option.some.inj hs
      exact iff_of_true h trivial
    · cases hs

/-- In a run of such steps a daemon with no start in flight has one interval while it runs and
    none else; the first other step breaks that. -/
theorem daemon_live {s : St} (h : Reach daemon InTime s) : Live s ∧ ∀ e t, step s e = some t → (Live t ↔ InTime s e) := by
  refine h.keeps_iff (I := Live) (fun _ => by decide) fun s e t hs hst => ?_
  exact step_live hs hst

/-! ## Runs -/

def started : List Ev := [.start, .authorized 0, .pulled 0]

/-- A daemon starts, pulls twice, is stopped during the second pull and starts again. -/
theorem a_start_after_a_stop : ∃ s, Reach daemon InTime s ∧ Live s ∧ s.running = true ∧ intervals s = 1 := by
  obtain ⟨s, hs, hrun⟩ := reach_any (M := daemon) (C := InTime) (P := fun s => s.running && intervals s == 1)
    (started ++ [.tick, .stop, .ticked] ++ started) (by decide) (by decide)
  simp only [Bool.and_eq_true, beq_iff_eq] at hrun
  exact ⟨s, hs, (daemon_live hs).1, hrun⟩

/-- The token of a start is refused: the daemon says it runs, has no interval, and the next start
    returns at once. -/
theorem a_refused_start_runs : ∃ s, Reach daemon Free s ∧ s.starts = [] ∧ s.running = true ∧ intervals s = 0 ∧
    ¬Live s ∧ step s .start = some s := by
  obtain ⟨s, hs, hrun⟩ := reach_any (M := daemon) (C := Free)
    (P := fun s => decide (s.starts = [] ∧ s.running = true ∧ intervals s = 0 ∧ ¬Live s ∧ step s .start = some s))
    [.start, .refused 0] (meets_free ..) (by decide)
  exact ⟨s, hs, of_decide_eq_true hrun⟩

/-- A stop while the token of a start is awaited: the start makes an interval of a stopped
    daemon. -/
theorem an_interval_outlives_the_stop : ∃ s, Reach daemon Free s ∧ s.starts = [] ∧ s.running = false ∧ intervals s = 1 ∧
    ¬Live s := by
  obtain ⟨s, hs, hrun⟩ := reach_any (M := daemon) (C := Free)
    (P := fun s => decide (s.starts = [] ∧ s.running = false ∧ intervals s = 1 ∧ ¬Live s))
    [.start, .stop, .authorized 0, .pulled 0] (meets_free ..) (by decide)
  exact ⟨s, hs, of_decide_eq_true hrun⟩

end FlowHelm.Channels.PullDaemon
