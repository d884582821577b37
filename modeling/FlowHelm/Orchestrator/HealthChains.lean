/-
  FlowHelm.Orchestrator.HealthChains — the chains of checks of HealthMonitor, and who starts one
  (src/orchestrator/health.ts).

  `start` checks one target after the other and sets a timer behind each check; a timer that fires
  checks its target and sets the next. The flag `running` is read behind a check and when a timer
  fires, and not between two targets of `start`: a check in flight does not see that the monitor
  was stopped and started meanwhile, nor does the loop of `start` that it was stopped. A name is
  the key of one timer; one that is set beside another replaces it without clearing it.

  - `Kept`: a target has one timer or check at most, and none began while the monitor was stopped.
  - `step_kept` / `one_chain`: so it is just while `start` comes only to targets that have neither,
    of a monitor that runs.
  - `a_check_outlives_a_restart` / `a_start_outlives_the_stop`: the runs that break it.
-/
import FlowHelm.Lib.Parties
import FlowHelm.Lib.Runs

namespace FlowHelm.Orchestrator.HealthChains

open Parties Runs

/-- The loop of a `start`: the target that is checked and those behind it. -/
structure Loop where
  target : String
  rest : List String
  deriving DecidableEq

structure St where
  running : Bool
  /-- The targets whose timer is pending and held. -/
  timers : List String
  /-- Those of timers that are pending and not held any more. -/
  lost : List String
  /-- The checks in flight that a timer began. -/
  checks : List String
  starts : List Loop
  /-- A check began while the monitor was stopped. -/
  late : Bool
  deriving DecidableEq

inductive Ev where
  | start
  | stop
  | fire (name : String)
  | fireLost (i : Nat)
  /-- The `i`th check of a timer is over, with a restart if one was tried. -/
  | checked (i : Nat)
  /-- The check of the `i`th `start`. -/
  | startChecked (i : Nat)
  deriving DecidableEq

/-! ## The monitor -/

def scheduleNext (s : St) (name : String) : St :=
  if !s.running then s
  else if name ∈ s.timers then { s with lost := s.lost ++ [name] }
  else { s with timers := s.timers ++ [name] }

/-- The callback of a timer. -/
def callback (s : St) (name : String) : St :=
  if !s.running then s else { s with checks := s.checks ++ [name] }

/-- `for (const target of this.targets)`. -/
def next : List String → Option Loop
  | [] => none
  | target :: rest => some ⟨target, rest⟩

/-- `late`, where a loop checks a target or is over. -/
def begun (s : St) : Option Loop → Bool
  | none => s.late
  | some _ => s.late || !s.running

def step (targets : List String) (s : St) : Ev → Option St
  | .start =>
    let s := { s with running := true }
    let loop := next targets
    some { s with starts := s.starts ++ loop.toList, late := begun s loop }
  | .stop => some { s with running := false, timers := [] }
  | .fire name => if name ∈ s.timers then some (callback { s with timers := s.timers.erase name } name) else none
  | .fireLost i => match s.lost[i]? with
    | some name => some (callback { s with lost := put s.lost i none } name)
    | none => none
  | .checked i => match s.checks[i]? with
    | some name => some (scheduleNext { s with checks := put s.checks i none } name)
    | none => none
  | .startChecked i => match s.starts[i]? with
    | some loop =>
      let s := scheduleNext s loop.target
      let loop := next loop.rest
      some { s with starts := put s.starts i loop, late := begun s loop }
    | none => none

def St.init : St := ⟨false, [], [], [], [], false⟩

def monitor (targets : List String) : System St Ev := ⟨St.init, step targets⟩

/-! ## Chains -/

def chains (s : St) (name : String) : Nat :=
  s.timers.count name + s.lost.count name + s.checks.count name + (s.starts.map Loop.target).count name

/-- One timer or check of a target at most, and no check that began while the monitor was
    stopped. -/
structure Kept (s : St) : Prop where
  one : ∀ name, chains s name ≤ 1
  quiet : s.late = false

/-- Where a `start` goes on, the monitor runs and the target has neither timer nor check. -/
def Clear (s : St) : Option Loop → Prop
  | none => True
  | some loop => s.running = true ∧ chains s loop.target = 0

instance decidableClear (s : St) : (loop : Option Loop) → Decidable (Clear s loop)
  | none => inferInstanceAs (Decidable True)
  | some loop => inferInstanceAs (Decidable (s.running = true ∧ chains s loop.target = 0))

def InTurn (targets : List String) (s : St) : Ev → Prop
  | .start => Clear { s with running := true } (next targets)
  | .startChecked i => ∀ loop ∈ s.starts[i]?, Clear s (next loop.rest)
  | _ => True

instance decidableInTurn (targets : List String) (s : St) : (e : Ev) → Decidable (InTurn targets s e)
  | .start => inferInstanceAs (Decidable (Clear { s with running := true } (next targets)))
  | .startChecked i => inferInstanceAs (Decidable (∀ loop ∈ s.starts[i]?, Clear s (next loop.rest)))
  | .stop | .fire _ | .fireLost _ | .checked _ => inferInstanceAs (Decidable True)

/-! ## What a step adds -/

theorem chains_scheduleNext (s : St) (name x : String) :
    chains (scheduleNext s name) x = chains s x + if s.running = true then [name].count x else 0 := by
  unfold scheduleNext
  cases hrunning : s.running with
  | false => simp
  | true =>
    simp only [Bool.not_true, Bool.false_eq_true, if_false, if_true]
    split
    all_goals
      simp only [chains, List.count_append]
      omega

theorem scheduleNext_same (s : St) (name : String) :
    (scheduleNext s name).running = s.running ∧ (scheduleNext s name).starts = s.starts ∧
      (scheduleNext s name).late = s.late := by
  unfold scheduleNext
  split
  · exact ⟨rfl, rfl, rfl⟩
  · split <;> exact ⟨rfl, rfl, rfl⟩

theorem chains_callback (s : St) (name x : String) :
    chains (callback s name) x = chains s x + if s.running = true then [name].count x else 0 := by
  unfold callback
  cases hrunning : s.running with
  | false => simp
  | true =>
    simp only [Bool.not_true, Bool.false_eq_true, if_false, if_true, chains, List.count_append]
    omega

/-- A list that an entry leaves. -/
theorem count_put_none {l : List String} {i : Nat} {name : String} (h : l[i]? = some name) (x : String) :
    (put l i none).count x + [name].count x = l.count x := by
  simpa using count_put id h none x

theorem count_erase_add {l : List String} {name : String} (h : name ∈ l) (x : String) :
    (l.erase name).count x + [name].count x = l.count x := by
  have hperm := (List.perm_cons_erase h).count_eq x
  rw [List.count_cons] at hperm
  rw [List.count_singleton]
  exact hperm.symm

/-- A chain of `name` beside those of `s` is one too many just where there is one. -/
theorem one_add_iff (name : String) {s t : St} (h : ∀ x, chains s x ≤ 1)
    (ht : ∀ x, chains t x = chains s x + [name].count x) : (∀ x, chains t x ≤ 1) ↔ chains s name = 0 := by
  constructor
  · intro hone
    have hname := hone name
    rw [ht, List.count_singleton_self] at hname
    omega
  · intro hzero x
    rw [ht]
    by_cases hx : x = name
    · subst hx
      have hself : [x].count x = 1 := List.count_singleton_self
      omega
    · rw [List.count_singleton, if_neg (by simpa using Ne.symm hx)]
      exact h x

/-! ## Steps -/

/-- A check or a timer that gives way to the next of its chain adds none. -/
theorem one_of_le {s t : St} (h : ∀ x, chains s x ≤ 1) (ht : ∀ x, chains t x ≤ chains s x) : ∀ x, chains t x ≤ 1 :=
  fun x => Nat.le_trans (ht x) (h x)

/-- A timer of `name` that fires leaves its place to a check, or to nothing. -/
theorem kept_callback {s u : St} {name : String} (h : Kept s) (hu : ∀ x, chains u x + [name].count x = chains s x)
    (hlate : u.late = s.late) : Kept (callback u name) := by
  refine ⟨one_of_le h.one fun x => ?_, ?_⟩
  · have hx := hu x
    rw [chains_callback]
    split <;> omega
  · unfold callback
    split <;> exact hlate.trans h.quiet

/-- A loop that checks `next` behind a state without its old check. -/
theorem kept_next {s t : St} {loop : Option Loop} (hone : ∀ x, chains s x ≤ 1) (hquiet : s.late = false)
    (ht : ∀ x, chains t x = chains s x + (loop.toList.map Loop.target).count x) (hlate : t.late = begun s loop) :
    Kept t ↔ Clear s loop := by
  cases loop with
  | none =>
    refine iff_of_true ⟨fun x => ?_, by rw [hlate, begun, hquiet]⟩ trivial
    rw [ht]
    exact hone x
  | some loop =>
    have hiff := one_add_iff loop.target hone ht
    simp only [begun, hquiet, Bool.false_or] at hlate
    constructor
    · intro h
      have hrunning := h.quiet
      rw [hlate, Bool.not_eq_false'] at hrunning
      exact ⟨hrunning, hiff.mp h.one⟩
    · rintro ⟨hrunning, hzero⟩
      exact ⟨hiff.mpr hzero, by rw [hlate, hrunning]; rfl⟩

/-- A loop behind its check, at `o`. -/
def behind (s : St) (i : Nat) (loop : Loop) (o : Option Loop) : St :=
  { scheduleNext s loop.target with starts := put (scheduleNext s loop.target).starts i o }

/-- The timer of its target takes the place of the check, or nothing does. -/
theorem chains_behind {s : St} {i : Nat} {loop : Loop} (h : s.starts[i]? = some loop) (o : Option Loop) (x : String) :
    chains (behind s i loop o) x + [loop.target].count x =
      chains s x + (if s.running = true then [loop.target].count x else 0) + (o.toList.map Loop.target).count x := by
  have hstarts := (scheduleNext_same s loop.target).2.1
  have hsum := chains_scheduleNext s loop.target x
  have hput := count_put Loop.target h o x
  simp only [behind, chains, hstarts] at hsum ⊢
  omega

/-- What the next target of a loop needs does not change with its timer. -/
theorem clear_behind {s : St} {i : Nat} {loop : Loop} (h : s.starts[i]? = some loop) (o : Option Loop) :
    Clear (behind s i loop none) o ↔ Clear s o := by
  cases o with
  | none => exact Iff.rfl
  | some l =>
    have hrunning : (behind s i loop none).running = s.running := (scheduleNext_same s loop.target).1
    have hsum := chains_behind h none l.target
    simp only [Clear, hrunning]
    refine and_congr_right fun hr => ?_
    rw [if_pos hr] at hsum
    simp only [Option.toList_none, List.map_nil, List.count_nil] at hsum
    omega

/-- A loop whose check is over goes on to `o`, or ends. -/
theorem kept_behind {s t : St} {i : Nat} {loop : Loop} {o : Option Loop} (h : Kept s) (hloop : s.starts[i]? = some loop)
    (hlate : t.late = begun (scheduleNext s loop.target) o) (ht : ∀ x, chains t x = chains (behind s i loop o) x) :
    Kept t ↔ Clear s o := by
  rw [← clear_behind hloop]
  refine kept_next (s := behind s i loop none) (one_of_le h.one fun x => ?_) ?_ (fun x => ?_) hlate
  · have hnone := chains_behind hloop none x
    simp only [Option.toList_none, List.map_nil, List.count_nil] at hnone
    split at hnone <;> omega
  · exact (scheduleNext_same s loop.target).2.2.trans h.quiet
  · have hnone := chains_behind hloop none x
    have hsome := chains_behind hloop o x
    simp only [Option.toList_none, List.map_nil, List.count_nil] at hnone
    rw [ht]
    omega

/-- A step keeps the rule just if it meets the condition. -/
theorem step_kept {targets : List String} {s t : St} {e : Ev} (h : Kept s) (hs : step targets s e = some t) :
    Kept t ↔ InTurn targets s e := by
  cases e with
  | start =>
    rw [step] at hs
    obtain rfl := Option.some.inj hs
    refine kept_next (s := { s with running := true }) h.one h.quiet (fun x => ?_) rfl
    simp only [chains, List.map_append, List.count_append]
    omega
  | stop =>
    obtain rfl := Option.some.inj hs
    refine iff_of_true ⟨one_of_le h.one fun x => ?_, h.quiet⟩ trivial
    simp only [chains, List.count_nil]
    omega
  | fire name =>
    rw [step] at hs
    split at hs
    · rename_i hmem
      obtain rfl := Option.some.inj hs
      refine iff_of_true (kept_callback (s := s) h (fun x => ?_) rfl) trivial
      have herase := count_erase_add hmem x
      simp only [chains]
      omega
    · cases hs
  | fireLost i =>
    rw [step] at hs
    split at hs
    · rename_i name hname
      obtain rfl := Option.some.inj hs
      refine iff_of_true (kept_callback (s := s) h (fun x => ?_) rfl) trivial
      have hput := count_put_none hname x
      simp only [chains]
      omega
    · cases hs
  | checked i =>
    rw [step] at hs
    split at hs
    · rename_i name hname
      obtain rfl := Option.some.inj hs
      refine iff_of_true ⟨one_of_le h.one fun x => ?_, ?_⟩ trivial
      · have hput := count_put_none hname x
        rw [chains_scheduleNext]
        simp only [chains]
        split <;> omega
      · rw [(scheduleNext_same _ _).2.2]
        exact h.quiet
    · cases hs
  | startChecked i =>
    rw [step] at hs
    split at hs
    · rename_i loop hloop
      obtain rfl := Option.some.inj hs
      have hturn : InTurn targets s (.startChecked i) ↔ Clear s (next loop.rest) := by simp [InTurn, hloop]
      rw [hturn]
      exact kept_behind h hloop rfl (fun x => rfl)
    · cases hs

/-- In a run of such steps every target has one chain at most and no check begins of a monitor that
    was stopped; the first other step breaks that. -/
theorem one_chain (targets : List String) {s : St} (h : Reach (monitor targets) (InTurn targets) s) :
    Kept s ∧ ∀ e t, step targets s e = some t → (Kept t ↔ InTurn targets s e) := by
  refine h.keeps_iff (I := Kept) ⟨fun _ => by simp [monitor, St.init, chains], rfl⟩ fun s e t hs hst => ?_
  exact step_kept hs hst

/-! ## Runs -/

def targets : List String := ["proxy", "database"]

def started : List Ev := [.start, .startChecked 0, .startChecked 0]

/-- A monitor is stopped while a check of a timer is in flight, and started when it is over. -/
theorem a_restart_has_one_chain : ∃ s, Reach (monitor targets) (InTurn targets) s ∧ Kept s ∧ s.running = true ∧
    s.timers = targets := by
  obtain ⟨s, hs, hrun⟩ := reach_any (M := monitor targets) (C := InTurn targets)
    (P := fun s => decide (s.running = true ∧ s.timers = targets))
    (started ++ [.fire "proxy", .stop, .checked 0] ++ started) (by decide) (by decide)
  exact ⟨s, hs, (one_chain targets hs).1, of_decide_eq_true hrun⟩

/-- A monitor is stopped and started while a check of a timer is in flight: the check goes on with
    its chain beside the new one. -/
theorem a_check_outlives_a_restart : ∃ s, Reach (monitor targets) Free s ∧ s.timers.count "proxy" = 1 ∧
    s.lost.count "proxy" = 1 ∧ ¬Kept s := by
  obtain ⟨s, hs, hrun⟩ := reach_any (M := monitor targets) (C := Free)
    (P := fun s => decide (s.timers.count "proxy" = 1 ∧ s.lost.count "proxy" = 1 ∧ ¬chains s "proxy" ≤ 1))
    (started ++ [.fire "proxy", .stop] ++ started ++ [.checked 0]) (meets_free ..) (by decide)
  have htwo := of_decide_eq_true hrun
  exact ⟨s, hs, htwo.1, htwo.2.1, fun h => htwo.2.2 (h.one "proxy")⟩

/-- A monitor is stopped while `start` checks its first target: the second is checked after it. -/
theorem a_start_outlives_the_stop : ∃ s, Reach (monitor targets) Free s ∧ s.running = false ∧
    s.starts = [⟨"database", []⟩] ∧ ¬Kept s := by
  obtain ⟨s, hs, hrun⟩ := reach_any (M := monitor targets) (C := Free)
    (P := fun s => decide (s.running = false ∧ s.starts = [⟨"database", []⟩] ∧ ¬s.late = false))
    [.start, .stop, .startChecked 0] (meets_free ..) (by decide)
  have hlate := of_decide_eq_true hrun
  exact ⟨s, hs, hlate.1, hlate.2.1, fun h => hlate.2.2 h.quiet⟩

end FlowHelm.Orchestrator.HealthChains
