/-
  FlowHelm.Container.Supervision — an always-on container and its manager: `start` brings it up, a
  timer checks it and brings it up again, `stop` takes it down.

  Between two awaits of a call anything else may run: a check that the timer began a while ago, a
  `stop` of the shutdown, another check. The container dies when it likes, and the lifecycle
  manager's sweep may remove it. `stop` clears the timer in the step in which it is called.

  - `stays_down_iff`: after which states the container does not come back until `start` is called.
  - `checks_end_running`: however checks overlap, where the CLI works they leave the container
    running.
-/
import FlowHelm.Container.Managers
import FlowHelm.Lib.Parties
import FlowHelm.Lib.Runs

namespace FlowHelm.Container.Supervision

open Parties Runs Script Prog

/-! ## Runs -/

inductive Call where
  | start
  | stop
  | healthCheck
  deriving DecidableEq

/-- A call in flight, and what is left of it. -/
structure Task where
  call : Call
  rest : Await Unit

structure St where
  host : Host
  tasks : List Task

inductive Ev where
  | start (polls : Nat)
  | stop
  /-- The timer fires. -/
  | fire (polls : Nat)
  /-- The `i`th call in flight goes on, by what became of what it awaits. -/
  | step (i : Nat) (d : Did Op Ans)
  | finish (i : Nat)
  | dies
  /-- The lifecycle manager removes the container. -/
  | swept

/-- What does not throw cannot fail. -/
def Possible : Did Op Ans → Prop
  | .ran .. => True
  | .refused o | .lost o _ => o.throws = true

instance : (d : Did Op Ans) → Decidable (Possible d)
  | .ran .. => inferInstanceAs (Decidable True)
  | .refused o | .lost o _ => inferInstanceAs (Decidable (o.throws = true))

def spawn (s : St) (call : Call) (program : Await Unit) : St := { s with tasks := s.tasks ++ [⟨call, program⟩] }

def step (m : Manager) (s : St) : Ev → Option St
  | .start polls => some (spawn s .start (m.start polls))
  | .stop => some (spawn { s with host := { s.host with timer := false } } .stop Manager.stop)
  | .fire polls => if s.host.timer then some (spawn s .healthCheck (m.healthCheck polls)) else none
  | .step i d => match s.tasks[i]? with
    | some task =>
      if Possible d then
        (advance podman task.rest s.host d).map fun (rest, host) => ⟨host, put s.tasks i (some { task with rest := rest })⟩
      else none
    | none => none
  | .finish i => match s.tasks[i]? with
    | some task => if task.rest.isDone then some { s with tasks := put s.tasks i none } else none
    | none => none
  | .dies => if s.host.container = some .running then some { s with host := { s.host with container := some .exited } } else none
  | .swept => some { s with host := { s.host with container := none } }

/-- The container may be there from before, in any state. -/
def system (m : Manager) (found : Option ContainerState) : System St Ev := ⟨⟨⟨found, false⟩, []⟩, step m⟩

/-! ## Every run -/

/-- What every call in flight is. -/
def Shape (task : Task) : Prop :=
  match task.call with
  | .stop => task.rest.All Spent
  | .start | .healthCheck => task.rest.All Form

variable {m : Manager} {found : Option ContainerState}

theorem step_step {s t : St} {i : Nat} {d : Did Op Ans} (h : step m s (.step i d) = some t) :
    ∃ task rest host pre post, s.tasks[i]? = some task ∧ s.tasks = pre ++ task :: post ∧ Possible d ∧
      advance podman task.rest s.host d = some (rest, host) ∧ t = ⟨host, pre ++ { task with rest := rest } :: post⟩ := by
  simp only [step] at h
  split at h
  · rename_i task hi
    obtain ⟨pre, post, hl, hput⟩ := put_splits hi
    split at h
    · rename_i hd
      obtain ⟨⟨rest, host⟩, ha, rfl⟩ := Option.map_eq_some_iff.mp h
      exact ⟨task, rest, host, pre, post, hi, hl, hd, ha, by rw [hput]; rfl⟩
    · cases h
  · cases h

section

variable {s : St} {i : Nat} {call : Call} {o : Op} {k : Ans o → Await Unit} {err : Fault → Await Unit}

theorem step_ran {a : Ans o} {t : Host} (hi : s.tasks[i]? = some ⟨call, .op o k err⟩) (hx : cli o s.host a = some t) :
    step m s (.step i (.ran o a)) = some ⟨t, put s.tasks i (some ⟨call, k a⟩)⟩ := by
  have ha : advance podman (.op o k err) s.host (.ran o a) = some (k a, t) := advance_ran hx
  simp only [step, hi, Possible, if_true, ha, Option.map_some]

theorem step_refused (hi : s.tasks[i]? = some ⟨call, .op o k err⟩) (ho : o.throws = true) :
    step m s (.step i (.refused o)) = some ⟨s.host, put s.tasks i (some ⟨call, err .refused⟩)⟩ := by
  simp [step, hi, Possible, ho, advance]

end

theorem step_finish {s t : St} {i : Nat} (h : step m s (.finish i) = some t) :
    ∃ task pre post, s.tasks = pre ++ task :: post ∧ task.rest.isDone = true ∧ t = { s with tasks := pre ++ post } := by
  simp only [step] at h
  split at h
  · rename_i task hi
    obtain ⟨pre, post, hl, hput⟩ := put_splits hi
    split at h
    · rename_i hd
      cases h
      exact ⟨task, pre, post, hl, hd, by rw [hput]; rfl⟩
    · cases h
  · cases h

theorem step_fire {s t : St} {polls : Nat} (h : step m s (.fire polls) = some t) :
    s.host.timer = true ∧ t = spawn s .healthCheck (m.healthCheck polls) := by
  simp only [step] at h
  split at h
  · rename_i htimer
    cases h
    exact ⟨htimer, rfl⟩
  · cases h

theorem step_dies {s t : St} (h : step m s .dies = some t) :
    s.host.container = some .running ∧ t = { s with host := { s.host with container := some .exited } } := by
  simp only [step] at h
  split at h
  · rename_i hrunning
    cases h
    exact ⟨hrunning, rfl⟩
  · cases h

theorem forall_spawn {P : Task → Prop} {s : St} {call : Call} {program : Await Unit} (hs : ∀ task ∈ s.tasks, P task)
    (h : P ⟨call, program⟩) : ∀ task ∈ (spawn s call program).tasks, P task := by
  intro task ht
  rcases List.mem_append.mp ht with ht | ht
  · exact hs task ht
  · obtain rfl := List.mem_singleton.mp ht
    exact h

def Shaped (s : St) : Prop := ∀ task ∈ s.tasks, Shape task

theorem Shape.advance {task : Task} {host host' : Host} {d : Did Op Ans} {rest : Await Unit} (h : Shape task)
    (ha : advance podman task.rest host d = some (rest, host')) : Shape { task with rest := rest } := by
  obtain ⟨call, program⟩ := task
  cases call with
  | stop => exact All.advance h ha
  | start | healthCheck => exact All.advance h ha

theorem shaped_step {s t : St} {e : Ev} (hs : Shaped s) (h : step m s e = some t) : Shaped t := by
  cases e with
  | start polls =>
    cases h
    exact forall_spawn hs (m.all_start polls).1
  | stop =>
    cases h
    exact forall_spawn hs Manager.all_stop
  | fire polls =>
    obtain ⟨-, rfl⟩ := step_fire h
    exact forall_spawn hs (m.all_healthCheck polls).1
  | step i d =>
    obtain ⟨task, rest, host, pre, post, hi, hl, -, ha, rfl⟩ := step_step h
    intro x hx
    rcases mem_moved hl hx with rfl | hx
    · exact (hs task (List.mem_of_getElem? hi)).advance ha
    · exact hs x hx
  | finish i =>
    obtain ⟨task, pre, post, hl, -, rfl⟩ := step_finish h
    intro x hx
    exact hs x (mem_others hl hx)
  | dies =>
    obtain ⟨-, rfl⟩ := step_dies h
    exact hs
  | swept =>
    cases h
    exact hs

theorem shaped {s : St} (h : Reach (system m found) Free s) : Shaped s := by
  refine h.inv ?_ ?_
  · intro task ht
    cases ht
  · intro s e t _ hs _ he
    exact shaped_step hs he

/-! ## Behind a stop -/

/-- The event is a call of `start`. -/
def Ev.asks : Ev → Bool
  | .start _ => true
  | _ => false

/-- Until `start` is called there is no container. -/
def Down (m : Manager) (found : Option ContainerState) (s : St) : Prop :=
  ∀ es t, (∀ e ∈ es, e.asks = false) → exec (system m found) s es = some t → t.host.container = none

structure Gone (s : St) : Prop where
  container : s.host.container = none
  timer : s.host.timer = false
  spent : ∀ task ∈ s.tasks, Spent task.rest

theorem Gone.spawned {s : St} (h : Gone s) {call : Call} {program : Await Unit} (hp : Spent program) :
    Gone (spawn s call program) :=
  ⟨h.container, h.timer, forall_spawn (P := fun task => Spent task.rest) h.spent hp⟩

theorem Spent.advance {p q : Await Unit} {s t : Host} {d : Did Op Ans} (hp : Spent p) (hs : s.container = none)
    (hd : Possible d) (h : advance podman p s d = some (q, t)) : Spent q ∧ t.container = none ∧ t.timer = s.timer := by
  cases p with
  | ret a => exact (advance_done rfl h).elim
  | throw e => exact (advance_done rfl h).elim
  | op o k err =>
    obtain ⟨hcreate, harm, hk, herr⟩ := hp
    rcases advance_op h with ⟨a, rfl, hx, rfl⟩ | ⟨rfl, rfl, rfl⟩ | ⟨a, rfl, hx, rfl⟩
    · obtain ⟨ha, hcontainer, htimer⟩ := cli_gone hs hx
      exact ⟨hk a ha, hcontainer hcreate, htimer harm⟩
    · exact ⟨herr hd .refused, hs, rfl⟩
    · obtain ⟨_, hcontainer, htimer⟩ := cli_gone hs hx
      exact ⟨herr hd .lost, hcontainer hcreate, htimer harm⟩

theorem gone_step {s t : St} {e : Ev} (hs : Gone s) (he : e.asks = false) (h : step m s e = some t) : Gone t := by
  cases e with
  | start polls => cases he
  | stop =>
    cases h
    have hcleared : Gone { s with host := { s.host with timer := false } } := ⟨hs.container, rfl, hs.spent⟩
    exact hcleared.spawned Manager.all_stop.self
  | fire polls => cases hs.timer.symm.trans (step_fire h).1
  | step i d =>
    obtain ⟨task, rest, host, pre, post, hi, hl, hd, ha, rfl⟩ := step_step h
    obtain ⟨hrest, hcontainer, htimer⟩ := (hs.spent task (List.mem_of_getElem? hi)).advance hs.container hd ha
    refine ⟨hcontainer, htimer.trans hs.timer, ?_⟩
    intro x hx
    rcases mem_moved hl hx with rfl | hx
    · exact hrest
    · exact hs.spent x hx
  | finish i =>
    obtain ⟨task, pre, post, hl, -, rfl⟩ := step_finish h
    exact ⟨hs.container, hs.timer, fun x hx => hs.spent x (mem_others hl hx)⟩
  | dies => cases hs.container.symm.trans (step_dies h).1
  | swept =>
    cases h
    exact ⟨rfl, hs.timer, hs.spent⟩

theorem Gone.down {s : St} (hs : Gone s) : Down m found s := by
  intro es
  induction es generalizing s with
  | nil =>
    intro t _ h
    cases h
    exact hs.container
  | cons e es ih =>
    intro t hes h
    simp only [exec] at h
    cases hst : (system m found).step s e with
    | none => simp [hst] at h
    | some u =>
      rw [hst] at h
      exact ih (gone_step hs (hes e (.head _)) hst) t (fun f hf => hes f (.tail _ hf)) h

theorem Down.step {s t : St} {e : Ev} (hs : Down m found s) (he : e.asks = false) (h : step m s e = some t) : Down m found t := by
  intro es u hes hu
  refine hs (e :: es) u ?_ ?_
  · exact List.forall_mem_cons.mpr ⟨he, hes⟩
  · simp only [exec, system, h]
    exact hu

/-- A call that may come to create a container does so when nothing else happens. -/
theorem not_down_creates {s : St} {i : Nat} {call : Call} {p : Await Unit} (hi : s.tasks[i]? = some ⟨call, p⟩)
    (hs : s.host.container = none) (hp : Creates p) : ¬Down m found s := by
  induction p generalizing s with
  | ret a => exact hp.elim
  | throw e => exact hp.elim
  | op o k err ihk ihe =>
    intro hdown
    obtain ⟨hi', -⟩ := List.getElem?_eq_some_iff.mp hi
    have hset : ∀ q, (put s.tasks i (some ⟨call, q⟩))[i]? = some (⟨call, q⟩ : Task) := fun q => List.getElem?_set_self hi'
    by_cases ho : o = .create
    · subst ho
      have hcreated : cli .create s.host () = some { s.host with container := some .created } := by
        simp only [cli, hs]
      have hback := hdown.step rfl (step_ran hi hcreated) [] _ (List.forall_mem_nil _) rfl
      cases hback
    rcases hp with hp | ⟨a, ha, hp⟩ | ⟨hnone, hp⟩
    · exact ho hp
    · obtain ⟨t, ht, hcontainer⟩ := cli_answerGone hs ha ho
      exact ihk a (hset _) hcontainer hp (hdown.step rfl (step_ran hi ht))
    · have hstep := hdown.step rfl (step_refused hi (throws_gone hnone))
      exact ihe .refused (s := ⟨s.host, put s.tasks i (some ⟨call, err .refused⟩)⟩) (hset _) hs hp hstep

/-- So does a timer that is set. -/
theorem not_down_timer {s : St} (hs : s.host.container = none) (htimer : s.host.timer = true) : ¬Down m found s := by
  intro hdown
  have hstep : step m s (.fire 0) = some (spawn s .healthCheck (m.healthCheck 0)) := if_pos htimer
  have hlast : (spawn s .healthCheck (m.healthCheck 0)).tasks[s.tasks.length]? = some ⟨.healthCheck, m.healthCheck 0⟩ :=
    List.getElem?_concat_length ..
  exact not_down_creates hlast hs (m.all_healthCheck 0).2 (hdown.step rfl hstep)

/-- And a call that is about to set it. -/
theorem not_down_arms {s : St} {i : Nat} {task : Task} (hi : s.tasks[i]? = some task) (hs : s.host.container = none)
    (hp : next task.rest = some .startHealthChecks) : ¬Down m found s := by
  intro hdown
  obtain ⟨call, p⟩ := task
  cases p with
  | ret a => cases hp
  | throw e => cases hp
  | op o k err =>
    obtain rfl := Option.some.inj hp
    have harmed := hdown.step rfl (step_ran (a := ()) hi rfl)
    exact not_down_timer (s := ⟨{ s.host with timer := true }, put s.tasks i (some ⟨call, k ()⟩)⟩) hs rfl harmed

/-- Whatever has been called, fired or failed: the container is gone until the next `start` just if
    it is gone, no timer is set, and each `start` and each check in flight is behind its `create`
    and not about to set the timer. -/
theorem stays_down_iff {s : St} (h : Reach (system m found) Free s) :
    Down m found s ↔ s.host.container = none ∧ s.host.timer = false ∧
      ∀ task ∈ s.tasks, task.call = .stop ∨ Past (next task.rest) := by
  have hshaped := shaped h
  constructor
  · intro hdown
    have hs : s.host.container = none := hdown [] s (fun _ h => nomatch h) rfl
    refine ⟨hs, Bool.eq_false_iff.mpr fun htimer => not_down_timer hs htimer hdown, ?_⟩
    intro task ht
    by_contra hno
    obtain ⟨hcall, hpast⟩ := not_or.mp hno
    obtain ⟨i, hi⟩ := List.getElem?_of_mem ht
    have hform : task.rest.All Form := by
      have hshape := hshaped task ht
      unfold Shape at hshape
      split at hshape
      · contradiction
      · exact hshape
      · exact hshape
    rcases hform.self.before hpast with hcreates | harms
    · exact not_down_creates hi hs hcreates hdown
    · exact not_down_arms hi hs harms hdown
  · rintro ⟨hs, htimer, htasks⟩
    refine Gone.down ⟨hs, htimer, ?_⟩
    intro task ht
    have hshape := hshaped task ht
    unfold Shape at hshape
    split at hshape
    · exact hshape.self
    · rename_i hcall
      exact hshape.self.past ((htasks task ht).resolve_left fun h => nomatch hcall.symm.trans h)
    · rename_i hcall
      exact hshape.self.past ((htasks task ht).resolve_left fun h => nomatch hcall.symm.trans h)

/-- A container found running, and dead since. -/
def died : List Ev :=
  [.start 0, .step 0 (.ran .containerExists true), .step 0 (.ran .isHealthy true), .step 0 (.ran .startHealthChecks ()),
    .finish 0, .dies]

/-- A check under way when `stop` is called has seen nothing of it. -/
theorem a_check_outlives_the_stop :
    ∃ s, Reach (system (proxyManager "u") (some .running)) Free s ∧ s.host = ⟨none, false⟩ ∧
      ¬Down (proxyManager "u") (some .running) s := by
  have hreach : Reach (system (proxyManager "u") (some .running)) Free
      ⟨⟨none, false⟩, [⟨.healthCheck, (proxyManager "u").healthCheck 1⟩]⟩ :=
    reach_of_exec (died ++ [.fire 1, .stop, .step 1 (.ran .containerExists true), .step 1 (.ran (.stop 10) ()),
      .step 1 (.ran .remove ()), .finish 1]) (meets_free _ _) rfl
  refine ⟨_, hreach, rfl, ?_⟩
  intro hdown
  obtain ⟨-, -, htasks⟩ := (stays_down_iff hreach).mp hdown
  rcases htasks _ (.head _) with hcall | hpast
  · cases hcall
  · exact hpast

/-! ## Checks side by side -/

def Truth : (o : Op) → Host → Ans o → Prop
  | .containerExists, s, answer => answer = s.container.isSome
  | .isHealthy, s, answer => answer = decide (s.container = some .running)
  | .stop _, _, _ | .remove, _, _ | .create, _, _ | .start, _, _ | .host _, _, _ | .probe, _, _ | .startHealthChecks, _, _ => True

/-- The CLI says what is so, and refuses just what cannot be done. -/
def Right (s : Host) : Did Op Ans → Prop
  | .ran o a => Truth o s a
  | .refused o => ∀ a, cli o s a = none
  | .lost .. => False

/-- The CLI works, the container does not die, and nobody takes it down. -/
def Works (s : St) : Ev → Prop
  | .step i d => Right s.host d ∧ ∀ task ∈ s.tasks[i]?, task.call ≠ .stop
  | .stop | .dies | .swept => False
  | .start _ | .fire _ | .finish _ => True

/-- A call that, should nobody else, brings the container up. -/
def Owes (s : Host) (task : Task) : Prop :=
  task.call ≠ .stop ∧ (Looking (next task.rest) ∨ (s.container = none ∧ Building (next task.rest)) ∨
    (s.container ≠ none ∧ next task.rest = some .start))

def Owed (s : St) : Prop := s.host.container = some .running ∨ ∃ task ∈ s.tasks, Owes s.host task

/-- A call that waits for something else owes nothing. -/
theorem not_owes {task : Task} {s : Host} (hlooking : ¬Looking (next task.rest))
    (hbuilding : s.container = none → ¬Building (next task.rest))
    (hstart : s.container ≠ none → next task.rest ≠ some .start) : ¬Owes s task := by
  rintro ⟨-, h | ⟨hs, h⟩ | ⟨hs, h⟩⟩
  · exact hlooking h
  · exact hbuilding hs h
  · exact hstart hs h

/-- What a call that goes on leaves: the container runs, or the call owes it, or the container is as
    before and the call owed nothing. -/
theorem owes_ran {call : Call} {o : Op} {k : Ans o → Await Unit} {err : Fault → Await Unit} {s t : Host} {a : Ans o}
    (hcall : call ≠ .stop) (hform : Onward (.op o k err)) (hd : Truth o s a) (hx : cli o s a = some t) :
    t.container = some .running ∨ Owes t ⟨call, k a⟩ ∨ (t.container = s.container ∧ ¬Owes s ⟨call, .op o k err⟩) := by
  cases o with
  | containerExists =>
    obtain rfl : s = t := by
      simp only [cli] at hx
      split at hx <;> cases hx
      rfl
    obtain rfl : a = s.container.isSome := hd
    cases hfound : s.container with
    | none => exact Or.inr (Or.inl ⟨hcall, Or.inr (Or.inl ⟨hfound, hform.2⟩)⟩)
    | some state => exact Or.inr (Or.inl ⟨hcall, Or.inl hform.1⟩)
  | isHealthy =>
    obtain rfl : s = t := by
      simp only [cli] at hx
      split at hx <;> cases hx
      rfl
    obtain rfl : a = decide (s.container = some .running) := hd
    by_cases hrunning : s.container = some .running
    · exact Or.inl hrunning
    · rw [decide_eq_false hrunning]
      exact Or.inr (Or.inl ⟨hcall, Or.inl hform⟩)
  | stop timeout => exact Or.inr (Or.inl ⟨hcall, Or.inl hform.1⟩)
  | remove =>
    cases hx
    exact Or.inr (Or.inl ⟨hcall, Or.inr (Or.inl ⟨rfl, hform⟩)⟩)
  | create =>
    simp only [cli] at hx
    split at hx
    · cases hx
      exact Or.inr (Or.inl ⟨hcall, Or.inr (Or.inr ⟨Option.some_ne_none _, hform⟩)⟩)
    · cases hx
  | start =>
    obtain ⟨_, -, rfl⟩ := Option.map_eq_some_iff.mp hx
    exact Or.inl rfl
  | host what =>
    cases hx
    cases hgone : s.container with
    | none => exact Or.inr (Or.inl ⟨hcall, Or.inr (Or.inl ⟨hgone, hform⟩)⟩)
    | some state =>
      refine Or.inr (Or.inr ⟨rfl, not_owes id ?_ (fun _ h => by cases h)⟩)
      intro hnone
      cases hgone.symm.trans hnone
  | probe =>
    obtain rfl : s = t := by
      simp only [cli] at hx
      split at hx <;> cases hx
      rfl
    exact Or.inr (Or.inr ⟨rfl, not_owes id (fun _ => id) (fun _ h => by cases h)⟩)
  | startHealthChecks =>
    cases hx
    exact Or.inr (Or.inr ⟨rfl, not_owes id (fun _ => id) (fun _ h => by cases h)⟩)

/-- Where it is refused it loses a `create` to a container that is there, or a `start` to none. -/
theorem owes_refused {call : Call} {o : Op} {k : Ans o → Await Unit} {err : Fault → Await Unit} {s : Host}
    (hcall : call ≠ .stop) (hform : Onward (.op o k err)) (hd : ∀ a, cli o s a = none) :
    Owes s ⟨call, err .refused⟩ ∨ ¬Owes s ⟨call, .op o k err⟩ := by
  cases o with
  | containerExists | isHealthy | probe => cases hd false
  | remove | host | startHealthChecks => cases hd ()
  | stop timeout => exact Or.inl ⟨hcall, Or.inl (hform.2 _)⟩
  | create =>
    refine Or.inr (not_owes id ?_ (fun _ => nofun))
    intro hnone
    have hcreate := hd ()
    simp only [cli, hnone] at hcreate
    cases hcreate
  | start =>
    refine Or.inr (not_owes id (fun _ => id) ?_)
    intro hsome
    exact (hsome (Option.map_eq_none_iff.mp (hd ()))).elim

theorem shape_form {task : Task} (h : Shape task) (hcall : task.call ≠ .stop) : task.rest.All Form := by
  unfold Shape at h
  split at h
  · contradiction
  · exact h
  · exact h

theorem Owed.spawned {s : St} (h : Owed s) (call : Call) (program : Await Unit) : Owed (spawn s call program) := by
  refine h.imp id ?_
  rintro ⟨task, ht, howes⟩
  exact ⟨task, List.mem_append_left _ ht, howes⟩

theorem Owes.same {s t : Host} {task : Task} (h : Owes s task) (hsame : t.container = s.container) : Owes t task := by
  unfold Owes at h ⊢
  rw [hsame]
  exact h

theorem owed_step {s t : St} {e : Ev} (hshaped : Shaped s) (hs : Owed s) (hworks : Works s e) (h : step m s e = some t) :
    Owed t := by
  cases e with
  | start polls =>
    cases h
    exact hs.spawned ..
  | fire polls =>
    obtain ⟨-, rfl⟩ := step_fire h
    exact hs.spawned ..
  | step i d =>
    obtain ⟨⟨call, p⟩, rest, host, pre, post, hi, hl, -, ha, rfl⟩ := step_step h
    obtain ⟨hd, hcall⟩ := hworks
    have hcall : call ≠ .stop := hcall _ hi
    have hform : Onward p := (shape_form (hshaped _ (List.mem_of_getElem? hi)) hcall).self.onward
    have hmover : Owes host ⟨call, rest⟩ → Owed ⟨host, pre ++ ⟨call, rest⟩ :: post⟩ := fun howes =>
      Or.inr ⟨_, List.mem_append_right _ (.head _), howes⟩
    -- The others owe what they owed, as long as the container is as before.
    have hothers : host.container = s.host.container → ¬Owes s.host ⟨call, p⟩ →
        Owed ⟨host, pre ++ ⟨call, rest⟩ :: post⟩ := by
      intro hsame hnot
      rcases hs with hs | ⟨u, hu, howes⟩
      · exact Or.inl (hsame.trans hs)
      · rcases mem_splits hl hu with rfl | hu
        · exact (hnot howes).elim
        · exact Or.inr ⟨u, mem_others rfl hu, howes.same hsame⟩
    cases p with
    | ret a => exact (advance_done rfl ha).elim
    | throw e => exact (advance_done rfl ha).elim
    | op o k err =>
      rcases advance_op ha with ⟨a, rfl, hx, rfl⟩ | ⟨rfl, rfl, rfl⟩ | ⟨a, rfl, -, -⟩
      · rcases owes_ran hcall hform hd hx with hrunning | howes | ⟨hsame, hnot⟩
        · exact Or.inl hrunning
        · exact hmover howes
        · exact hothers hsame hnot
      · rcases owes_refused hcall hform hd with howes | hnot
        · exact hmover howes
        · exact hothers rfl hnot
      · exact hd.elim
  | finish i =>
    obtain ⟨task, pre, post, hl, hdone, rfl⟩ := step_finish h
    refine hs.imp id ?_
    rintro ⟨u, hu, howes⟩
    rcases mem_splits hl hu with rfl | hu
    · have hnext : next u.rest = none := by
        cases hrest : u.rest with
        | op o k err => simp [hrest, isDone] at hdone
        | _ => rfl
      refine (not_owes ?_ ?_ ?_ howes).elim
      · exact hnext ▸ id
      · exact fun _ => hnext ▸ id
      · exact fun _ => hnext ▸ nofun
    · exact ⟨u, hu, howes⟩
  | stop | dies | swept => exact hworks.elim

theorem owed_exec {es : List Ev} {s t : St} (hshaped : Shaped s) (hs : Owed s) (hworks : Meets (system m found) Works s es)
    (h : exec (system m found) s es = some t) : Owed t := by
  induction es generalizing s with
  | nil =>
    cases h
    exact hs
  | cons e es ih =>
    simp only [exec, Meets] at h hworks
    cases hst : (system m found).step s e with
    | none => simp [hst] at h
    | some u =>
      rw [hst] at h hworks
      exact ih (shaped_step hshaped hst) (owed_step hshaped hs hworks.1 hst) hworks.2 h

theorem owed_begun {s : St} {call : Call} {program : Await Unit} (hcall : call ≠ .stop) (hlooking : Looking (next program)) :
    Owed (spawn s call program) :=
  Or.inr ⟨_, List.mem_append_right _ (.head _), hcall, Or.inl hlooking⟩

/-- Where the CLI works, the container lives and nobody takes it down, a check or a `start` leaves
    it running once no call is in flight any more, whichever others ran beside it. -/
theorem checks_end_running {s t : St} {e : Ev} {es : List Ev} (h : Reach (system m found) Free s)
    (he : ∃ polls, e = .fire polls ∨ e = .start polls) (hrun : exec (system m found) s (e :: es) = some t)
    (hworks : Meets (system m found) Works s (e :: es)) (hdone : t.tasks = []) : t.host.container = some .running := by
  simp only [exec, Meets] at hrun hworks
  cases hst : (system m found).step s e with
  | none => simp [hst] at hrun
  | some u =>
    rw [hst] at hrun hworks
    have hu : Owed u := by
      obtain ⟨polls, rfl | rfl⟩ := he
      · obtain ⟨-, rfl⟩ := step_fire hst
        exact owed_begun (by decide) trivial
      · cases hst
        exact owed_begun (by decide) trivial
    rcases owed_exec (shaped_step (shaped h) hst) hu hworks.2 hrun with hrunning | ⟨task, ht, -⟩
    · exact hrunning
    · rw [hdone] at ht
      cases ht

/-- Two checks find the container dead and both replace it, one in the middle of the other. -/
def twoChecks : List Ev :=
  [.fire 0, .fire 0, .step 0 (.ran .isHealthy false), .step 1 (.ran .isHealthy false), .step 0 (.ran (.stop 5) ()),
    .step 0 (.ran .remove ()), .step 0 (.ran .create ()), .step 1 (.ran (.stop 5) ()), .step 0 (.ran .start ()),
    .step 1 (.ran .remove ()), .step 1 (.ran .create ()), .finish 0, .step 0 (.ran .start ()), .finish 0]

theorem two_checks_end_running :
    ∃ t, exec (system (serviceManager "u") (some .running)) ⟨⟨some .exited, true⟩, []⟩ twoChecks = some t ∧
      t.host.container = some .running := by
  have hdied : exec (system (serviceManager "u") (some .running)) ⟨⟨some .running, false⟩, []⟩ died =
      some ⟨⟨some .exited, true⟩, []⟩ := rfl
  have hboth : exec (system (serviceManager "u") (some .running)) ⟨⟨some .exited, true⟩, []⟩ twoChecks =
      some ⟨⟨some .running, true⟩, []⟩ := rfl
  refine ⟨_, hboth, checks_end_running (reach_of_exec died (meets_free _ _) hdied) ⟨0, Or.inl rfl⟩ hboth ?_ rfl⟩
  refine ⟨trivial, trivial, ⟨rfl, ?_⟩, ⟨rfl, ?_⟩, ⟨trivial, ?_⟩, ⟨trivial, ?_⟩, ⟨trivial, ?_⟩, ⟨trivial, ?_⟩, ⟨trivial, ?_⟩,
    ⟨trivial, ?_⟩, ⟨trivial, ?_⟩, trivial, ⟨trivial, ?_⟩, trivial, trivial⟩
  all_goals
    intro task ht
    cases ht
    exact nofun

end FlowHelm.Container.Supervision
