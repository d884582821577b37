/-
  FlowHelm.Container.Managers — the managers of the always-on containers (`ProxyManager`,
  `ServiceManager`, `ChannelManager`): what each call asks of the container CLI, and what a call in
  flight can still become.

  A CLI call that fails may have done its work or not; `exists` and `isHealthy` answer `false` when
  theirs fails. Statements between two awaits are one operation of their own.

  - `Spent` / `Creates`: what a call does where there is no container.
  - `Onward`: what it does next where the CLI works.
  - `Manager.all_start` / `Manager.all_healthCheck` / `Manager.all_stop`: which of these hold of
    everything a call can become.
-/
import FlowHelm.Container.Lifecycle
import FlowHelm.Lib.Script

namespace FlowHelm.Container.Supervision

open Script Prog

/-! ## The container CLI -/

/-- What `start` sees to on the host before it creates the container. -/
inductive HostStep where
  | readKey
  | ensureCA
  | mkdir (dir : String)
  deriving DecidableEq

inductive Op where
  | containerExists
  | isHealthy
  | stop (timeout : Nat)
  | remove
  | create
  | start
  | host (what : HostStep)
  /-- One turn of `waitForHealth`. -/
  | probe
  | startHealthChecks
  deriving DecidableEq

/-- Its failure is thrown; that of the others is an answer. -/
def Op.throws : Op → Bool
  | .containerExists | .isHealthy | .probe | .startHealthChecks => false
  | .stop _ | .remove | .create | .start | .host _ => true

@[reducible] def Ans : Op → Type
  | .containerExists | .isHealthy | .probe => Bool
  | .stop _ | .remove | .create | .start | .host _ | .startHealthChecks => Unit

structure Host where
  container : Option ContainerState
  /-- `healthCheckTimer` is set. -/
  timer : Bool
  deriving DecidableEq

def cli : (o : Op) → Host → Ans o → Option Host
  | .containerExists, s, answer => if answer = true ∧ s.container = none then none else some s
  | .isHealthy, s, answer => if answer = true ∧ s.container ≠ some .running then none else some s
  | .probe, s, answer => if answer = true ∧ s.container ≠ some .running then none else some s
  | .stop _, s, _ => s.container.map fun _ => { s with container := some .exited }
  | .remove, s, _ => some { s with container := none }
  | .create, s, _ => match s.container with
    | none => some { s with container := some .created }
    | some _ => none
  | .start, s, _ => s.container.map fun _ => { s with container := some .running }
  | .host _, s, _ => some s
  | .startHealthChecks, s, _ => some { s with timer := true }

def podman : Service Op Ans Host := ⟨cli⟩

abbrev Await (α : Type) := Prog Op Ans α

abbrev await (o : Op) : Await (Ans o) := perform o

/-! ## The managers -/

structure Manager where
  /-- As its errors call it. -/
  title : String
  containerName : String
  prepare : List HostStep
  healthTimeout : Nat
  /-- `healthCheck` calls `start`. -/
  restarts : Bool

/-- `await this.runtime.….catch(() => {})`. -/
def caught (o : Op) : Await Unit := ((await o).bind fun _ => ret ()).attempt fun _ => ret ()

/-- From `this.startHealthChecks()` on. -/
def armed : Await Unit := (await .startHealthChecks).bind fun _ => ret ()

namespace Manager

variable (m : Manager)

/-- It looks at most `polls` times before the deadline. -/
def waitForHealth : Nat → Await Unit
  | 0 => .throw (.error s!"{m.title} container {m.containerName} did not become healthy within {m.healthTimeout}ms")
  | polls + 1 => (await .probe).bind fun healthy => if healthy then ret () else waitForHealth polls

/-- From `this.runtime.create(config)` on. -/
def launch (polls : Nat) : Await Unit :=
  (await .create).bind fun _ => (await .start).bind fun _ => (m.waitForHealth polls).bind fun _ => armed

def provide (polls : Nat) : Await Unit :=
  (forEach m.prepare fun what => (await (.host what)).bind fun _ => ret ()).bind fun _ => m.launch polls

def start (polls : Nat) : Await Unit :=
  (await .containerExists).bind fun found =>
    if found then
      (await .isHealthy).bind fun healthy =>
        if healthy then armed
        else (caught (.stop 5)).bind fun _ => (caught .remove).bind fun _ => m.provide polls
    else m.provide polls

/-- The restart of the service's and the channel's check. -/
def recreate : Await Unit :=
  (caught (.stop 5)).bind fun _ => (caught .remove).bind fun _ => (await .create).bind fun _ => await .start

def healthCheck (polls : Nat) : Await Unit :=
  (await .isHealthy).bind fun healthy =>
    if healthy then ret ()
    else (if m.restarts then m.start polls else recreate).attempt fun _ => ret ()

/-- `stop` behind `this.stopHealthChecks()`. -/
def stop : Await Unit :=
  (await .containerExists).bind fun found =>
    if found then (caught (.stop 10)).bind fun _ => caught .remove else ret ()

end Manager

def proxyManager (username : String) : Manager where
  title := "Proxy"
  containerName := "flowhelm-proxy-" ++ username
  prepare := [.readKey, .ensureCA, .mkdir "logsDir"]
  healthTimeout := 10000
  restarts := true

def serviceManager (username : String) : Manager where
  title := "Service"
  containerName := "flowhelm-service-" ++ username
  prepare := [.mkdir "downloadsDir", .mkdir "modelsDir"]
  healthTimeout := 30000
  restarts := false

def channelManager (username : String) : Manager where
  title := "Channel"
  containerName := "flowhelm-channel-" ++ username
  prepare := [.mkdir "downloadsDir", .mkdir "logsDir"]
  healthTimeout := 30000
  restarts := false

/-! ## Where a call stands -/

/-- The operation a program waits for. -/
def next : Await Unit → Option Op
  | .op o _ _ => some o
  | _ => none

/-- A `start` or a check behind its `create`, and not about to set the timer. -/
def Past : Option Op → Prop
  | none | some .start | some .probe => True
  | _ => False

/-- It has not yet removed what it found. -/
def Looking : Option Op → Prop
  | some .containerExists | some .isHealthy | some (.stop _) | some .remove => True
  | _ => False

/-- It has, and not yet created its own. -/
def Building : Option Op → Prop
  | some (.host _) | some .create => True
  | _ => False

/-! ## Without a container -/

/-- The answer of the CLI where there is no container, `none` where it fails. -/
def answerGone : (o : Op) → Option (Ans o)
  | .containerExists | .isHealthy | .probe => some false
  | .stop _ | .start => none
  | .remove | .create | .host _ | .startHealthChecks => some ()

/-- Left alone without a container the program neither creates one nor sets the timer. -/
def Spent : Await Unit → Prop
  | .op o k err =>
    o ≠ .create ∧ o ≠ .startHealthChecks ∧ (∀ a ∈ answerGone o, Spent (k a)) ∧ (o.throws = true → ∀ f, Spent (err f))
  | _ => True

/-- It may come to create one, what fails being only what must. -/
def Creates : Await Unit → Prop
  | .op o k err => o = .create ∨ (∃ a ∈ answerGone o, Creates (k a)) ∨ (answerGone o = none ∧ Creates (err .refused))
  | _ => False

theorem creates_answered {o : Op} {k : Ans o → Await Unit} {err : Fault → Await Unit} {a : Ans o} (ha : answerGone o = some a)
    (h : Creates (k a)) : Creates (.op o k err) :=
  Or.inr (Or.inl ⟨a, ha, h⟩)

theorem creates_failed {o : Op} {k : Ans o → Await Unit} {err : Fault → Await Unit} (ho : answerGone o = none)
    (h : Creates (err .refused)) : Creates (.op o k err) :=
  Or.inr (Or.inr ⟨ho, h⟩)

theorem cli_gone {o : Op} {s t : Host} {a : Ans o} (hs : s.container = none) (h : cli o s a = some t) :
    a ∈ answerGone o ∧ (o ≠ .create → t.container = none) ∧ (o ≠ .startHealthChecks → t.timer = s.timer) := by
  obtain ⟨container, timer⟩ := s
  obtain rfl : container = none := hs
  cases o with
  | containerExists | isHealthy | probe =>
    simp [cli] at h
    obtain ⟨ha, rfl⟩ := h
    simp [answerGone, ha]
  | stop | start => cases h
  | remove | create | host | startHealthChecks =>
    cases h
    simp [answerGone]

theorem cli_answerGone {o : Op} {s : Host} {a : Ans o} (hs : s.container = none) (ha : answerGone o = some a)
    (ho : o ≠ .create) : ∃ t, cli o s a = some t ∧ t.container = none := by
  obtain ⟨container, timer⟩ := s
  obtain rfl : container = none := hs
  cases o with
  | containerExists | isHealthy | probe =>
    cases ha
    exact ⟨_, rfl, rfl⟩
  | stop | start => cases ha
  | create => exact absurd rfl ho
  | remove | host | startHealthChecks => exact ⟨_, rfl, rfl⟩

theorem throws_gone {o : Op} (h : answerGone o = none) : o.throws = true := by
  cases o with
  | stop | start => rfl
  | _ => cases h

/-! ## What a call can become -/

/-- Where the CLI works a `start` or a check that has removed the container goes on to have one run. -/
def Onward : Await Unit → Prop
  | .op .containerExists k _ => Looking (next (k true)) ∧ Building (next (k false))
  | .op .isHealthy k _ => Looking (next (k false))
  | .op (.stop _) k err => Looking (next (k ())) ∧ ∀ f, Looking (next (err f))
  | .op .remove k _ => Building (next (k ()))
  | .op (.host _) k _ => Building (next (k ()))
  | .op .create k _ => next (k ()) = some .start
  | _ => True

structure Form (p : Await Unit) : Prop where
  past : Past (next p) → Spent p
  before : ¬Past (next p) → Creates p ∨ next p = some .startHealthChecks
  onward : Onward p

theorem form_done {p : Await Unit} (h : p.isDone) : Form p := by
  cases p with
  | ret a => exact ⟨fun _ => trivial, fun h => (h trivial).elim, trivial⟩
  | throw e => exact ⟨fun _ => trivial, fun h => (h trivial).elim, trivial⟩
  | op o k err => cases h

/-- An operation whose failure is thrown. -/
theorem all_await {o : Op} {k : Ans o → Await Unit} (ho : Form ((await o).bind k)) (hk : ∀ a, (k a).All Form) :
    ((await o).bind k).All Form :=
  ⟨ho, hk, fun _ => form_done rfl⟩

theorem all_caught {o : Op} {k : Unit → Await Unit} (ho : Form ((caught o).bind k)) (hk : (k ()).All Form) :
    ((caught o).bind k).All Form :=
  ⟨ho, fun _ => hk, fun _ => hk⟩

theorem form_starting {k : Ans .start → Await Unit} {err : Fault → Await Unit} (herr : ∀ f, Spent (err f)) :
    Form (.op .start k err) where
  past _ := by
    refine ⟨by decide, by decide, ?_, fun _ => herr⟩
    intro a ha
    cases ha
  before h := (h trivial).elim
  onward := trivial

theorem all_armed : armed.All Form := by
  refine all_await ⟨fun h => h.elim, fun _ => Or.inr rfl, trivial⟩ ?_
  intro _
  exact form_done rfl

namespace Manager

variable (m : Manager)

theorem past_wait (polls : Nat) (k : Unit → Await Unit) : Past (next ((m.waitForHealth polls).bind k)) := by
  cases polls with
  | zero => trivial
  | succ polls => trivial

theorem all_wait {k : Unit → Await Unit} (hk : (k ()).All Form) (polls : Nat) : ((m.waitForHealth polls).bind k).All Form := by
  induction polls with
  | zero => exact form_done rfl
  | succ polls ih =>
    refine all_await ⟨fun _ => ⟨by decide, by decide, ?_, fun h => nomatch h⟩, fun h => (h trivial).elim, trivial⟩ ?_
    · intro a ha
      cases ha
      exact ih.self.past (past_wait m polls k)
    · intro a
      cases a with
      | true => exact hk
      | false => exact ih

theorem all_launch (polls : Nat) : (m.launch polls).All Form := by
  refine all_await ⟨fun h => h.elim, fun _ => Or.inl (Or.inl rfl), rfl⟩ fun _ => ?_
  refine all_await (form_starting fun _ => trivial) fun _ => ?_
  exact m.all_wait all_armed polls

theorem all_provide (polls : Nat) : (m.provide polls).All Form ∧ Creates (m.provide polls) ∧
    Building (next (m.provide polls)) := by
  unfold provide
  induction m.prepare with
  | nil => exact ⟨m.all_launch polls, Or.inl rfl, trivial⟩
  | cons what rest ih =>
    obtain ⟨hall, hcreates, hbuilds⟩ := ih
    refine ⟨all_await ⟨fun h => h.elim, fun _ => Or.inl (creates_answered rfl hcreates), hbuilds⟩ fun _ => hall, ?_, trivial⟩
    exact creates_answered rfl hcreates

/-- What is removed is provided again. -/
theorem all_replaced {timeout : Nat} {p : Await Unit} (hp : p.All Form) (hcreates : Creates p) (hbuilds : Building (next p)) :
    ((caught (.stop timeout)).bind fun _ => (caught .remove).bind fun _ => p).All Form ∧
      Creates ((caught (.stop timeout)).bind fun _ => (caught .remove).bind fun _ => p) := by
  have hremove : Creates ((caught .remove).bind fun _ => p) := creates_answered rfl hcreates
  have hstop : Creates ((caught (.stop timeout)).bind fun _ => (caught .remove).bind fun _ => p) := creates_failed rfl hremove
  refine ⟨all_caught ⟨fun h => h.elim, fun _ => Or.inl hstop, trivial, fun _ => trivial⟩ ?_, hstop⟩
  exact all_caught ⟨fun h => h.elim, fun _ => Or.inl hremove, hbuilds⟩ hp

theorem all_start (polls : Nat) : (m.start polls).All Form ∧ Creates (m.start polls) := by
  obtain ⟨hall, hcreates, hbuilds⟩ := m.all_provide polls
  have hstart : Creates (m.start polls) := creates_answered rfl hcreates
  refine ⟨all_await ⟨fun h => h.elim, fun _ => Or.inl hstart, trivial, hbuilds⟩ fun found => ?_, hstart⟩
  cases found with
  | false => exact hall
  | true =>
    obtain ⟨hreplaced, hreplaces⟩ := all_replaced hall hcreates hbuilds
    refine all_await ⟨fun h => h.elim, fun _ => Or.inl (creates_answered rfl hreplaces), trivial⟩ fun healthy => ?_
    cases healthy with
    | true => exact all_armed
    | false => exact hreplaced

theorem all_recreate : recreate.All Form ∧ Creates recreate := by
  refine all_replaced ?_ (Or.inl rfl) trivial
  refine all_await ⟨fun h => h.elim, fun _ => Or.inl (Or.inl rfl), rfl⟩ fun _ => ?_
  exact ⟨form_starting fun _ => trivial, fun _ => form_done rfl, fun _ => form_done rfl⟩

end Manager

/-! ### Within `try { … } catch { }` -/

/-- The program, its error caught. -/
abbrev tried (p : Await Unit) : Await Unit := p.attempt fun _ => ret ()

theorem next_tried (p : Await Unit) : next (tried p) = next p := by
  cases p <;> rfl

theorem spent_tried {p : Await Unit} (h : Spent p) : Spent (tried p) := by
  induction p with
  | ret a => trivial
  | throw e => trivial
  | op o k err ihk ihe => exact ⟨h.1, h.2.1, fun a ha => ihk a (h.2.2.1 a ha), fun ho f => ihe f (h.2.2.2 ho f)⟩

theorem creates_tried {p : Await Unit} (h : Creates p) : Creates (tried p) := by
  induction p with
  | ret a => exact h
  | throw e => exact h.elim
  | op o k err ihk ihe =>
    rcases h with h | ⟨a, ha, h⟩ | ⟨ho, h⟩
    · exact Or.inl h
    · exact creates_answered ha (ihk a h)
    · exact creates_failed ho (ihe .refused h)

theorem onward_tried {p : Await Unit} (h : Onward p) : Onward (tried p) := by
  cases p with
  | ret a => trivial
  | throw e => trivial
  | op o k err =>
    cases o with
    | start | probe | startHealthChecks => trivial
    | _ =>
      simp only [tried, attempt, Onward, next_tried]
      exact h

theorem Form.tried {p : Await Unit} (h : Form p) : Form (tried p) where
  past hp := spent_tried (h.past (next_tried p ▸ hp))
  before hp := (h.before (next_tried p ▸ hp)).imp creates_tried fun harm => (next_tried p).trans harm
  onward := onward_tried h.onward

theorem all_tried {p : Await Unit} (h : p.All Form) : (tried p).All Form :=
  all_attempt (fun p (h : Form p) => h.tried) (fun _ => form_done rfl) h

/-! ### Every call -/

namespace Manager

variable (m : Manager)

/-- What a check runs when it finds the container unhealthy. -/
theorem all_restart (polls : Nat) :
    (if m.restarts then m.start polls else recreate).All Form ∧ Creates (if m.restarts then m.start polls else recreate) ∧
      Looking (next (if m.restarts then m.start polls else recreate)) := by
  cases m.restarts with
  | true => exact ⟨(m.all_start polls).1, (m.all_start polls).2, trivial⟩
  | false => exact ⟨all_recreate.1, all_recreate.2, trivial⟩

theorem all_healthCheck (polls : Nat) : (m.healthCheck polls).All Form ∧ Creates (m.healthCheck polls) := by
  obtain ⟨hall, hcreates, hlooking⟩ := m.all_restart polls
  have hcheck : Creates (m.healthCheck polls) := creates_answered rfl (creates_tried hcreates)
  refine ⟨all_await ⟨fun h => h.elim, fun _ => Or.inl hcheck, ?_⟩ fun healthy => ?_, hcheck⟩
  · show Looking (next (tried _))
    rw [next_tried]
    exact hlooking
  · cases healthy with
    | true => exact form_done rfl
    | false => exact all_tried hall

theorem all_stop : stop.All Spent := by
  have hremove : (caught .remove).All Spent :=
    ⟨⟨by decide, by decide, fun _ _ => trivial, fun _ _ => trivial⟩, fun _ => trivial, fun _ => trivial⟩
  refine ⟨⟨by decide, by decide, ?_, fun h => nomatch h⟩, fun found => ?_, fun _ => trivial⟩
  · intro a ha
    cases ha
    trivial
  · cases found with
    | false => trivial
    | true =>
      refine ⟨⟨by decide, by decide, fun _ _ => hremove.self, fun _ _ => hremove.self⟩, fun _ => hremove, fun _ => hremove⟩

end Manager

end FlowHelm.Container.Supervision
