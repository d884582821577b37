/-
  FlowHelm.Agent.WarmContainers — warm-container-runtime.ts: the containers kept for chats
  between messages, with their idle timers, and what the container engine makes of the calls.

  Actors. An `execute` call, the clean-up of an idle container and that of a `shutdown` each
  wait for one call at a time, and run on when it is answered: an event is such an answer, a
  call, a timer that fires, or a container that dies. Any call can fail, which leaves the
  container as it was; the engine never draws an id twice, stops nothing that is removed, and
  answers a health check well only for a container that runs. A timer can fire at any time
  while it is armed.

  Left out: the backups a call does not wait for and what they store, host directories, the
  command of an exec, and the fields of a `WarmContainer` only those use.

  - `step_next`: everything an event can do (`Next`).
  - `base`: what is kept and what is being created are different containers (`Base`).
-/
import Mathlib.Data.List.AList
import FlowHelm.Lib.Js
import FlowHelm.Lib.Parties
import FlowHelm.Lib.Runs

namespace FlowHelm.Agent.Warm

open Parties Runs Js

inductive Status where
  | created
  | running
  | stopped
  | removed
  deriving DecidableEq, Repr

/-- A container, and the session of the `WarmContainer` kept of it. -/
structure Box where
  chatId : String
  status : Status
  sessionId : Option String
  deriving DecidableEq, Repr

/-- What an `execute` call waits for. -/
inductive Phase where
  /-- The health of the container that was kept. -/
  | checking (containerId : Nat)
  /-- Directories, the restored session, the network. -/
  | preparing
  | creating
  | starting (containerId : Nat)
  | settingUp (containerId : Nat)
  /-- The task's command, for a second time without the session. -/
  | executing (containerId : Nat) (retried : Bool)
  deriving DecidableEq, Repr

structure Task where
  chatId : String
  phase : Phase
  deriving DecidableEq, Repr

inductive CleanupPhase where
  | backup
  | stopping
  | removing
  deriving DecidableEq, Repr

/-- A `handleIdleTimeout`, or the part of a `shutdown` for one container. -/
structure Cleanup where
  chatId : String
  containerId : Nat
  phase : CleanupPhase
  idle : Bool
  deriving DecidableEq, Repr

structure St where
  /-- Every container that was created; its id is its place. -/
  boxes : List Box
  warmContainers : AList fun _ : String => Nat
  /-- The timers that are armed. -/
  timers : List (Nat × String)
  idleTimers : AList fun _ : String => Nat
  nextTimer : Nat
  tasks : List Task
  cleanups : List Cleanup
  /-- A `shutdown` is under way; how many containers had been created when it was called. -/
  closing : Option Nat
  /-- That number, of the `shutdown` that completed last. -/
  closed : Option Nat

inductive Ev where
  | execute (chatId : String)
  | healthy (i : Nat)
  | unhealthy (i : Nat)
  | prepared (i : Nat)
  | prepareFailed (i : Nat)
  | created (i : Nat)
  | createFailed (i : Nat)
  | started (i : Nat)
  | startFailed (i : Nat)
  | setUp (i : Nat) (restored : Option String)
  | setUpFailed (i : Nat)
  /-- No output, and the complaint that no conversation was found. -/
  | resumeFailed (i : Nat)
  | answered (i : Nat) (sessionId : String)
  /-- The exec fails, or its output is not understood. -/
  | failed (i : Nat)
  | expire (i : Nat)
  | backedUp (i : Nat)
  | stopped (i : Nat)
  | stopFailed (i : Nat)
  | removed (i : Nat)
  | removeFailed (i : Nat)
  | shutdown
  | shutdownDone
  | died (containerId : Nat)
  deriving DecidableEq, Repr

/-! ## The turns -/

def St.status (s : St) (c : Nat) : Option Status := s.boxes[c]?.map (·.status)

def St.chatOf (s : St) (c : Nat) : Option String := s.boxes[c]?.map (·.chatId)

def St.sessionId (s : St) (c : Nat) : Option String := s.boxes[c]?.bind (·.sessionId)

def setStatus (s : St) (c : Nat) (status : Status) : St :=
  { s with boxes := s.boxes.modify c fun b => { b with status := status } }

def setSession (s : St) (c : Nat) (sessionId : Option String) : St :=
  { s with boxes := s.boxes.modify c fun b => { b with sessionId := sessionId } }

def clearIdleTimer (s : St) (chatId : String) : St :=
  { s with timers := s.timers.filter fun t => s.idleTimers.lookup chatId != some t.1,
           idleTimers := s.idleTimers.erase chatId }

def resetIdleTimer (s : St) (chatId : String) : St :=
  let s := clearIdleTimer s chatId
  { s with timers := s.timers ++ [(s.nextTimer, chatId)], idleTimers := s.idleTimers.insert chatId s.nextTimer,
           nextTimer := s.nextTimer + 1 }

/-- The task at `i` goes on, or its call settles. -/
def moveTask (s : St) (i : Nat) (t : Option Task) : St := { s with tasks := put s.tasks i t }

def moveCleanup (s : St) (i : Nat) (k : Option Cleanup) : St := { s with cleanups := put s.cleanups i k }

/-- The start of `execute`. -/
def beginTask (s : St) (chatId : String) : Task := match s.warmContainers.lookup chatId with
  | some c => ⟨chatId, .checking c⟩
  | none => ⟨chatId, .preparing⟩

/-- A container's clean-up begins with a backup when it has a session. -/
def beginCleanup (s : St) (chatId : String) (c : Nat) (idle : Bool) : Cleanup :=
  ⟨chatId, c, if given (s.sessionId c) then .backup else .stopping, idle⟩

/-- The `finally` block of `handleIdleTimeout`; a `shutdown` has none. -/
def endCleanup (s : St) (i : Nat) (k : Cleanup) : St :=
  let s := moveCleanup s i none
  if k.idle then
    { s with warmContainers := s.warmContainers.erase k.chatId, idleTimers := s.idleTimers.erase k.chatId }
  else s

def callShutdown (s : St) : St :=
  { s with timers := s.timers.filter fun t => s.idleTimers.entries.all (·.2 != t.1),
           idleTimers := ∅,
           cleanups := s.cleanups ++ s.warmContainers.entries.map fun e => beginCleanup s e.1 e.2 false,
           closing := some s.boxes.length }

def step (s : St) : Ev → Option St
  | .execute chatId => some { s with tasks := s.tasks ++ [beginTask s chatId] }
  | .healthy i => match s.tasks[i]? with
    | some ⟨chatId, .checking c⟩ =>
      if s.status c = some .running then some (moveTask s i (some ⟨chatId, .executing c false⟩)) else none
    | _ => none
  | .unhealthy i => match s.tasks[i]? with
    | some ⟨chatId, .checking _⟩ =>
      let s := clearIdleTimer { s with warmContainers := s.warmContainers.erase chatId } chatId
      some (moveTask s i (some ⟨chatId, .preparing⟩))
    | _ => none
  | .prepared i => match s.tasks[i]? with
    | some ⟨chatId, .preparing⟩ => some (moveTask s i (some ⟨chatId, .creating⟩))
    | _ => none
  | .prepareFailed i => match s.tasks[i]? with
    | some ⟨_, .preparing⟩ => some (moveTask s i none)
    | _ => none
  | .created i => match s.tasks[i]? with
    | some ⟨chatId, .creating⟩ =>
      some (moveTask { s with boxes := s.boxes ++ [⟨chatId, .created, none⟩] } i (some ⟨chatId, .starting s.boxes.length⟩))
    | _ => none
  | .createFailed i => match s.tasks[i]? with
    | some ⟨_, .creating⟩ => some (moveTask s i none)
    | _ => none
  | .started i => match s.tasks[i]? with
    | some ⟨chatId, .starting c⟩ => some (moveTask (setStatus s c .running) i (some ⟨chatId, .settingUp c⟩))
    | _ => none
  | .startFailed i => match s.tasks[i]? with
    | some ⟨_, .starting _⟩ => some (moveTask s i none)
    | _ => none
  | .setUp i restored => match s.tasks[i]? with
    | some ⟨chatId, .settingUp c⟩ =>
      let s := setSession s c restored
      let s := resetIdleTimer { s with warmContainers := s.warmContainers.insert chatId c } chatId
      some (moveTask s i (some ⟨chatId, .executing c false⟩))
    | _ => none
  | .setUpFailed i => match s.tasks[i]? with
    | some ⟨_, .settingUp _⟩ => some (moveTask s i none)
    | _ => none
  | .resumeFailed i => match s.tasks[i]? with
    | some ⟨chatId, .executing c false⟩ => some (moveTask (setSession s c none) i (some ⟨chatId, .executing c true⟩))
    | _ => none
  | .answered i sessionId => match s.tasks[i]? with
    | some ⟨chatId, .executing c _⟩ =>
      let s := setSession s c (if sessionId = "" then s.sessionId c else some sessionId)
      some (moveTask (resetIdleTimer s chatId) i none)
    | _ => none
  | .failed i => match s.tasks[i]? with
    | some ⟨_, .executing _ _⟩ => some (moveTask s i none)
    | _ => none
  | .expire i => match s.timers[i]? with
    | some (_, chatId) =>
      let s := { s with timers := s.timers.eraseIdx i }
      match s.warmContainers.lookup chatId with
      | some c => some { s with cleanups := s.cleanups ++ [beginCleanup s chatId c true] }
      | none => some s
    | none => none
  | .backedUp i => match s.cleanups[i]? with
    | some ⟨chatId, c, .backup, idle⟩ => some (moveCleanup s i (some ⟨chatId, c, .stopping, idle⟩))
    | _ => none
  | .stopped i => match s.cleanups[i]? with
    | some ⟨chatId, c, .stopping, idle⟩ =>
      if s.status c = some .removed then none
      else some (moveCleanup (setStatus s c .stopped) i (some ⟨chatId, c, .removing, idle⟩))
    | _ => none
  | .stopFailed i => match s.cleanups[i]? with
    | some ⟨chatId, c, .stopping, idle⟩ => some (endCleanup s i ⟨chatId, c, .stopping, idle⟩)
    | _ => none
  | .removed i => match s.cleanups[i]? with
    | some ⟨chatId, c, .removing, idle⟩ => some (endCleanup (setStatus s c .removed) i ⟨chatId, c, .removing, idle⟩)
    | _ => none
  | .removeFailed i => match s.cleanups[i]? with
    | some ⟨chatId, c, .removing, idle⟩ => some (endCleanup s i ⟨chatId, c, .removing, idle⟩)
    | _ => none
  | .shutdown => if s.closing = none then some (callShutdown s) else none
  | .shutdownDone => match s.closing with
    | some n =>
      if s.cleanups.all (·.idle) then some { s with warmContainers := ∅, closing := none, closed := some n } else none
    | none => none
  | .died c => if s.status c = some .running then some (setStatus s c .stopped) else none

def St.init : St := ⟨[], ∅, [], ∅, 0, [], [], none, none⟩

def machine : System St Ev := ⟨St.init, step⟩

/-! ## What an event can do -/

/-- The container a call has created and not yet kept. -/
def Phase.creates : Phase → Option Nat
  | .starting c => some c
  | .settingUp c => some c
  | _ => none

/-- Everything an event can do. A list with an entry picked out is `pre ++ entry :: post`. -/
inductive Next (s : St) : Ev → St → Prop
  | executed (chatId : String) : Next s (.execute chatId) { s with tasks := s.tasks ++ [beginTask s chatId] }
  | healthy (i : Nat) (chatId : String) (c : Nat) (pre post : List Task) : s.tasks[i]? = some ⟨chatId, .checking c⟩ →
      s.tasks = pre ++ ⟨chatId, .checking c⟩ :: post → s.status c = some .running →
      Next s (.healthy i) { s with tasks := pre ++ ⟨chatId, .executing c false⟩ :: post }
  | unhealthy (i : Nat) (chatId : String) (c : Nat) (pre post : List Task) : s.tasks[i]? = some ⟨chatId, .checking c⟩ →
      s.tasks = pre ++ ⟨chatId, .checking c⟩ :: post →
      Next s (.unhealthy i)
        { clearIdleTimer { s with warmContainers := s.warmContainers.erase chatId } chatId with
          tasks := pre ++ ⟨chatId, .preparing⟩ :: post }
  | prepared (i : Nat) (chatId : String) (pre post : List Task) : s.tasks = pre ++ ⟨chatId, .preparing⟩ :: post →
      Next s (.prepared i) { s with tasks := pre ++ ⟨chatId, .creating⟩ :: post }
  | threw (e : Ev) (t : Task) (pre post : List Task) : s.tasks = pre ++ t :: post → t.phase.creates = none →
      (∃ i, e = .prepareFailed i ∨ e = .createFailed i ∨ e = .failed i) → Next s e { s with tasks := pre ++ post }
  | created (i : Nat) (chatId : String) (pre post : List Task) : s.tasks = pre ++ ⟨chatId, .creating⟩ :: post →
      Next s (.created i)
        { s with boxes := s.boxes ++ [⟨chatId, .created, none⟩], tasks := pre ++ ⟨chatId, .starting s.boxes.length⟩ :: post }
  | started (i : Nat) (chatId : String) (c : Nat) (pre post : List Task) : s.tasks[i]? = some ⟨chatId, .starting c⟩ →
      s.tasks = pre ++ ⟨chatId, .starting c⟩ :: post →
      Next s (.started i) { setStatus s c .running with tasks := pre ++ ⟨chatId, .settingUp c⟩ :: post }
  | left (e : Ev) (t : Task) (c : Nat) (pre post : List Task) : s.tasks = pre ++ t :: post → t.phase.creates = some c →
      (∃ i, e = .startFailed i ∨ e = .setUpFailed i) → Next s e { s with tasks := pre ++ post }
  | kept (i : Nat) (restored : Option String) (chatId : String) (c : Nat) (pre post : List Task) :
      s.tasks[i]? = some ⟨chatId, .settingUp c⟩ → s.tasks = pre ++ ⟨chatId, .settingUp c⟩ :: post →
      Next s (.setUp i restored)
        { resetIdleTimer { setSession s c restored with warmContainers := s.warmContainers.insert chatId c } chatId with
          tasks := pre ++ ⟨chatId, .executing c false⟩ :: post }
  | resumeFailed (i : Nat) (chatId : String) (c : Nat) (pre post : List Task) :
      s.tasks = pre ++ ⟨chatId, .executing c false⟩ :: post →
      Next s (.resumeFailed i) { setSession s c none with tasks := pre ++ ⟨chatId, .executing c true⟩ :: post }
  | answered (i : Nat) (sessionId chatId : String) (c : Nat) (retried : Bool) (pre post : List Task) :
      s.tasks = pre ++ ⟨chatId, .executing c retried⟩ :: post →
      Next s (.answered i sessionId)
        { resetIdleTimer (setSession s c (if sessionId = "" then s.sessionId c else some sessionId)) chatId with
          tasks := pre ++ post }
  | expired (i : Nat) (timers : List (Nat × String)) : Next s (.expire i) { s with timers := timers }
  | idle (i id : Nat) (chatId : String) (c : Nat) : s.timers[i]? = some (id, chatId) → s.warmContainers.lookup chatId = some c →
      Next s (.expire i) { s with timers := s.timers.eraseIdx i, cleanups := s.cleanups ++ [beginCleanup s chatId c true] }
  | backedUp (i : Nat) (chatId : String) (c : Nat) (idle : Bool) (pre post : List Cleanup) :
      s.cleanups = pre ++ ⟨chatId, c, .backup, idle⟩ :: post →
      Next s (.backedUp i) { s with cleanups := pre ++ ⟨chatId, c, .stopping, idle⟩ :: post }
  | stopped (i : Nat) (chatId : String) (c : Nat) (idle : Bool) (pre post : List Cleanup) :
      s.cleanups = pre ++ ⟨chatId, c, .stopping, idle⟩ :: post → s.status c ≠ some .removed →
      Next s (.stopped i) { setStatus s c .stopped with cleanups := pre ++ ⟨chatId, c, .removing, idle⟩ :: post }
  | ended (e : Ev) (i : Nat) (k : Cleanup) (pre post : List Cleanup) : s.cleanups[i]? = some k → s.cleanups = pre ++ k :: post →
      e = .stopFailed i ∨ e = .removeFailed i → Next s e (endCleanup s i k)
  | removed (i : Nat) (chatId : String) (c : Nat) (idle : Bool) (pre post : List Cleanup) :
      s.cleanups[i]? = some ⟨chatId, c, .removing, idle⟩ → s.cleanups = pre ++ ⟨chatId, c, .removing, idle⟩ :: post →
      Next s (.removed i) (endCleanup (setStatus s c .removed) i ⟨chatId, c, .removing, idle⟩)
  | shutdown : s.closing = none → Next s .shutdown (callShutdown s)
  | shutdownDone (n : Nat) : s.closing = some n → (∀ k ∈ s.cleanups, k.idle = true) →
      Next s .shutdownDone { s with warmContainers := ∅, closing := none, closed := some n }
  | died (c : Nat) : s.status c = some .running → Next s (.died c) (setStatus s c .stopped)

theorem move_task {s : St} {i : Nat} {t : Task} (h : s.tasks[i]? = some t) :
    ∃ pre post, s.tasks = pre ++ t :: post ∧
      ∀ u o, u.tasks = s.tasks → moveTask u i o = { u with tasks := pre ++ (o.toList ++ post) } := by
  obtain ⟨pre, post, htasks, hput⟩ := put_splits h
  refine ⟨pre, post, htasks, fun u o hu => ?_⟩
  unfold moveTask
  rw [hu, hput]

theorem move_cleanup {s : St} {i : Nat} {k : Cleanup} (h : s.cleanups[i]? = some k) :
    ∃ pre post, s.cleanups = pre ++ k :: post ∧
      ∀ u o, u.cleanups = s.cleanups → moveCleanup u i o = { u with cleanups := pre ++ (o.toList ++ post) } := by
  obtain ⟨pre, post, hcleanups, hput⟩ := put_splits h
  refine ⟨pre, post, hcleanups, fun u o hu => ?_⟩
  unfold moveCleanup
  rw [hu, hput]

/-- What happens to a task in the list. -/
theorem moved_task {s u : St} {e : Ev} {i : Nat} {t : Task} {o : Option Task} (h : s.tasks[i]? = some t) (hu : u.tasks = s.tasks)
    (hnext : ∀ pre post, s.tasks = pre ++ t :: post → Next s e { u with tasks := pre ++ (o.toList ++ post) }) :
    Next s e (moveTask u i o) := by
  obtain ⟨pre, post, htasks, hmove⟩ := move_task h
  rw [hmove u o hu]
  exact hnext pre post htasks

/-- And to a clean-up. -/
theorem moved_cleanup {s u : St} {e : Ev} {i : Nat} {k : Cleanup} {o : Option Cleanup} (h : s.cleanups[i]? = some k)
    (hu : u.cleanups = s.cleanups)
    (hnext : ∀ pre post, s.cleanups = pre ++ k :: post → Next s e { u with cleanups := pre ++ (o.toList ++ post) }) :
    Next s e (moveCleanup u i o) := by
  obtain ⟨pre, post, hcleanups, hmove⟩ := move_cleanup h
  rw [hmove u o hu]
  exact hnext pre post hcleanups

theorem step_next {s t : St} {e : Ev} (h : step s e = some t) : Next s e t := by
  cases e with
  | execute chatId =>
    obtain rfl := Option.some.inj h
    exact .executed chatId
  | healthy i =>
    simp only [step] at h
    split at h
    · rename_i chatId c hi
      split at h
      · rename_i hrunning
        obtain rfl := Option.some.inj h
        exact moved_task hi rfl fun pre post htasks => .healthy i chatId c pre post hi htasks hrunning
      · cases h
    · cases h
  | unhealthy i =>
    simp only [step] at h
    split at h
    · rename_i chatId c hi
      obtain rfl := Option.some.inj h
      exact moved_task hi rfl fun pre post htasks => .unhealthy i chatId c pre post hi htasks
    · cases h
  | prepared i =>
    simp only [step] at h
    split at h
    · rename_i chatId hi
      obtain rfl := Option.some.inj h
      exact moved_task hi rfl fun pre post htasks => .prepared i chatId pre post htasks
    · cases h
  | prepareFailed i =>
    simp only [step] at h
    split at h
    · rename_i chatId hi
      obtain rfl := Option.some.inj h
      exact moved_task hi rfl fun pre post htasks => .threw _ _ pre post htasks rfl ⟨i, .inl rfl⟩
    · cases h
  | created i =>
    simp only [step] at h
    split at h
    · rename_i chatId hi
      obtain rfl := Option.some.inj h
      exact moved_task hi rfl fun pre post htasks => .created i chatId pre post htasks
    · cases h
  | createFailed i =>
    simp only [step] at h
    split at h
    · rename_i chatId hi
      obtain rfl := Option.some.inj h
      exact moved_task hi rfl fun pre post htasks => .threw _ _ pre post htasks rfl ⟨i, .inr (.inl rfl)⟩
    · cases h
  | started i =>
    simp only [step] at h
    split at h
    · rename_i chatId c hi
      obtain rfl := Option.some.inj h
      exact moved_task hi rfl fun pre post htasks => .started i chatId c pre post hi htasks
    · cases h
  | startFailed i =>
    simp only [step] at h
    split at h
    · rename_i chatId c hi
      obtain rfl := Option.some.inj h
      exact moved_task hi rfl fun pre post htasks => .left _ _ c pre post htasks rfl ⟨i, .inl rfl⟩
    · cases h
  | setUp i restored =>
    simp only [step] at h
    split at h
    · rename_i chatId c hi
      obtain rfl := Option.some.inj h
      exact moved_task hi rfl fun pre post htasks => .kept i restored chatId c pre post hi htasks
    · cases h
  | setUpFailed i =>
    simp only [step] at h
    split at h
    · rename_i chatId c hi
      obtain rfl := Option.some.inj h
      exact moved_task hi rfl fun pre post htasks => .left _ _ c pre post htasks rfl ⟨i, .inr rfl⟩
    · cases h
  | resumeFailed i =>
    simp only [step] at h
    split at h
    · rename_i chatId c hi
      obtain rfl := Option.some.inj h
      exact moved_task hi rfl fun pre post htasks => .resumeFailed i chatId c pre post htasks
    · cases h
  | answered i sessionId =>
    simp only [step] at h
    split at h
    · rename_i chatId c retried hi
      obtain rfl := Option.some.inj h
      exact moved_task hi rfl fun pre post htasks => .answered i sessionId chatId c retried pre post htasks
    · cases h
  | failed i =>
    simp only [step] at h
    split at h
    · rename_i chatId c retried hi
      obtain rfl := Option.some.inj h
      exact moved_task hi rfl fun pre post htasks => .threw _ _ pre post htasks rfl ⟨i, .inr (.inr rfl)⟩
    · cases h
  | expire i =>
    simp only [step] at h
    split at h
    · rename_i id chatId hi
      split at h
      · rename_i c hc
        obtain rfl := Option.some.inj h
        exact .idle i id chatId c hi hc
      · obtain rfl := Option.some.inj h
        exact .expired i _
    · cases h
  | backedUp i =>
    simp only [step] at h
    split at h
    · rename_i chatId c idle hi
      obtain rfl := Option.some.inj h
      exact moved_cleanup hi rfl fun pre post hcleanups => .backedUp i chatId c idle pre post hcleanups
    · cases h
  | stopped i =>
    simp only [step] at h
    split at h
    · rename_i chatId c idle hi
      split at h
      · cases h
      · rename_i hremoved
        obtain rfl := Option.some.inj h
        exact moved_cleanup hi rfl fun pre post hcleanups => .stopped i chatId c idle pre post hcleanups hremoved
    · cases h
  | stopFailed i =>
    simp only [step] at h
    split at h
    · rename_i chatId c idle hi
      obtain rfl := Option.some.inj h
      obtain ⟨pre, post, hcleanups, -⟩ := move_cleanup hi
      exact .ended _ i _ pre post hi hcleanups (.inl rfl)
    · cases h
  | removed i =>
    simp only [step] at h
    split at h
    · rename_i chatId c idle hi
      obtain rfl := Option.some.inj h
      obtain ⟨pre, post, hcleanups, -⟩ := move_cleanup hi
      exact .removed i chatId c idle pre post hi hcleanups
    · cases h
  | removeFailed i =>
    simp only [step] at h
    split at h
    · rename_i chatId c idle hi
      obtain rfl := Option.some.inj h
      obtain ⟨pre, post, hcleanups, -⟩ := move_cleanup hi
      exact .ended _ i _ pre post hi hcleanups (.inr rfl)
    · cases h
  | shutdown =>
    simp only [step] at h
    split at h
    · rename_i hclosing
      obtain rfl := Option.some.inj h
      exact .shutdown hclosing
    · cases h
  | shutdownDone =>
    simp only [step] at h
    split at h
    · rename_i n hclosing
      split at h
      · rename_i hidle
        obtain rfl := Option.some.inj h
        exact .shutdownDone n hclosing (List.all_eq_true.mp hidle)
      · cases h
    · cases h
  | died c =>
    simp only [step] at h
    split at h
    · rename_i hrunning
      obtain rfl := Option.some.inj h
      exact .died c hrunning
    · cases h

/-! ## What the engine has -/

theorem get_modify (bs : List Box) (c d : Nat) (f : Box → Box) :
    (bs.modify c f)[d]? = if c = d then bs[d]?.map f else bs[d]? := by
  rw [List.getElem?_modify]
  by_cases hcd : c = d
  · cases bs[d]? <;> simp [hcd]
  · cases bs[d]? <;> simp [hcd]

@[simp] theorem status_setStatus (s : St) (c d : Nat) (st : Status) :
    (setStatus s c st).status d = if c = d then (s.status d).map fun _ => st else s.status d := by
  unfold St.status setStatus
  rw [get_modify]
  split
  · cases s.boxes[d]? <;> rfl
  · rfl

@[simp] theorem chatOf_setStatus (s : St) (c d : Nat) (st : Status) : (setStatus s c st).chatOf d = s.chatOf d := by
  unfold St.chatOf setStatus
  rw [get_modify]
  split
  · cases s.boxes[d]? <;> rfl
  · rfl

@[simp] theorem status_setSession (s : St) (c d : Nat) (x : Option String) : (setSession s c x).status d = s.status d := by
  unfold St.status setSession
  rw [get_modify]
  split
  · cases s.boxes[d]? <;> rfl
  · rfl

@[simp] theorem chatOf_setSession (s : St) (c d : Nat) (x : Option String) : (setSession s c x).chatOf d = s.chatOf d := by
  unfold St.chatOf setSession
  rw [get_modify]
  split
  · cases s.boxes[d]? <;> rfl
  · rfl

theorem status_some {s : St} {c : Nat} (h : c < s.boxes.length) : ∃ st, s.status c = some st := by
  unfold St.status
  rw [List.getElem?_eq_getElem h]
  exact ⟨_, rfl⟩

theorem drawn {s : St} {c : Nat} {chatId : String} (h : s.chatOf c = some chatId) : c < s.boxes.length := by
  unfold St.chatOf at h
  obtain ⟨b, hb, -⟩ := Option.map_eq_some_iff.mp h
  exact (List.getElem?_eq_some_iff.mp hb).1

theorem lookup_erase_some {m : AList fun _ : String => Nat} {a b : String} {c : Nat} (h : (m.erase a).lookup b = some c) :
    b ≠ a ∧ m.lookup b = some c := by
  by_cases hba : b = a
  · rw [hba, AList.lookup_erase] at h
    cases h
  · rw [AList.lookup_erase_ne hba] at h
    exact ⟨hba, h⟩

/-- The containers that are being created, with their chats. -/
def drafts (ts : List Task) : List (Nat × String) := ts.filterMap fun t => t.phase.creates.map (·, t.chatId)

theorem drafts_append (ts us : List Task) : drafts (ts ++ us) = drafts ts ++ drafts us := List.filterMap_append

theorem drafts_cons (t : Task) (ts : List Task) :
    drafts (t :: ts) = (t.phase.creates.map (·, t.chatId)).toList ++ drafts ts := by
  unfold drafts
  cases h : t.phase.creates <;> simp [h]

/-- What is kept, what is being created and what is cleaned up. -/
structure Base (s : St) : Prop where
  kept : ∀ chatId c, s.warmContainers.lookup chatId = some c → s.chatOf c = some chatId
  ofChat : ∀ d ∈ drafts s.tasks, s.chatOf d.1 = some d.2
  once : ((drafts s.tasks).map Prod.fst).Nodup
  unkept : ∀ d ∈ drafts s.tasks, ∀ chatId, s.warmContainers.lookup chatId ≠ some d.1
  untouched : ∀ d ∈ drafts s.tasks, ∀ k ∈ s.cleanups, k.containerId ≠ d.1
  there : ∀ d ∈ drafts s.tasks, s.status d.1 ≠ some .removed
  cleanups : ∀ k ∈ s.cleanups, k.containerId < s.boxes.length
  closing : ∀ n ∈ s.closing, n ≤ s.boxes.length
  closed : ∀ n ∈ s.closed, n ≤ s.boxes.length

/-- Nothing is created or kept that was not. -/
structure Within (s t : St) : Prop where
  length : t.boxes.length = s.boxes.length
  chatOf : ∀ c, t.chatOf c = s.chatOf c
  kept : ∀ chatId c, t.warmContainers.lookup chatId = some c → s.warmContainers.lookup chatId = some c
  drafts : (drafts t.tasks).Sublist (drafts s.tasks)
  there : ∀ d ∈ Warm.drafts s.tasks, s.status d.1 ≠ some .removed → t.status d.1 ≠ some .removed
  cleanups : ∀ k ∈ t.cleanups, (∃ l ∈ s.cleanups, l.containerId = k.containerId) ∨
    ∃ chatId, s.warmContainers.lookup chatId = some k.containerId
  closing : ∀ n ∈ t.closing, n ∈ s.closing ∨ n = s.boxes.length
  closed : ∀ n ∈ t.closed, n ∈ s.closed ∨ n ∈ s.closing

theorem Base.within {s t : St} (h : Base s) (w : Within s t) : Base t where
  kept chatId c hc := by
    rw [w.chatOf]
    exact h.kept chatId c (w.kept chatId c hc)
  ofChat d hd := by
    rw [w.chatOf]
    exact h.ofChat d (w.drafts.mem hd)
  once := (w.drafts.map Prod.fst).nodup h.once
  unkept d hd chatId hc := h.unkept d (w.drafts.mem hd) chatId (w.kept chatId d.1 hc)
  untouched d hd k hk hkd := by
    have hs := w.drafts.mem hd
    rcases w.cleanups k hk with ⟨l, hl, hlk⟩ | ⟨chatId, hc⟩
    · exact h.untouched d hs l hl (hlk.trans hkd)
    · exact h.unkept d hs chatId (hkd ▸ hc)
  there d hd := w.there d (w.drafts.mem hd) (h.there d (w.drafts.mem hd))
  cleanups k hk := by
    rw [w.length]
    rcases w.cleanups k hk with ⟨l, hl, hlk⟩ | ⟨chatId, hc⟩
    · rw [← hlk]
      exact h.cleanups l hl
    · exact drawn (h.kept chatId _ hc)
  closing n hn := by
    rw [w.length]
    rcases w.closing n hn with hn | hn
    · exact h.closing n hn
    · omega
  closed n hn := by
    rw [w.length]
    rcases w.closed n hn with hn | hn
    · exact h.closed n hn
    · exact h.closing n hn

/-- Where only the calls, the clean-ups, the timers and the sessions change. -/
theorem within_of {s t : St} (hlength : t.boxes.length = s.boxes.length) (hchat : ∀ c, t.chatOf c = s.chatOf c)
    (hstatus : ∀ c, t.status c = s.status c)
    (hkept : ∀ chatId c, t.warmContainers.lookup chatId = some c → s.warmContainers.lookup chatId = some c)
    (hdrafts : (drafts t.tasks).Sublist (drafts s.tasks))
    (hcleanups : ∀ k ∈ t.cleanups, (∃ l ∈ s.cleanups, l.containerId = k.containerId) ∨
      ∃ chatId, s.warmContainers.lookup chatId = some k.containerId)
    (hclosing : t.closing = s.closing) (hclosed : t.closed = s.closed) : Within s t :=
  ⟨hlength, hchat, hkept, hdrafts, fun d _ hd => by rw [hstatus]; exact hd, hcleanups,
    fun _ hn => .inl (hclosing ▸ hn), fun _ hn => .inl (hclosed ▸ hn)⟩

theorem drafts_left (pre post : List Task) (t : Task) : (drafts (pre ++ post)).Sublist (drafts (pre ++ t :: post)) := by
  rw [drafts_append, drafts_append, drafts_cons]
  exact (List.Sublist.refl _).append (List.sublist_append_right _ _)

/-- A call that goes on, with the container it was creating or none. -/
theorem drafts_moved {pre post : List Task} {t u : Task} (hu : u.phase.creates = none ∨
    u.phase.creates = t.phase.creates ∧ u.chatId = t.chatId) :
    (drafts (pre ++ u :: post)).Sublist (drafts (pre ++ t :: post)) := by
  rw [drafts_append, drafts_append, drafts_cons, drafts_cons]
  refine (List.Sublist.refl _).append (List.Sublist.append ?_ (List.Sublist.refl _))
  rcases hu with hu | ⟨hu, hchat⟩
  · rw [hu]
    exact List.nil_sublist _
  · rw [hu, hchat]

theorem creates_beginTask (s : St) (chatId : String) : (beginTask s chatId).phase.creates = none := by
  unfold beginTask
  split <;> rfl

/-- Only a call changes. -/
theorem within_tasks {s : St} {ts : List Task} (h : (drafts ts).Sublist (drafts s.tasks)) : Within s { s with tasks := ts } :=
  within_of rfl (fun _ => rfl) (fun _ => rfl) (fun _ _ hc => hc) h (fun k hk => .inl ⟨k, hk, rfl⟩) rfl rfl

theorem within_endCleanup {s : St} {i : Nat} {k : Cleanup} : Within s (endCleanup s i k) := by
  have hmem : ∀ l ∈ put s.cleanups i none, l ∈ s.cleanups := fun l hl => List.mem_of_mem_eraseIdx hl
  unfold endCleanup
  split
  · exact within_of rfl (fun _ => rfl) (fun _ => rfl) (fun _ _ hc => (lookup_erase_some hc).2) (List.Sublist.refl _)
      (fun l hl => .inl ⟨l, hmem l hl, rfl⟩) rfl rfl
  · exact within_of rfl (fun _ => rfl) (fun _ => rfl) (fun _ _ hc => hc) (List.Sublist.refl _)
      (fun l hl => .inl ⟨l, hmem l hl, rfl⟩) rfl rfl

theorem within_setStatus {s : St} {c : Nat} {st : Status} (h : st ≠ .removed ∨ ∀ d ∈ drafts s.tasks, c ≠ d.1) :
    Within s (setStatus s c st) where
  length := List.length_modify _ _ _
  chatOf d := chatOf_setStatus s c d st
  kept _ _ hc := hc
  drafts := List.Sublist.refl _
  there d hd hs := by
    rw [status_setStatus]
    rcases h with hst | hne
    · split
      · cases hd' : s.status d.1 with
        | none => simp
        | some st' => simpa using hst
      · exact hs
    · rw [if_neg (hne d hd)]
      exact hs
  cleanups k hk := .inl ⟨k, hk, rfl⟩
  closing n hn := .inl hn
  closed n hn := .inl hn

/-- Only a clean-up goes on. -/
theorem within_cleanups {s : St} {ks : List Cleanup} (h : ∀ k ∈ ks, (∃ l ∈ s.cleanups, l.containerId = k.containerId) ∨
    ∃ chatId, s.warmContainers.lookup chatId = some k.containerId) : Within s { s with cleanups := ks } :=
  within_of rfl (fun _ => rfl) (fun _ => rfl) (fun _ _ hc => hc) (List.Sublist.refl _) h rfl rfl

theorem cleanups_moved {ks pre post : List Cleanup} {k l : Cleanup} (hks : ks = pre ++ k :: post)
    {m : Cleanup} (hm : m ∈ pre ++ l :: post) (hc : l.containerId = k.containerId) :
    ∃ n ∈ ks, n.containerId = m.containerId := by
  rcases mem_moved hks hm with rfl | hm
  · exact ⟨k, by rw [hks]; simp, hc.symm⟩
  · exact ⟨m, hm, rfl⟩

theorem status_append {s : St} {b : Box} {c : Nat} (h : c < s.boxes.length) : ((s.boxes ++ [b])[c]?) = s.boxes[c]? :=
  List.getElem?_append_left h

theorem base_created {s : St} (h : Base s) {chatId : String} {pre post : List Task}
    (htasks : s.tasks = pre ++ ⟨chatId, .creating⟩ :: post) :
    Base { s with
      boxes := s.boxes ++ [⟨chatId, .created, none⟩]
      tasks := pre ++ ⟨chatId, .starting s.boxes.length⟩ :: post } := by
  -- the new container is no other
  have hold : ∀ d ∈ drafts (pre ++ ⟨chatId, .starting s.boxes.length⟩ :: post),
      d = (s.boxes.length, chatId) ∨ d ∈ drafts s.tasks := by
    intro d hd
    rw [drafts_append, drafts_cons] at hd
    rw [htasks, drafts_append, drafts_cons]
    simp only [List.mem_append] at hd ⊢
    rcases hd with hd | hd | hd
    · exact .inr (.inl hd)
    · exact .inl (List.mem_singleton.mp hd)
    · exact .inr (.inr (.inr hd))
  have hdrawn : ∀ d ∈ drafts s.tasks, d.1 < s.boxes.length := fun d hd => drawn (h.ofChat d hd)
  refine ⟨?_, ?_, ?_, ?_, ?_, ?_, ?_, ?_, ?_⟩
  · intro chat c hc
    have hs := h.kept chat c hc
    unfold St.chatOf
    rw [status_append (drawn hs)]
    exact hs
  · intro d hd
    unfold St.chatOf
    rcases hold d hd with rfl | hd
    · simp
    · rw [status_append (hdrawn d hd)]
      exact h.ofChat d hd
  · have hperm : (drafts (pre ++ ⟨chatId, .starting s.boxes.length⟩ :: post)).Perm
        ((s.boxes.length, chatId) :: drafts s.tasks) := by
      rw [htasks, drafts_append, drafts_append, drafts_cons, drafts_cons]
      exact List.perm_middle
    rw [(hperm.map Prod.fst).nodup_iff, List.map_cons, List.nodup_cons]
    refine ⟨fun hmem => ?_, h.once⟩
    obtain ⟨d, hd, heq⟩ := List.mem_map.mp hmem
    have hlt := hdrawn d hd
    omega
  · intro d hd chat hc
    have hkept := drawn (h.kept chat d.1 hc)
    rcases hold d hd with rfl | hd
    · exact Nat.lt_irrefl _ hkept
    · exact h.unkept d hd chat hc
  · intro d hd k hk hkd
    have hlt := h.cleanups k hk
    rcases hold d hd with rfl | hd
    · have heq : k.containerId = s.boxes.length := hkd
      omega
    · exact h.untouched d hd k hk hkd
  · intro d hd
    unfold St.status
    rcases hold d hd with rfl | hd
    · simp
    · rw [status_append (hdrawn d hd)]
      exact h.there d hd
  · intro k hk
    have hlt := h.cleanups k hk
    rw [List.length_append]
    omega
  · intro n hn
    have hle := h.closing n hn
    rw [List.length_append]
    omega
  · intro n hn
    have hle := h.closed n hn
    rw [List.length_append]
    omega

theorem base_kept {s : St} (h : Base s) {restored : Option String} {chatId : String} {c : Nat} {pre post : List Task}
    (htasks : s.tasks = pre ++ ⟨chatId, .settingUp c⟩ :: post) :
    Base { resetIdleTimer { setSession s c restored with warmContainers := s.warmContainers.insert chatId c } chatId with
      tasks := pre ++ ⟨chatId, .executing c false⟩ :: post } := by
  have hdrafts : drafts s.tasks = drafts pre ++ (c, chatId) :: drafts post := by
    rw [htasks, drafts_append, drafts_cons]
    rfl
  have hrest : drafts (pre ++ ⟨chatId, .executing c false⟩ :: post) = drafts pre ++ drafts post := by
    rw [drafts_append, drafts_cons]
    rfl
  have hown : (c, chatId) ∈ drafts s.tasks := by
    rw [hdrafts]
    simp
  have hold : ∀ d ∈ drafts pre ++ drafts post, d ∈ drafts s.tasks ∧ d.1 ≠ c := by
    intro d hd
    have honce := h.once
    rw [hdrafts, (List.perm_middle.map Prod.fst).nodup_iff, List.map_cons, List.nodup_cons] at honce
    refine ⟨?_, fun heq => honce.1 (List.mem_map.mpr ⟨d, hd, heq⟩)⟩
    rw [hdrafts]
    exact mem_others rfl hd
  have hlookup : ∀ chat d, (s.warmContainers.insert chatId c).lookup chat = some d →
      (chat = chatId ∧ d = c) ∨ s.warmContainers.lookup chat = some d := by
    intro chat d hd
    by_cases hchat : chat = chatId
    · rw [hchat, AList.lookup_insert] at hd
      exact .inl ⟨hchat, (Option.some.inj hd).symm⟩
    · rw [AList.lookup_insert_ne hchat] at hd
      exact .inr hd
  have hlength : (s.boxes.modify c fun b => { b with sessionId := restored }).length = s.boxes.length := List.length_modify _ _ _
  refine ⟨?_, ?_, ?_, ?_, ?_, ?_, ?_, ?_, ?_⟩
  · intro chat d hd
    refine (chatOf_setSession s c d restored).trans ?_
    rcases hlookup chat d hd with ⟨rfl, rfl⟩ | hd
    · exact h.ofChat _ hown
    · exact h.kept chat d hd
  · intro d hd
    rw [hrest] at hd
    exact (chatOf_setSession s c d.1 restored).trans (h.ofChat d (hold d hd).1)
  · rw [hrest]
    have honce := h.once
    rw [hdrafts, (List.perm_middle.map Prod.fst).nodup_iff, List.map_cons, List.nodup_cons] at honce
    exact honce.2
  · intro d hd chat hc
    rw [hrest] at hd
    rcases hlookup chat d.1 hc with ⟨-, heq⟩ | hc
    · exact (hold d hd).2 heq
    · exact h.unkept d (hold d hd).1 chat hc
  · intro d hd
    rw [hrest] at hd
    exact h.untouched d (hold d hd).1
  · intro d hd
    rw [hrest] at hd
    refine fun hst => h.there d (hold d hd).1 ((status_setSession s c d.1 restored).symm.trans hst)
  · intro k hk
    exact hlength ▸ h.cleanups k hk
  · intro n hn
    exact hlength ▸ h.closing n hn
  · intro n hn
    exact hlength ▸ h.closed n hn

theorem base_next {s t : St} {e : Ev} (h : Base s) (hn : Next s e t) : Base t := by
  cases hn with
  | executed chatId =>
    refine h.within (within_tasks ?_)
    rw [drafts_append, drafts_cons, creates_beginTask]
    simp [drafts]
  | healthy i chatId c pre post hi htasks hrunning => exact h.within (within_tasks (htasks ▸ drafts_moved (.inl rfl)))
  | unhealthy i chatId c pre post hi htasks =>
    exact h.within (within_of rfl (fun _ => rfl) (fun _ => rfl) (fun _ _ hc => (lookup_erase_some hc).2)
      (htasks ▸ drafts_moved (.inl rfl)) (fun k hk => .inl ⟨k, hk, rfl⟩) rfl rfl)
  | prepared i chatId pre post htasks => exact h.within (within_tasks (htasks ▸ drafts_moved (.inl rfl)))
  | threw e u pre post htasks hu he => exact h.within (within_tasks (htasks ▸ drafts_left pre post u))
  | created i chatId pre post htasks => exact base_created h htasks
  | started i chatId c pre post hi htasks =>
    exact (h.within (within_setStatus (.inl (by decide)))).within (within_tasks (htasks ▸ drafts_moved (.inr ⟨rfl, rfl⟩)))
  | left e u c pre post htasks hu he => exact h.within (within_tasks (htasks ▸ drafts_left pre post u))
  | kept i restored chatId c pre post hi htasks => exact base_kept h htasks
  | resumeFailed i chatId c pre post htasks =>
    exact h.within (within_of (List.length_modify _ _ _) (chatOf_setSession s c · none) (status_setSession s c · none)
      (fun _ _ hc => hc) (htasks ▸ drafts_moved (.inl rfl)) (fun k hk => .inl ⟨k, hk, rfl⟩) rfl rfl)
  | answered i sessionId chatId c retried pre post htasks =>
    exact h.within (within_of (List.length_modify _ _ _) (chatOf_setSession s c · _) (status_setSession s c · _)
      (fun _ _ hc => hc) (htasks ▸ drafts_left pre post _) (fun k hk => .inl ⟨k, hk, rfl⟩) rfl rfl)
  | expired i timers =>
    exact h.within (within_of rfl (fun _ => rfl) (fun _ => rfl) (fun _ _ hc => hc) (List.Sublist.refl _)
      (fun k hk => .inl ⟨k, hk, rfl⟩) rfl rfl)
  | idle i id chatId c hi hc =>
    refine h.within (within_of rfl (fun _ => rfl) (fun _ => rfl) (fun _ _ hd => hd) (List.Sublist.refl _) ?_ rfl rfl)
    intro k hk
    rcases List.mem_append.mp hk with hk | hk
    · exact .inl ⟨k, hk, rfl⟩
    · rw [List.mem_singleton.mp hk]
      exact .inr ⟨chatId, hc⟩
  | backedUp i chatId c idle pre post hcleanups =>
    exact h.within (within_cleanups fun k hk => .inl (cleanups_moved hcleanups hk rfl))
  | stopped i chatId c idle pre post hcleanups hremoved =>
    exact (h.within (within_setStatus (.inl (by decide)))).within
      (within_cleanups fun k hk => .inl (cleanups_moved hcleanups hk rfl))
  | ended e i k pre post hi hcleanups he => exact h.within within_endCleanup
  | removed i chatId c idle pre post hi hcleanups =>
    have hc : ∀ d ∈ drafts s.tasks, c ≠ d.1 := fun d hd => h.untouched d hd ⟨chatId, c, .removing, idle⟩ (by rw [hcleanups]; simp)
    exact (h.within (within_setStatus (.inr hc))).within within_endCleanup
  | shutdown hclosing =>
    refine h.within ⟨rfl, fun _ => rfl, fun _ _ hc => hc, List.Sublist.refl _, fun _ _ hd => hd, ?_, ?_, fun n hn => .inl hn⟩
    · intro k hk
      rcases List.mem_append.mp hk with hk | hk
      · exact .inl ⟨k, hk, rfl⟩
      · obtain ⟨⟨chatId, c⟩, he, rfl⟩ := List.mem_map.mp hk
        exact .inr ⟨chatId, AList.mem_lookup_iff.mpr he⟩
    · intro n hn
      exact .inr (Option.mem_some.mp hn).symm
  | shutdownDone n hclosing hidle =>
    refine h.within ⟨rfl, fun _ => rfl, ?_, List.Sublist.refl _, fun _ _ hd => hd, fun k hk => .inl ⟨k, hk, rfl⟩, nofun, ?_⟩
    · intro chatId c hc
      cases hc
    · intro m hm
      obtain rfl := Option.mem_some.mp hm
      exact .inr hclosing
  | died c hrunning => exact h.within (within_setStatus (.inl (by decide)))

theorem base {C : St → Ev → Prop} {s : St} (h : Reach machine C s) : Base s := by
  refine h.inv ⟨nofun, nofun, .nil, nofun, nofun, nofun, nofun, nofun, nofun⟩ ?_
  intro s e t _ hs _ he
  exact base_next hs (step_next he)

end FlowHelm.Agent.Warm
