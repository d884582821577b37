/-
  FlowHelm.Orchestrator.Machine — the orchestrator process, its queue table and the
  channel container that fills it (src/orchestrator/orchestrator.ts, with `start` of
  message-queue.ts and `shutdown` of index.ts).

  Actors. The channel container inserts rows; the trigger's NOTIFY goes to every LISTEN
  of the process. JavaScript runs one turn at a time: an event is a database statement
  taking effect, or the turn that resumes one suspended call. A `Call` is a
  `dequeueForChat` under way (from `onNewMessage` or `drainChat`): `claim` executes the
  statement, `resume` runs the code behind it. A task's `finally` block is the turn
  `finish`. The process can die at any point (`crash`), and `boot` is main() up to
  `queue.start()`. A rejected dequeue is an unhandled rejection, on which index.ts shuts
  the components down, the orchestrator (registered last) first.

  A NOTIFY in flight stays in `notifies` until its handler runs. Left out: MCP servers,
  the scheduled jobs, what an `ActiveTask` holds (nothing reads it), and deleted rows.

  - `onNewMessage_eq` / `drainPendingMessages_eq`: which chats of a step get a dequeue.
  - `step_next`: everything an event can do, with its guards (`Next`).
  - `base`: an item in memory is the row it was taken from (`Base`).
-/
import FlowHelm.Lib.Parties
import FlowHelm.Lib.Runs
import FlowHelm.Orchestrator.Task

namespace FlowHelm.Orchestrator

open Parties Runs Js

/-- A `dequeueForChat` under way, and what its statement came back with. -/
structure Call where
  chatId : String
  got : Option (Option QueuedItem)

/-- A call of `start()` in progress. -/
inductive Starting where
  | subscribing
  | querying
  | draining (chatIds : List String)

/-- A call of `stop()` in progress; `clean` is that the drain did not time out. -/
inductive Ending where
  | draining
  | closing (clean : Bool)

structure St where
  queue : Queue
  /-- Audio files on the downloads mount. -/
  audio : List String
  /-- Ghost: the item of each agent response the channel delivered. -/
  sent : List Nat
  /-- Ghost: each task message handed to the agent runtime, with its item. -/
  handed : List (Nat × String)
  /-- Ghost: the item of each attempt that was cut short after its response was delivered. -/
  interrupted : List Nat
  up : Bool
  /-- LISTENs of the process. -/
  listeners : Nat
  notifies : List String
  stopping : Bool
  /-- A `start()` was called in this process. -/
  started : Bool
  /-- The keys of the map. -/
  activeTasks : List String
  processingCount : Int
  calls : List Call
  tasks : List Task
  starting : List Starting
  ending : List Ending
  /-- A `stop()` has returned without its drain timing out, and no `start()` since. -/
  stopped : Bool

inductive Ev where
  /-- The channel container inserts a row. -/
  | insert (m : InboundMessage) (maxAttempts : Int) (now : Nat)
  | retryDeadLetter (queueId now : Nat)
  | notify (i : Nat)
  | claim (k tie now : Nat)
  | resume (k : Nat)
  | reject (k : Nat)
  | task (k : Nat) (ret : Ret) (now : Nat)
  | finish (k : Nat)
  | start
  | subscribed (i : Nat)
  | query (i : Nat) (order : List String)
  | drainPending (i : Nat)
  | stop
  | drained (i : Nat)
  | drainTimeout (i : Nat)
  | stopReturn (i : Nat)
  | crash
  | boot (now : Nat)

def Task.chatId (t : Task) : String := t.item.message.userId

/-! ## The turns -/

/-- Start a `dequeueForChat` for each of `chatIds`. -/
def launch (s : St) (chatIds : List String) : St := { s with calls := s.calls ++ chatIds.map (⟨·, none⟩) }

/-- `onNewMessage`, up to its dequeue. -/
def onNewMessage (cfg : Config) (s : St) (chatId : String) : St :=
  if s.activeTasks.contains chatId then s
  else if cfg.maxConcurrentContainers ≤ s.activeTasks.length then s
  else launch s [chatId]

/-- The second half of `drainPendingMessages`. -/
def drainPendingMessages (cfg : Config) (s : St) (chatIds : List String) : St := chatIds.foldl (onNewMessage cfg) s

/-- The start of `processQueueItem`. -/
def processQueueItem (cfg : Config) (s : St) (item : QueuedItem) : St :=
  let chatId := item.message.userId
  { s with activeTasks := if s.activeTasks.contains chatId then s.activeTasks else s.activeTasks ++ [chatId],
           processingCount := s.processingCount + 1,
           tasks := s.tasks ++ [Task.start cfg item] }

/-- The call at `k` of the `dequeueForChat`s settles. -/
def dropCall (s : St) (k : Nat) : St := { s with calls := s.calls.eraseIdx k }

/-- The `finally` block of the task at `k`. -/
def finallyBlock (s : St) (k : Nat) (t : Task) : St :=
  let s := { s with tasks := s.tasks.eraseIdx k,
                    activeTasks := s.activeTasks.filter (· != t.chatId),
                    processingCount := s.processingCount - 1 }
  if s.stopping then s else launch s [t.chatId]

def Effect.onQueue (q : Queue) (id now : Nat) : Effect → Queue
  | .acknowledge => q.acknowledge id now
  | .fail error => q.fail id error now
  | _ => q

def Effect.onAudio (audio : List String) : Effect → List String
  | .unlink path => audio.filter (· != path)
  | _ => audio

def Effect.handed (id : Nat) : Effect → List (Nat × String)
  | .hand message => [(id, message)]
  | _ => []

def Effect.sent (id : Nat) : Effect → List Nat
  | .deliver => [id]
  | _ => []

/-- What a step of the task on item `id` does outside the task. -/
def perform (s : St) (id now : Nat) (e : Effect) : St :=
  { s with queue := e.onQueue s.queue id now, audio := e.onAudio s.audio,
           handed := s.handed ++ e.handed id, sent := s.sent ++ e.sent id }

/-- The attempt `t` had delivered its response and ends, in `t'`, in a failure. -/
def cut (t t' : Task) : List Nat := if t.open && t'.pc.failing then [t.item.id] else []

def runTask (s : St) (k now : Nat) (t t' : Task) (e : Effect) : St :=
  perform { s with tasks := s.tasks.set k t', interrupted := s.interrupted ++ cut t t' } t.item.id now e

/-- An audio file's name is a fresh UUID. -/
def freshAudio (s : St) (m : InboundMessage) : Bool :=
  !given m.audioPath ||
    (!s.audio.contains (m.audioPath.getD "") && s.queue.rows.all (·.payload.audioPath != m.audioPath))

def insertRow (s : St) (m : InboundMessage) (maxAttempts : Int) (now : Nat) : St :=
  { s with queue := s.queue.enqueue m maxAttempts now,
           audio := if given m.audioPath then s.audio ++ [m.audioPath.getD ""] else s.audio,
           notifies := s.notifies ++ List.replicate s.listeners m.userId }

def stopCall (s : St) : St := { s with stopping := true, ending := s.ending ++ [.draining] }

/-- The process dies: its memory is gone, the table and the files stay. -/
def crashed (s : St) : St where
  queue := s.queue
  audio := s.audio
  sent := s.sent
  handed := s.handed
  interrupted := s.interrupted ++ (s.tasks.filter Task.open).map (·.item.id)
  up := false
  listeners := 0
  notifies := []
  stopping := false
  started := false
  activeTasks := []
  processingCount := 0
  calls := []
  tasks := []
  starting := []
  ending := []
  stopped := false

def step (cfg : Config) (s : St) : Ev → Option St
  | .insert m k now => if freshAudio s m then some (insertRow s m k now) else none
  | .retryDeadLetter id now => some { s with queue := (s.queue.retryDeadLetter id now).2 }
  | .notify i => match s.notifies[i]? with
    | some c =>
      let s := { s with notifies := s.notifies.eraseIdx i }
      some (if s.stopping then s else onNewMessage cfg s c)
    | none => none
  | .claim k tie now => match s.calls[k]? with
    | some ⟨c, none⟩ =>
      let (got, queue) := s.queue.dequeueForChat c tie now
      some { s with queue := queue, calls := s.calls.set k ⟨c, some got⟩ }
    | _ => none
  | .resume k => match s.calls[k]? with
    | some ⟨_, some none⟩ => some (dropCall s k)
    | some ⟨_, some (some item)⟩ => some (processQueueItem cfg (dropCall s k) item)
    | _ => none
  | .reject k => if k < s.calls.length then some (stopCall (dropCall s k)) else none
  | .task k ret now => match s.tasks[k]? with
    | some t => match t.step cfg ret with
      | some (t', e) => some (runTask s k now t t' e)
      | none => none
    | none => none
  | .finish k => match s.tasks[k]? with
    | some t => match t.pc with
      | .finally => some (finallyBlock s k t)
      | _ => none
    | none => none
  | .start =>
    if s.up then
      some { s with stopping := false, started := true, stopped := false, starting := s.starting ++ [.subscribing] }
    else none
  | .subscribed i => match s.starting[i]? with
    | some .subscribing => some { s with listeners := s.listeners + 1, starting := s.starting.set i .querying }
    | _ => none
  | .query i order => match s.starting[i]? with
    | some .querying =>
      if order.Perm s.queue.pendingChatIds then some { s with starting := s.starting.set i (.draining order) } else none
    | _ => none
  | .drainPending i => match s.starting[i]? with
    | some (.draining order) => some (drainPendingMessages cfg { s with starting := s.starting.eraseIdx i } order)
    | _ => none
  | .stop => if s.up then some (stopCall s) else none
  | .drained i => match s.ending[i]? with
    | some .draining =>
      if s.processingCount ≤ 0 then some { s with ending := s.ending.set i (.closing true) } else none
    | _ => none
  | .drainTimeout i => match s.ending[i]? with
    | some .draining =>
      if 0 < s.processingCount then some { s with ending := s.ending.set i (.closing false) } else none
    | _ => none
  | .stopReturn i => match s.ending[i]? with
    | some (.closing clean) => some { s with ending := s.ending.eraseIdx i, stopped := s.stopped || clean }
    | _ => none
  | .crash => if s.up then some (crashed s) else none
  | .boot now => if s.up then none else some { s with up := true, queue := s.queue.recoverStuckMessages now }

def St.init : St := crashed ⟨.empty, [], [], [], [], false, 0, [], false, false, [], 0, [], [], [], [], false⟩

def machine (cfg : Config) : System St Ev := ⟨St.init, step cfg⟩

/-! ## Dequeues started -/

/-- Both checks of `onNewMessage` pass. -/
def accepts (cfg : Config) (s : St) (chatId : String) : Bool :=
  !s.activeTasks.contains chatId && decide (s.activeTasks.length < cfg.maxConcurrentContainers)

/-- The chats whose `onNewMessage` reaches its dequeue in this event. -/
def launched (cfg : Config) (s : St) : Ev → List String
  | .notify i => match s.notifies[i]? with
    | some c => if s.stopping then [] else [c].filter (accepts cfg s)
    | none => []
  | .drainPending i => match s.starting[i]? with
    | some (.draining order) => order.filter (accepts cfg s)
    | _ => []
  | _ => []

@[simp] theorem launch_nil (s : St) : launch s [] = s := by simp [launch]

theorem onNewMessage_eq (cfg : Config) (s : St) (c : String) :
    onNewMessage cfg s c = launch s ([c].filter (accepts cfg s)) := by
  unfold onNewMessage accepts
  by_cases hc : c ∈ s.activeTasks
  · simp [hc]
  by_cases hl : s.activeTasks.length < cfg.maxConcurrentContainers
  · simp [hc, hl, Nat.not_le_of_lt hl]
  · simp [hc, hl, Nat.le_of_not_lt hl]

theorem drainPendingMessages_eq (cfg : Config) (s : St) (cs : List String) :
    drainPendingMessages cfg s cs = launch s (cs.filter (accepts cfg s)) := by
  induction cs generalizing s with
  | nil => simp [drainPendingMessages]
  | cons c cs ih =>
    have hstep : drainPendingMessages cfg s (c :: cs) = drainPendingMessages cfg (onNewMessage cfg s c) cs := rfl
    -- a dequeue started here changes neither of the two checks
    have hacc : accepts cfg (onNewMessage cfg s c) = accepts cfg s := by
      rw [onNewMessage_eq]; rfl
    rw [hstep, ih, hacc, onNewMessage_eq, List.filter_cons, List.filter_cons]
    split <;> simp [launch]

/-! ## What an event can do -/

/-- Everything an event can do. A list with an entry picked out is `pre ++ entry :: post`. -/
inductive Next (cfg : Config) (s : St) : Ev → St → Prop
  | insert (m : InboundMessage) (k : Int) (now : Nat) : freshAudio s m = true →
      Next cfg s (.insert m k now) (insertRow s m k now)
  | retried (id now : Nat) :
      Next cfg s (.retryDeadLetter id now) { s with queue := (s.queue.retryDeadLetter id now).2 }
  | notified (i : Nat) (c : String) (pre post : List String) :
      s.notifies[i]? = some c → s.notifies = pre ++ c :: post → s.notifies.eraseIdx i = pre ++ post →
      Next cfg s (.notify i) (launch { s with notifies := pre ++ post } (launched cfg s (.notify i)))
  | claimed (k tie now : Nat) (c : String) (r : QueueRow) (pre post : List Call) :
      s.calls = pre ++ ⟨c, none⟩ :: post → r ∈ s.queue.rows → r.status = .pending → r.chatId = c →
      Next cfg s (.claim k tie now)
        { s with queue := s.queue.update (·.id == r.id) (Queue.setClaimed now) fun _ => rfl,
                 calls := pre ++ ⟨c, some (some (rowToItem (Queue.setClaimed now r)))⟩ :: post }
  | cameEmpty (k tie now : Nat) (c : String) (pre post : List Call) :
      s.calls = pre ++ ⟨c, none⟩ :: post → (∀ r ∈ s.queue.rows, r.status = .pending → r.chatId ≠ c) →
      Next cfg s (.claim k tie now) { s with calls := pre ++ ⟨c, some none⟩ :: post }
  | dropped (k : Nat) (c : String) (pre post : List Call) : s.calls = pre ++ ⟨c, some none⟩ :: post →
      Next cfg s (.resume k) { s with calls := pre ++ post }
  | begun (k : Nat) (c : String) (it : QueuedItem) (pre post : List Call) :
      s.calls = pre ++ ⟨c, some (some it)⟩ :: post →
      Next cfg s (.resume k) (processQueueItem cfg { s with calls := pre ++ post } it)
  | rejected (k : Nat) (c : Call) (pre post : List Call) : s.calls[k]? = some c → s.calls = pre ++ c :: post →
      Next cfg s (.reject k) (stopCall { s with calls := pre ++ post })
  | task (k : Nat) (ret : Ret) (now : Nat) (t t' : Task) (e : Effect) (pre post : List Task) :
      s.tasks[k]? = some t → s.tasks = pre ++ t :: post → t.step cfg ret = some (t', e) →
      Next cfg s (.task k ret now)
        (perform { s with tasks := pre ++ t' :: post, interrupted := s.interrupted ++ cut t t' } t.item.id now e)
  | finished (k : Nat) (t : Task) (pre post : List Task) : s.tasks = pre ++ t :: post → t.pc = .finally →
      Next cfg s (.finish k)
        (launch { s with tasks := pre ++ post, activeTasks := s.activeTasks.filter (· != t.chatId),
                         processingCount := s.processingCount - 1 } (if s.stopping then [] else [t.chatId]))
  | started : s.up = true →
      Next cfg s .start
        { s with stopping := false, started := true, stopped := false, starting := s.starting ++ [.subscribing] }
  | subscribed (i : Nat) (pre post : List Starting) : s.starting = pre ++ .subscribing :: post →
      Next cfg s (.subscribed i) { s with listeners := s.listeners + 1, starting := pre ++ .querying :: post }
  | queried (i : Nat) (order : List String) (pre post : List Starting) : s.starting = pre ++ .querying :: post →
      order.Perm s.queue.pendingChatIds →
      Next cfg s (.query i order) { s with starting := pre ++ .draining order :: post }
  | drainedPending (i : Nat) (order : List String) (pre post : List Starting) :
      s.starting[i]? = some (.draining order) → s.starting = pre ++ .draining order :: post →
      s.starting.eraseIdx i = pre ++ post →
      Next cfg s (.drainPending i) (launch { s with starting := pre ++ post } (launched cfg s (.drainPending i)))
  | stopCalled : s.up = true → Next cfg s .stop (stopCall s)
  | drained (i : Nat) (pre post : List Ending) : s.ending = pre ++ .draining :: post → s.processingCount ≤ 0 →
      Next cfg s (.drained i) { s with ending := pre ++ .closing true :: post }
  | timedOut (i : Nat) (pre post : List Ending) : s.ending = pre ++ .draining :: post → 0 < s.processingCount →
      Next cfg s (.drainTimeout i) { s with ending := pre ++ .closing false :: post }
  | stopReturned (i : Nat) (clean : Bool) (pre post : List Ending) : s.ending = pre ++ .closing clean :: post →
      Next cfg s (.stopReturn i) { s with ending := pre ++ post, stopped := s.stopped || clean }
  | died : s.up = true → Next cfg s .crash (crashed s)
  | booted (now : Nat) : s.up = false →
      Next cfg s (.boot now) { s with up := true, queue := s.queue.recoverStuckMessages now }

theorem claim_next {cfg : Config} {s t : St} {k tie now : Nat} (h : step cfg s (.claim k tie now) = some t) :
    Next cfg s (.claim k tie now) t := by
  simp only [step] at h
  split at h
  case h_2 => cases h
  case h_1 c hc =>
    obtain ⟨pre, post, hs, -, hset⟩ := splits hc
    rcases hd : s.queue.dequeueForChat c tie now with ⟨_ | it, q⟩
    · rw [hd] at h
      obtain ⟨hnone, rfl⟩ := Queue.claim_none hd
      simp only [hset, Option.some.injEq] at h; subst h
      refine .cameEmpty k tie now c pre post hs ?_
      intro r hr hp hrc
      have hf := hnone r hr
      simp [Queue.isPending, hp, hrc] at hf
    · rw [hd] at h
      obtain ⟨r, hr, hpr, -, rfl, rfl⟩ := Queue.claim_spec hd
      simp only [hset, Option.some.injEq] at h; subst h
      simp only [Queue.isPending, Bool.and_eq_true, beq_iff_eq] at hpr
      exact .claimed k tie now c r pre post hs hr hpr.1 hpr.2

theorem step_next {cfg : Config} {s t : St} {e : Ev} (h : step cfg s e = some t) : Next cfg s e t := by
  cases e with
  | insert m k now =>
    simp only [step] at h
    split at h
    · rename_i hf
      obtain rfl := Option.some.inj h
      exact .insert m k now hf
    · cases h
  | retryDeadLetter id now =>
    obtain rfl := Option.some.inj h
    exact .retried id now
  | notify i =>
    simp only [step] at h
    split at h
    case h_2 => cases h
    case h_1 c hc =>
      obtain rfl := Option.some.inj h
      obtain ⟨pre, post, hs, he, -⟩ := splits hc
      have hn : Next cfg s (.notify i) _ := .notified i c pre post hc hs he
      rw [he]
      simp only [launched, hc] at hn
      by_cases hst : s.stopping
      · simpa [hst] using hn
      · simp only [hst, Bool.false_eq_true, if_false, onNewMessage_eq] at hn ⊢
        exact hn
  | claim k tie now => exact claim_next h
  | resume k =>
    simp only [step] at h
    split at h
    · rename_i c hc
      obtain rfl := Option.some.inj h
      obtain ⟨pre, post, hs, he, -⟩ := splits hc
      simp only [dropCall, he]
      exact .dropped k c pre post hs
    · rename_i c it hc
      obtain rfl := Option.some.inj h
      obtain ⟨pre, post, hs, he, -⟩ := splits hc
      simp only [dropCall, he]
      exact .begun k c it pre post hs
    · cases h
  | reject k =>
    simp only [step] at h
    split at h
    · rename_i hk
      obtain rfl := Option.some.inj h
      have hc : s.calls[k]? = some s.calls[k] := List.getElem?_eq_getElem hk
      obtain ⟨pre, post, hs, he, -⟩ := splits hc
      simp only [dropCall, he]
      exact .rejected k _ pre post hc hs
    · cases h
  | task k ret now =>
    simp only [step] at h
    split at h
    case h_2 => cases h
    case h_1 t0 hc =>
      split at h
      · rename_i t' e hst
        obtain rfl := Option.some.inj h
        obtain ⟨pre, post, hs, -, hset⟩ := splits hc
        simp only [runTask, hset]
        exact .task k ret now t0 t' e pre post hc hs hst
      · cases h
  | finish k =>
    simp only [step] at h
    split at h
    case h_2 => cases h
    case h_1 t0 hc =>
      split at h
      · rename_i hpc
        obtain rfl := Option.some.inj h
        obtain ⟨pre, post, hs, he, -⟩ := splits hc
        have hn : Next cfg s (.finish k) _ := .finished k t0 pre post hs hpc
        simp only [finallyBlock, he]
        by_cases hst : s.stopping
        · simpa [hst] using hn
        · simpa [hst] using hn
      · cases h
  | start =>
    simp only [step] at h
    split at h
    · rename_i hu
      obtain rfl := Option.some.inj h
      exact .started hu
    · cases h
  | subscribed i =>
    simp only [step] at h
    split at h
    · rename_i hc
      obtain rfl := Option.some.inj h
      obtain ⟨pre, post, hs, -, hset⟩ := splits hc
      rw [hset]
      exact .subscribed i pre post hs
    · cases h
  | query i order =>
    simp only [step] at h
    split at h
    case h_2 => cases h
    case h_1 hc =>
      split at h
      · rename_i hp
        obtain rfl := Option.some.inj h
        obtain ⟨pre, post, hs, -, hset⟩ := splits hc
        rw [hset]
        exact .queried i order pre post hs hp
      · cases h
  | drainPending i =>
    simp only [step] at h
    split at h
    · rename_i order hc
      obtain rfl := Option.some.inj h
      obtain ⟨pre, post, hs, he, -⟩ := splits hc
      have hn : Next cfg s (.drainPending i) _ := .drainedPending i order pre post hc hs he
      simp only [launched, hc] at hn
      rw [he, drainPendingMessages_eq]
      exact hn
    · cases h
  | stop =>
    simp only [step] at h
    split at h
    · rename_i hu
      obtain rfl := Option.some.inj h
      exact .stopCalled hu
    · cases h
  | drained i =>
    simp only [step] at h
    split at h
    case h_2 => cases h
    case h_1 hc =>
      split at h
      · rename_i hp
        obtain rfl := Option.some.inj h
        obtain ⟨pre, post, hs, -, hset⟩ := splits hc
        rw [hset]
        exact .drained i pre post hs hp
      · cases h
  | drainTimeout i =>
    simp only [step] at h
    split at h
    case h_2 => cases h
    case h_1 hc =>
      split at h
      · rename_i hp
        obtain rfl := Option.some.inj h
        obtain ⟨pre, post, hs, -, hset⟩ := splits hc
        rw [hset]
        exact .timedOut i pre post hs hp
      · cases h
  | stopReturn i =>
    simp only [step] at h
    split at h
    · rename_i clean hc
      obtain rfl := Option.some.inj h
      obtain ⟨pre, post, hs, he, -⟩ := splits hc
      rw [he]
      exact .stopReturned i clean pre post hs
    · cases h
  | crash =>
    simp only [step] at h
    split at h
    · rename_i hu
      obtain rfl := Option.some.inj h
      exact .died hu
    · cases h
  | boot now =>
    simp only [step] at h
    split at h
    · cases h
    · rename_i hu
      obtain rfl := Option.some.inj h
      exact .booted now (by simpa using hu)

/-! ## Items in memory -/

/-- The call came back with the item of id `id`. -/
def Call.holds (id : Nat) (c : Call) : Bool :=
  match c.got with
  | some (some it) => it.id == id
  | _ => false

/-- An item in memory: claimed and not resumed, or with its task. -/
def St.Held (s : St) (it : QueuedItem) : Prop :=
  (∃ c ∈ s.calls, c.got = some (some it)) ∨ ∃ t ∈ s.tasks, t.item = it

/-- Nothing of the process is in memory. -/
def St.Idle (s : St) : Prop :=
  s.calls = [] ∧ s.tasks = [] ∧ s.notifies = [] ∧ s.starting = [] ∧ s.listeners = 0 ∧ s.started = false

structure Base (s : St) : Prop where
  /-- A dequeue answers with an item of its chat. -/
  ofChat : ∀ c ∈ s.calls, ∀ it, c.got = some (some it) → it.message.userId = c.chatId
  /-- An item in memory is the row it was taken from. -/
  row : ∀ it, s.Held it → ∃ r ∈ s.queue.rows, r.id = it.id ∧ r.payload = it.message
  down : s.up = false → s.Idle

theorem init_base : Base St.init := by
  refine ⟨?_, ?_, fun _ => ⟨rfl, rfl, rfl, rfl, rfl, rfl⟩⟩
  · intro c hc
    cases hc
  · intro it hi
    rcases hi with ⟨c, hc, -⟩ | ⟨t, ht, -⟩
    · cases hc
    · cases ht

theorem down_next {cfg : Config} {s t : St} {e : Ev} (h : s.up = false → s.Idle) (hn : Next cfg s e t)
    (hu : t.up = false) : t.Idle := by
  cases hn with
  | insert m k now hf =>
    obtain ⟨hc, ht, hnt, hs, hl, hst⟩ := h hu
    refine ⟨hc, ht, ?_, hs, hl, hst⟩
    simp [insertRow, hnt, hl]
  | started hup => simp [hup] at hu
  | stopCalled hup => simp [stopCall, hup] at hu
  | died hup => exact ⟨rfl, rfl, rfl, rfl, rfl, rfl⟩
  | booted now hup => cases hu
  | retried | drained | timedOut | stopReturned => exact h hu
  -- every other event finds something in memory
  | notified i c pre post hi hs => simp [(h hu).2.2.1] at hs
  | claimed k tie now c r pre post hs => simp [(h hu).1] at hs
  | cameEmpty k tie now c pre post hs => simp [(h hu).1] at hs
  | dropped k c pre post hs => simp [(h hu).1] at hs
  | begun k c it pre post hs => simp [(h hu).1] at hs
  | rejected k c pre post hc hs => simp [(h hu).1] at hs
  | task k ret now t0 t' e pre post ht hs => simp [(h hu).2.1] at hs
  | finished k t0 pre post hs => simp [(h hu).2.1] at hs
  | subscribed i pre post hs => simp [(h hu).2.2.2.1] at hs
  | queried i order pre post hs => simp [(h hu).2.2.2.1] at hs
  | drainedPending i order pre post hi hs => simp [(h hu).2.2.2.1] at hs

theorem onQueue_keeps (e : Effect) (q : Queue) (id now : Nat) : q.Keeps (e.onQueue q id now) := by
  cases e with
  | acknowledge => exact Queue.keeps_update (by intro r; rfl) (by intro r; rfl)
  | fail error => exact Queue.keeps_update (by intro r; rfl) (by intro r; rfl)
  | _ => exact .refl q

theorem keeps_next {cfg : Config} {s t : St} {e : Ev} (hn : Next cfg s e t) : s.queue.Keeps t.queue := by
  cases hn with
  | insert m k now hf => exact Queue.keeps_enqueue _ _ _ _
  | task k ret now t0 t' e pre post ht hs => exact onQueue_keeps _ _ _ _
  | retried | claimed | booted => exact Queue.keeps_update (by intro r; rfl) (by intro r; rfl)
  | _ => exact .refl _

/-- Dequeues added: nothing more is held. -/
theorem launch_held {s : St} {cs : List String} {it : QueuedItem} (h : (launch s cs).Held it) : s.Held it := by
  rcases h with ⟨c, hc, hg⟩ | ht
  · rcases List.mem_append.mp hc with hc | hc
    · exact Or.inl ⟨c, hc, hg⟩
    · obtain ⟨x, -, rfl⟩ := List.mem_map.mp hc
      cases hg
  · exact Or.inr ht

theorem step_item {cfg : Config} {t t' : Task} {r : Ret} {e : Effect} (h : t.step cfg r = some (t', e)) :
    t'.item = t.item := by
  cases Task.step_move h <;> rfl

/-- What is held after an event: what was held before, or the item a dequeue just took. -/
theorem held_next {cfg : Config} {s t : St} {e : Ev} (hn : Next cfg s e t) {it : QueuedItem} (h : t.Held it) :
    s.Held it ∨ ∃ r ∈ s.queue.rows, ∃ now, it = rowToItem (Queue.setClaimed now r) := by
  cases hn with
  | claimed k tie now c r pre post hs hr =>
    rcases h with ⟨x, hx, hg⟩ | ht
    · rcases mem_moved hs hx with rfl | hx
      · exact Or.inr ⟨r, hr, now, by simpa using hg.symm⟩
      · exact Or.inl (Or.inl ⟨x, hx, hg⟩)
    · exact Or.inl (Or.inr ht)
  | cameEmpty k tie now c pre post hs =>
    rcases h with ⟨x, hx, hg⟩ | ht
    · rcases mem_moved hs hx with rfl | hx
      · cases hg
      · exact Or.inl (Or.inl ⟨x, hx, hg⟩)
    · exact Or.inl (Or.inr ht)
  | dropped k c pre post hs =>
    rcases h with ⟨x, hx, hg⟩ | ht
    · exact Or.inl (Or.inl ⟨x, mem_others hs hx, hg⟩)
    · exact Or.inl (Or.inr ht)
  | begun k c it0 pre post hs =>
    rcases h with ⟨x, hx, hg⟩ | ⟨x, hx, hi⟩
    · exact Or.inl (Or.inl ⟨x, mem_others hs hx, hg⟩)
    · rcases List.mem_append.mp hx with hx | hx
      · exact Or.inl (Or.inr ⟨x, hx, hi⟩)
      · simp only [List.mem_singleton] at hx; subst hx
        rw [Task.start_item] at hi; subst hi
        exact Or.inl (Or.inl ⟨⟨c, some (some it0)⟩, by rw [hs]; simp, rfl⟩)
  | rejected k c pre post hc hs =>
    rcases h with ⟨x, hx, hg⟩ | ht
    · exact Or.inl (Or.inl ⟨x, mem_others hs hx, hg⟩)
    · exact Or.inl (Or.inr ht)
  | task k ret now t0 t' e pre post ht hs hst =>
    rcases h with hc | ⟨x, hx, hi⟩
    · exact Or.inl (Or.inl hc)
    · rcases mem_moved hs hx with rfl | hx
      · exact Or.inl (Or.inr ⟨t0, by simp [hs], (step_item hst).symm.trans hi⟩)
      · exact Or.inl (Or.inr ⟨x, hx, hi⟩)
  | finished k t0 pre post hs hpc =>
    rcases launch_held h with hc | ⟨x, hx, hi⟩
    · exact Or.inl (Or.inl hc)
    · exact Or.inl (Or.inr ⟨x, mem_others hs hx, hi⟩)
  | notified | drainedPending => exact Or.inl (launch_held h)
  | died hup =>
    rcases h with ⟨x, hx, -⟩ | ⟨x, hx, -⟩
    · cases hx
    · cases hx
  | _ => exact Or.inl h

theorem ofChat_next {cfg : Config} {s t : St} {e : Ev} (h : Base s) (hn : Next cfg s e t) :
    ∀ c ∈ t.calls, ∀ it, c.got = some (some it) → it.message.userId = c.chatId := by
  intro x hx it hg
  have hlaunch : ∀ {u : St} {cs : List String}, x ∈ (launch u cs).calls → x ∈ u.calls := by
    intro u cs hx
    rcases List.mem_append.mp hx with hx | hx
    · exact hx
    · obtain ⟨y, -, rfl⟩ := List.mem_map.mp hx
      cases hg
  cases hn with
  | claimed k tie now c r pre post hs hr hp hrc =>
    rcases mem_moved hs hx with rfl | hx
    · simp only [Option.some.injEq] at hg; subst hg
      exact r.chatOk.symm.trans hrc
    · exact h.ofChat x hx it hg
  | cameEmpty k tie now c pre post hs =>
    rcases mem_moved hs hx with rfl | hx
    · cases hg
    · exact h.ofChat x hx it hg
  | dropped k c pre post hs => exact h.ofChat x (mem_others hs hx) it hg
  | begun k c it0 pre post hs => exact h.ofChat x (mem_others hs hx) it hg
  | rejected k c pre post hc hs => exact h.ofChat x (mem_others hs hx) it hg
  | notified | drainedPending | finished => exact h.ofChat x (hlaunch hx) it hg
  | died hup => cases hx
  | _ => exact h.ofChat x hx it hg

theorem base_next {cfg : Config} {s t : St} {e : Ev} (h : Base s) (hn : Next cfg s e t) : Base t := by
  refine ⟨ofChat_next h hn, ?_, down_next h.down hn⟩
  intro it hi
  rcases held_next hn hi with hi | ⟨r, hr, now, rfl⟩
  · obtain ⟨r, hr, hid, hp⟩ := h.row it hi
    obtain ⟨r', hr', hid', hp'⟩ := keeps_next hn r hr
    exact ⟨r', hr', hid'.trans hid, hp'.trans hp⟩
  · obtain ⟨r', hr', hid', hp'⟩ := keeps_next hn r hr
    exact ⟨r', hr', hid', hp'⟩

theorem base {cfg : Config} {C : St → Ev → Prop} {s : St} (h : Reach (machine cfg) C s) : Base s := by
  refine h.inv init_base ?_
  intro s e t _ hi _ hst
  exact base_next hi (step_next hst)

/-- The row with a held item's id carries its message. -/
theorem Base.payload {s : St} (h : Base s) {it : QueuedItem} (hi : s.Held it) {r : QueueRow} (hr : r ∈ s.queue.rows)
    (hid : r.id = it.id) : r.payload = it.message := by
  obtain ⟨r0, h0, hid0, hp⟩ := h.row it hi
  rw [Queue.eq_of_id hr h0 (hid.trans hid0.symm)]
  exact hp

end FlowHelm.Orchestrator
