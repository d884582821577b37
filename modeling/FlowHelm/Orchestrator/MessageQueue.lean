/-
  FlowHelm.Orchestrator.MessageQueue — the persistent queue table and its statements
  (src/orchestrator/message-queue.ts, `queue` in schema.sql).

  A row is one enqueued `InboundMessage`. Both INSERTs of the program set `chat_id` to
  the message's `userId`, so a row carries that as a field, and a table carries what
  the IDENTITY column gives: ids ascend and stay below the sequence's next value. Every
  statement is one atomic step of the database. The two dequeues order by `created_at`
  only: among equally old rows the database may take any, and `tie` is its choice.

  - `claim_spec`: what a dequeue does, the row it takes and the table it leaves.
  - `claim_none`: a dequeue comes back empty only when no row matches.
  - `fail_status` / `recover_status`: the two ways back to `pending`, and that only the
    first looks at `attempts`.
-/
import Mathlib.Data.List.Dedup
import Mathlib.Data.List.Pairwise

namespace FlowHelm.Orchestrator

inductive ChannelType where
  | telegram
  | whatsapp
  | gmail
  deriving DecidableEq, Repr

/-- A normalized inbound message, less its `metadata` (no modelled function reads it). -/
structure InboundMessage where
  id : String
  channel : ChannelType
  userId : String
  senderName : String
  text : Option String
  audioPath : Option String
  imagePath : Option String
  replyToMessageId : Option String
  timestamp : Nat
  isFromMe : Bool
  deriving DecidableEq, Repr

inductive QueueStatus where
  | pending
  | processing
  | completed
  | failed
  | deadLetter
  deriving DecidableEq, Repr

structure QueueRow where
  id : Nat
  messageId : String
  chatId : String
  channel : ChannelType
  payload : InboundMessage
  status : QueueStatus
  attempts : Nat
  maxAttempts : Int
  createdAt : Nat
  updatedAt : Nat
  error : Option String
  chatOk : chatId = payload.userId

structure QueuedItem where
  id : Nat
  message : InboundMessage
  status : QueueStatus
  attempts : Nat
  maxAttempts : Int
  createdAt : Nat
  updatedAt : Nat
  error : Option String

def rowToItem (r : QueueRow) : QueuedItem :=
  ⟨r.id, r.payload, r.status, r.attempts, r.maxAttempts, r.createdAt, r.updatedAt, r.error⟩

/-- The table: ids ascend in insertion order, below the sequence's next value. -/
structure Queue where
  rows : List QueueRow
  nextId : Nat
  ascending : rows.Pairwise fun r s => r.id < s.id
  below : ∀ r ∈ rows, r.id < nextId

namespace Queue

def empty : Queue := ⟨[], 1, .nil, by simp⟩

/-- `UPDATE queue SET … WHERE p`, of columns other than the key. -/
def update (q : Queue) (p : QueueRow → Bool) (set : QueueRow → QueueRow) (hid : ∀ r, (set r).id = r.id) : Queue where
  rows := q.rows.map fun r => if p r then set r else r
  nextId := q.nextId
  ascending := by
    have hkey : ∀ r, (if p r then set r else r).id = r.id := fun r => by split <;> simp [hid]
    rw [List.pairwise_map]
    exact q.ascending.imp fun h => by rw [hkey, hkey]; exact h
  below := by
    intro r hr
    obtain ⟨r0, h0, rfl⟩ := List.mem_map.mp hr
    have := q.below r0 h0
    split <;> simp [hid, this]

/-- The row both INSERTs write; `max_attempts` is the column's default (3) when the
    channel container inserts, and `maxAttempts ?? this.maxAttempts` in `enqueue`. -/
def newRow (id : Nat) (m : InboundMessage) (maxAttempts : Int) (now : Nat) : QueueRow where
  id := id
  messageId := m.id
  chatId := m.userId
  channel := m.channel
  payload := m
  status := .pending
  attempts := 0
  maxAttempts := maxAttempts
  createdAt := now
  updatedAt := now
  error := none
  chatOk := rfl

def enqueue (q : Queue) (m : InboundMessage) (maxAttempts : Int) (now : Nat) : Queue where
  rows := q.rows ++ [newRow q.nextId m maxAttempts now]
  nextId := q.nextId + 1
  ascending := by
    rw [List.pairwise_append]
    refine ⟨q.ascending, List.pairwise_singleton _ _, fun r hr s hs => ?_⟩
    simp only [List.mem_singleton] at hs; subst hs
    exact q.below r hr
  below := by
    intro r hr
    rcases List.mem_append.mp hr with hr | hr
    · have := q.below r hr; omega
    · simp only [List.mem_singleton] at hr; subst hr; exact Nat.lt_succ_self _

/-- The rows `ORDER BY created_at ASC LIMIT 1` may answer with. -/
def oldest (rows : List QueueRow) : List QueueRow :=
  rows.filter fun r => rows.all fun s => decide (r.createdAt ≤ s.createdAt)

def setClaimed (now : Nat) (r : QueueRow) : QueueRow :=
  { r with status := .processing, attempts := r.attempts + 1, updatedAt := now }

/-- The shape of both dequeues: take one of the oldest rows among those `p` selects. -/
def claim (q : Queue) (p : QueueRow → Bool) (tie now : Nat) : Option QueuedItem × Queue :=
  let due := oldest (q.rows.filter p)
  match due[tie % due.length]? with
  | some r => (some (rowToItem (setClaimed now r)), q.update (·.id == r.id) (setClaimed now) fun _ => rfl)
  | none => (none, q)

def isPending (r : QueueRow) : Bool := r.status == .pending

def dequeue (q : Queue) (tie now : Nat) : Option QueuedItem × Queue := claim q isPending tie now

def dequeueForChat (q : Queue) (chatId : String) (tie now : Nat) : Option QueuedItem × Queue :=
  claim q (fun r => isPending r && r.chatId == chatId) tie now

def setStatus (status : QueueStatus) (now : Nat) (r : QueueRow) : QueueRow :=
  { r with status := status, updatedAt := now }

def acknowledge (q : Queue) (queueId now : Nat) : Queue :=
  q.update (·.id == queueId) (setStatus .completed now) fun _ => rfl

/-- The `CASE` of `fail`. -/
def failStatus (r : QueueRow) : QueueStatus := if r.maxAttempts ≤ r.attempts then .deadLetter else .pending

def setFailed (error : String) (now : Nat) (r : QueueRow) : QueueRow :=
  { r with status := failStatus r, error := some error, updatedAt := now }

def fail (q : Queue) (queueId : Nat) (error : String) (now : Nat) : Queue :=
  q.update (·.id == queueId) (setFailed error now) fun _ => rfl

def recoverStuckMessages (q : Queue) (now : Nat) : Queue :=
  q.update (·.status == .processing) (setStatus .pending now) fun _ => rfl

/-- `SELECT DISTINCT chat_id … WHERE status = 'pending'`, up to its order. -/
def pendingChatIds (q : Queue) : List String := ((q.rows.filter isPending).map (·.chatId)).dedup

def isDeadLetter (queueId : Nat) (r : QueueRow) : Bool := r.id == queueId && r.status == .deadLetter

def setRetried (now : Nat) (r : QueueRow) : QueueRow :=
  { r with status := .pending, attempts := 0, error := none, updatedAt := now }

/-- Whether a row was put back, and the table after. -/
def retryDeadLetter (q : Queue) (queueId now : Nat) : Bool × Queue :=
  (q.rows.any (isDeadLetter queueId), q.update (isDeadLetter queueId) (setRetried now) fun _ => rfl)

/-! ## Rows -/

@[simp] theorem update_nextId (q : Queue) (p : QueueRow → Bool) (set : QueueRow → QueueRow) (hid) :
    (q.update p set hid).nextId = q.nextId := rfl

/-- A row behind an UPDATE is one it left alone, or one it set. -/
theorem mem_set {rows : List QueueRow} {p : QueueRow → Bool} {set : QueueRow → QueueRow} {r : QueueRow}
    (h : r ∈ rows.map fun r => if p r then set r else r) :
    (r ∈ rows ∧ p r = false) ∨ ∃ r0 ∈ rows, p r0 = true ∧ r = set r0 := by
  obtain ⟨r0, h0, rfl⟩ := List.mem_map.mp h
  by_cases hp : p r0
  · exact Or.inr ⟨r0, h0, hp, by simp [hp]⟩
  · rw [if_neg hp]
    exact Or.inl ⟨h0, by simpa using hp⟩

theorem mem_enqueue {q : Queue} {m : InboundMessage} {k : Int} {now : Nat} {r : QueueRow} :
    r ∈ (q.enqueue m k now).rows ↔ r ∈ q.rows ∨ r = newRow q.nextId m k now := by
  simp [enqueue]

/-- The key column determines the row. -/
theorem eq_of_id {q : Queue} {r s : QueueRow} (hr : r ∈ q.rows) (hs : s ∈ q.rows) (h : r.id = s.id) : r = s := by
  by_contra hne
  have hsymm : Std.Symm fun r s : QueueRow => r.id ≠ s.id := ⟨fun _ _ h => h.symm⟩
  have hp : q.rows.Pairwise fun r s => r.id ≠ s.id := q.ascending.imp fun h => by omega
  exact hp.forall hr hs hne h

/-- Every row is still there, with its payload. -/
def Keeps (q q' : Queue) : Prop := ∀ r ∈ q.rows, ∃ r' ∈ q'.rows, r'.id = r.id ∧ r'.payload = r.payload

theorem Keeps.refl (q : Queue) : Keeps q q := fun r hr => ⟨r, hr, rfl, rfl⟩

theorem keeps_update {q : Queue} {p : QueueRow → Bool} {set : QueueRow → QueueRow}
    (hid : ∀ r, (set r).id = r.id) (hp : ∀ r, (set r).payload = r.payload) : Keeps q (q.update p set hid) := by
  intro r hr
  refine ⟨if p r then set r else r, List.mem_map.mpr ⟨r, hr, rfl⟩, ?_⟩
  split
  · exact ⟨hid r, hp r⟩
  · exact ⟨rfl, rfl⟩

theorem keeps_enqueue (q : Queue) (m : InboundMessage) (k : Int) (now : Nat) : Keeps q (q.enqueue m k now) :=
  fun r hr => ⟨r, mem_enqueue.mpr (Or.inl hr), rfl, rfl⟩

/-! ## Dequeue -/

theorem oldest_ne_nil {rows : List QueueRow} (h : rows ≠ []) : oldest rows ≠ [] := by
  -- a row of least `created_at` is in the list
  suffices ∃ r ∈ rows, ∀ s ∈ rows, r.createdAt ≤ s.createdAt by
    obtain ⟨r, hr, hle⟩ := this
    have : r ∈ oldest rows := List.mem_filter.mpr ⟨hr, by simpa using hle⟩
    exact List.ne_nil_of_mem this
  induction rows with
  | nil => exact absurd rfl h
  | cons a rows ih =>
    by_cases hn : rows = []
    · subst hn; exact ⟨a, by simp, by simp⟩
    obtain ⟨r, hr, hle⟩ := ih hn
    by_cases hc : a.createdAt ≤ r.createdAt
    · refine ⟨a, by simp, fun s hs => ?_⟩
      rcases List.mem_cons.mp hs with rfl | hs
      · exact Nat.le_refl _
      · exact Nat.le_trans hc (hle s hs)
    · refine ⟨r, List.mem_cons_of_mem _ hr, fun s hs => ?_⟩
      rcases List.mem_cons.mp hs with rfl | hs
      · omega
      · exact hle s hs

/-- A dequeue takes one of the rows its WHERE selects, marks it, and leaves the rest. -/
theorem claim_spec {q q' : Queue} {p : QueueRow → Bool} {tie now : Nat} {it : QueuedItem}
    (h : claim q p tie now = (some it, q')) :
    ∃ r ∈ q.rows, p r = true ∧ (∀ s ∈ q.rows, p s = true → r.createdAt ≤ s.createdAt) ∧
      it = rowToItem (setClaimed now r) ∧
      q' = q.update (·.id == r.id) (setClaimed now) fun _ => rfl := by
  simp only [claim] at h
  split at h
  · rename_i r hr
    obtain ⟨hit, hq⟩ := Prod.mk.inj h
    have hmem : r ∈ oldest (q.rows.filter p) := List.mem_of_getElem? hr
    simp only [oldest, List.mem_filter, List.all_eq_true, decide_eq_true_eq, and_imp] at hmem
    exact ⟨r, hmem.1.1, hmem.1.2, hmem.2, (Option.some.inj hit).symm, hq.symm⟩
  · cases h

/-- A dequeue comes back empty only when its WHERE selects no row, and changes nothing. -/
theorem claim_none {q q' : Queue} {p : QueueRow → Bool} {tie now : Nat} (h : claim q p tie now = (none, q')) :
    (∀ r ∈ q.rows, p r = false) ∧ q' = q := by
  simp only [claim] at h
  split at h
  · cases h
  · rename_i hd
    refine ⟨fun r hr => ?_, ((Prod.mk.inj h).2).symm⟩
    by_contra hp
    have hne : q.rows.filter p ≠ [] := List.ne_nil_of_mem (List.mem_filter.mpr ⟨hr, by simpa using hp⟩)
    have hlen : 0 < (oldest (q.rows.filter p)).length := List.length_pos_iff.mpr (oldest_ne_nil hne)
    rw [List.getElem?_eq_none_iff] at hd
    exact absurd (Nat.mod_lt tie hlen) (by omega)

/-- A dequeue finds a row when its WHERE selects one. -/
theorem claim_finds {q : Queue} {p : QueueRow → Bool} {r : QueueRow} (hr : r ∈ q.rows) (hp : p r = true)
    (tie now : Nat) : ∃ it q', claim q p tie now = (some it, q') := by
  rcases h : claim q p tie now with ⟨_ | it, q'⟩
  · simp [(claim_none h).1 r hr] at hp
  · exact ⟨it, q', rfl⟩

/-! ## The ways back to pending -/

/-- `fail` puts back only an item with attempts left. -/
theorem fail_status (r : QueueRow) (error : String) (now : Nat) :
    ((setFailed error now r).status = .pending ∧ (r.attempts : Int) < r.maxAttempts) ∨
      ((setFailed error now r).status = .deadLetter ∧ r.maxAttempts ≤ r.attempts) := by
  simp only [setFailed, failStatus]
  split
  · exact Or.inr ⟨rfl, by omega⟩
  · exact Or.inl ⟨rfl, by omega⟩

/-- Recovery puts back every item in flight, whatever its attempts. -/
theorem recover_status {q : Queue} {now : Nat} {r : QueueRow} (hr : r ∈ (q.recoverStuckMessages now).rows) :
    r.status ≠ .processing := by
  obtain ⟨r0, _, rfl⟩ := List.mem_map.mp hr
  split
  · simp [setStatus]
  · rename_i h; simpa using h

end Queue

end FlowHelm.Orchestrator
