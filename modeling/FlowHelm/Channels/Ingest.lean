/-
  FlowHelm.Channels.Ingest — `handleInbound`, and whether a message delivered again is
  queued again (src/channels/main.ts).

  Adapters deliver a message whenever their platform does: again after a crash, a
  reconnect or a poll from offset 0. Each delivery starts a handler nobody waits for; it
  runs its three statements one after the other, each of which is executed (`ran`),
  rejected without being executed (`refused`: a constraint, a lost connection), or
  executed and still rejected (`lost`). A rejection is caught, and ends the handler. A
  crash takes the handlers and leaves the tables. The orchestrator's own statements on
  the queue (`Served`) come in between in any order.

  `memory_working` drops a message it has (`ON CONFLICT DO NOTHING`, as `chats` renames);
  the queue has no such clause and no such key, and the handler does not look at whether
  the store stored anything.

  - `one_row_per_message`: at most one row per (message id, chat id), in every run in
    which a message is delivered only while it has no row and no handler.
  - `a_redelivery_can_double`: a delivery that breaks this has a continuation that ends
    with two rows.
  - `a_restart_queues_twice`: Telegram hands over the same message after a restart.
-/
import FlowHelm.Lib.Parties
import FlowHelm.Lib.Runs
import FlowHelm.Channels.ChannelDb

namespace FlowHelm.Channels

open Js Orchestrator Parties Runs

/-! ## The handler -/

/-- `userId.replace(/^(tg|wa|gmail):/, '')`. -/
def externalId (userId : String) : String :=
  match ["tg:", "wa:", "gmail:"].find? (startsWith userId) with
  | some p => String.ofList (userId.toList.drop p.length)
  | none => userId

inductive HandlerPc where
  | upsertChat
  | storeMessage
  | enqueueMessage
  deriving DecidableEq

structure Handler where
  msg : InboundMessage
  pc : HandlerPc

/-- The statement a handler waits for; `chatId` is `msg.userId` in all three. -/
def Handler.statement (h : Handler) (profileId : String) (now : Nat) (db : Db) : Option Db :=
  match h.pc with
  | .upsertChat =>
    db.upsertChat h.msg.userId h.msg.channel (externalId h.msg.userId) (some h.msg.senderName) profileId now
  | .storeMessage => db.storeMessage h.msg.userId h.msg
  | .enqueueMessage => db.enqueueMessage h.msg now

def Handler.next (h : Handler) : Option Handler :=
  match h.pc with
  | .upsertChat => some { h with pc := .storeMessage }
  | .storeMessage => some { h with pc := .enqueueMessage }
  | .enqueueMessage => none

inductive Outcome where
  | ran
  | refused
  | lost
  deriving DecidableEq

/-- The statement comes back: the handler goes on or has caught the rejection, and the
    tables are left so. -/
def Handler.settle (h : Handler) (profileId : String) (now : Nat) (db : Db) : Outcome → Option (Option Handler × Db)
  | .ran => (h.statement profileId now db).map fun db => (h.next, db)
  | .refused => some (none, db)
  | .lost => (h.statement profileId now db).map fun db => (none, db)

/-- What tells messages apart: (message id, chat id). -/
def rowKey (r : QueueRow) : String × String := (r.messageId, r.chatId)

def Handler.key (h : Handler) : String × String := (h.msg.id, h.msg.userId)

theorem enqueue_keys (q : Queue) (m : InboundMessage) (k : Int) (now : Nat) :
    (q.enqueue m k now).rows.map rowKey = q.rows.map rowKey ++ [(m.id, m.userId)] := by
  rw [Queue.enqueue, List.map_append]
  rfl

/-- What a statement that came back has done: the queue is as it was, and the handler is
    over only by a rejection; or its message is queued, and it is over. -/
theorem Handler.settle_spec {h : Handler} {profileId : String} {now : Nat} {db db' : Db} {o : Outcome}
    {h' : Option Handler} (hs : h.settle profileId now db o = some (h', db')) :
    (db'.queue = db.queue ∧ (∀ g, h' = some g → g.msg = h.msg) ∧
      (h' = none → o ≠ .ran ∧ (h.pc = .enqueueMessage → o = .refused))) ∨
      (h.pc = .enqueueMessage ∧ h' = none ∧ db'.queue = db.queue.enqueue h.msg 3 now) := by
  have hstmt : ∀ d, h.statement profileId now db = some d →
      (h.pc ≠ .enqueueMessage ∧ d.queue = db.queue) ∨
        (h.pc = .enqueueMessage ∧ d.queue = db.queue.enqueue h.msg 3 now) := by
    intro d hd
    unfold Handler.statement at hd
    cases hpc : h.pc <;> rw [hpc] at hd
    · exact Or.inl ⟨nofun, Db.upsertChat_queue hd⟩
    · exact Or.inl ⟨nofun, Db.storeMessage_queue hd⟩
    · exact Or.inr ⟨rfl, Db.enqueueMessage_queue hd⟩
  cases o with
  | ran =>
    obtain ⟨d, hd, heq⟩ := Option.map_eq_some_iff.mp hs
    obtain ⟨rfl, rfl⟩ := Prod.mk.inj heq
    unfold Handler.next
    rcases hstmt d hd with ⟨hpc, hq⟩ | ⟨hpc, hq⟩
    · refine Or.inl ⟨hq, ?_⟩
      cases hp : h.pc with
      | upsertChat => exact ⟨fun g hg => by cases hg; rfl, nofun⟩
      | storeMessage => exact ⟨fun g hg => by cases hg; rfl, nofun⟩
      | enqueueMessage => exact absurd hp hpc
    · exact Or.inr ⟨hpc, by rw [hpc], hq⟩
  | refused =>
    obtain ⟨rfl, rfl⟩ := Prod.mk.inj (Option.some.inj hs)
    exact Or.inl ⟨rfl, nofun, fun _ => ⟨nofun, fun _ => rfl⟩⟩
  | lost =>
    obtain ⟨d, hd, heq⟩ := Option.map_eq_some_iff.mp hs
    obtain ⟨rfl, rfl⟩ := Prod.mk.inj heq
    rcases hstmt d hd with ⟨hpc, hq⟩ | ⟨hpc, hq⟩
    · exact Or.inl ⟨hq, nofun, fun _ => ⟨nofun, fun h => absurd h hpc⟩⟩
    · exact Or.inr ⟨hpc, rfl, hq⟩

namespace Ingest

/-! ## The container and the other users of the queue -/

/-- The orchestrator's statements on the queue. -/
inductive Served where
  | dequeueForChat (chatId : String) (tie now : Nat)
  | acknowledge (queueId now : Nat)
  | fail (queueId : Nat) (error : String) (now : Nat)
  | recoverStuckMessages (now : Nat)
  | retryDeadLetter (queueId now : Nat)

def Served.onQueue (q : Queue) : Served → Queue
  | dequeueForChat chatId tie now => (q.dequeueForChat chatId tie now).2
  | acknowledge id now => q.acknowledge id now
  | fail id error now => q.fail id error now
  | recoverStuckMessages now => q.recoverStuckMessages now
  | retryDeadLetter id now => (q.retryDeadLetter id now).2


theorem keys_set {rows : List QueueRow} {p : QueueRow → Bool} {set : QueueRow → QueueRow}
    (hkey : ∀ r, rowKey (set r) = rowKey r) :
    (rows.map fun r => if p r then set r else r).map rowKey = rows.map rowKey := by
  rw [List.map_map]
  refine List.map_congr_left ?_
  intro r _
  simp only [Function.comp_apply]
  split
  · exact hkey r
  · rfl

/-- No statement of the orchestrator adds a row or changes a key. -/
theorem Served.keys (u : Served) (q : Queue) : (u.onQueue q).rows.map rowKey = q.rows.map rowKey := by
  cases u with
  | dequeueForChat chatId tie now =>
    rcases hd : q.dequeueForChat chatId tie now with ⟨_ | it, q'⟩
    · rw [Served.onQueue, hd, (Queue.claim_none hd).2]
    · obtain ⟨r, -, -, -, -, hq⟩ := Queue.claim_spec hd
      rw [Served.onQueue, hd, hq]
      exact keys_set (by intro r; rfl)
  | acknowledge id now => exact keys_set (by intro r; rfl)
  | fail id error now => exact keys_set (by intro r; rfl)
  | recoverStuckMessages now => exact keys_set (by intro r; rfl)
  | retryDeadLetter id now => exact keys_set (by intro r; rfl)

def serve (db : Db) (u : Served) : Db :=
  { db with
    queue := u.onQueue db.queue
    queueChats := by
      intro r hr
      have hk : rowKey r ∈ db.queue.rows.map rowKey := u.keys db.queue ▸ List.mem_map_of_mem hr
      obtain ⟨r0, h0, heq⟩ := List.mem_map.mp hk
      rw [← (Prod.mk.inj heq).2]
      exact db.queueChats r0 h0 }

structure St where
  db : Db
  handlers : List Handler

inductive Ev where
  | deliver (msg : InboundMessage)
  | settle (i : Nat) (o : Outcome) (now : Nat)
  | crash
  | served (u : Served)

def step (profileId : String) (s : St) : Ev → Option St
  | .deliver m => some { s with handlers := s.handlers ++ [⟨m, .upsertChat⟩] }
  | .settle i o now => match s.handlers[i]? with
    | some h => (h.settle profileId now s.db o).map fun (h', db) => ⟨db, put s.handlers i h'⟩
    | none => none
  | .crash => some { s with handlers := [] }
  | .served u => some { s with db := serve s.db u }

def machine (profileId : String) : System St Ev := ⟨⟨.empty, []⟩, step profileId⟩

/-! ## One row per message -/

def keys (s : St) : List (String × String) := s.db.queue.rows.map rowKey ++ s.handlers.map Handler.key

/-- A message is delivered only while it has no row and no handler. -/
def Fresh (s : St) : Ev → Prop
  | .deliver m => (m.id, m.userId) ∉ s.db.queue.rows.map rowKey ∧ (m.id, m.userId) ∉ s.handlers.map Handler.key
  | _ => True

instance decidableFresh : ∀ s e, Decidable (Fresh s e)
  | _, .deliver _ => inferInstanceAs (Decidable (_ ∧ _))
  | _, .settle .. => inferInstanceAs (Decidable True)
  | _, .crash => inferInstanceAs (Decidable True)
  | _, .served _ => inferInstanceAs (Decidable True)

theorem deliver_keys {s : St} {m : InboundMessage} (h : (keys s).Nodup) (hf : Fresh s (.deliver m)) :
    (keys { s with handlers := s.handlers ++ [⟨m, .upsertChat⟩] }).Nodup := by
  unfold keys at h ⊢
  rw [List.map_append, ← List.append_assoc]
  refine List.Nodup.append h (List.nodup_singleton _) ?_
  intro k hk hm
  obtain rfl := List.mem_singleton.mp hm
  rcases List.mem_append.mp hk with hk | hk
  · exact hf.1 hk
  · exact hf.2 hk

/-- A handler's key goes with it, into the queue, or away. -/
theorem settle_keys {profileId : String} {s : St} {i now : Nat} {o : Outcome} {h : Handler} {h' : Option Handler}
    {db : Db} (hinv : (keys s).Nodup) (hi : s.handlers[i]? = some h)
    (hs : h.settle profileId now s.db o = some (h', db)) : (keys ⟨db, put s.handlers i h'⟩).Nodup := by
  obtain ⟨pre, post, hl, hput⟩ := put_splits hi
  unfold keys at hinv ⊢
  rw [hl, List.map_append, List.map_cons] at hinv
  simp only [hput, List.map_append]
  rcases Handler.settle_spec hs with ⟨hq, hmsg, -⟩ | ⟨-, rfl, hq⟩
  · rw [hq]
    refine hinv.sublist (List.Sublist.append_left (List.Sublist.append_left ?_ _) _)
    cases h' with
    | none => exact List.sublist_cons_self _ _
    | some g =>
      have hkey : g.key = h.key := by rw [Handler.key, hmsg g rfl]; rfl
      simp only [Option.toList_some, List.map_cons, List.map_nil, hkey]
      exact List.Sublist.refl _
  · rw [hq, enqueue_keys, List.append_assoc]
    refine (List.Perm.nodup_iff (List.Perm.append_left _ ?_)).mp hinv
    exact List.perm_middle

theorem keys_next {profileId : String} {s t : St} {e : Ev} (h : (keys s).Nodup) (hf : Fresh s e)
    (hst : step profileId s e = some t) : (keys t).Nodup := by
  cases e with
  | deliver m =>
    obtain rfl := Option.some.inj hst
    exact deliver_keys h hf
  | settle i o now =>
    simp only [step] at hst
    split at hst
    · rename_i g hi
      obtain ⟨⟨h', db⟩, hs, rfl⟩ := Option.map_eq_some_iff.mp hst
      exact settle_keys h hi hs
    · cases hst
  | crash =>
    obtain rfl := Option.some.inj hst
    refine h.sublist (List.Sublist.append_left ?_ _)
    exact List.nil_sublist _
  | served u =>
    obtain rfl := Option.some.inj hst
    unfold keys at h ⊢
    rw [serve, Served.keys]
    exact h

/-- In every run that delivers a message only while it has no row and no handler, the
    queue has at most one row per (message id, chat id). -/
theorem one_row_per_message (profileId : String) {s : St} (h : Reach (machine profileId) Fresh s) :
    (s.db.queue.rows.map rowKey).Nodup := by
  have hk : (keys s).Nodup := by
    have hinit : (keys (machine profileId).init).Nodup := List.nodup_nil
    refine h.inv (I := fun s => (keys s).Nodup) hinit ?_
    intro s e t _ hinv hf hst
    exact keys_next hinv hf hst
  exact hk.sublist (List.sublist_append_left _ _)

def note : InboundMessage := ⟨"7", .telegram, "tg:1", "Ann", some "hello", none, none, none, 0, false⟩

def handled : List Ev := [.deliver note, .settle 0 .ran 0, .settle 0 .ran 0, .settle 0 .ran 0]

/-- A handler fails between its store and its enqueue; the message is delivered again
    and queued once. -/
theorem a_failed_enqueue_is_queued_once : ∃ s, exec (machine "p") (machine "p").init
      ([.deliver note, .settle 0 .ran 0, .settle 0 .ran 0, .settle 0 .refused 0, .crash] ++ handled) = some s ∧
    s.db.queue.rows.length = 1 ∧ (s.db.queue.rows.map rowKey).Nodup :=
  ⟨_, rfl, by decide, one_row_per_message "p" (reach_of_exec
    ([.deliver note, .settle 0 .ran 0, .settle 0 .ran 0, .settle 0 .refused 0, .crash] ++ handled) (by decide) rfl)⟩

/-- The container restarts with its offset at 0 and is handed a queued message again. -/
theorem a_restart_queues_twice : ∃ s, Reach (machine "p") Free s ∧ ¬ (s.db.queue.rows.map rowKey).Nodup := by
  refine ⟨_, reach_of_exec (handled ++ [.crash] ++ handled) (meets_free _ _) rfl, ?_⟩
  decide

/-! ## What the condition leaves out -/

theorem statement_runs (h : Handler) (profileId : String) (db : Db) (hchat : h.msg.userId ∈ db.chats.map (·.id)) :
    ∃ db', h.statement profileId 0 db = some db' ∧ db'.chats.map (·.id) = db.chats.map (·.id) := by
  unfold Handler.statement
  cases h.pc with
  | upsertChat =>
    simp only [Db.upsertChat, dif_pos hchat]
    exact ⟨_, rfl, Db.rename_id _ _ _ _⟩
  | storeMessage =>
    simp only [Db.storeMessage, dif_pos hchat]
    split <;> exact ⟨_, rfl, rfl⟩
  | enqueueMessage =>
    simp only [Db.enqueueMessage, dif_pos hchat]
    exact ⟨_, rfl, rfl⟩

/-- `t` ends a run from `s` in which handler `i` has queued `m` and is gone. -/
def Through (profileId : String) (s : St) (i : Nat) (m : InboundMessage) (t : St) : Prop :=
  Path (M := machine profileId) s t ∧ t.handlers = s.handlers.eraseIdx i ∧
    t.db.queue = s.db.queue.enqueue m 3 0 ∧ t.db.chats.map (·.id) = s.db.chats.map (·.id)

theorem ran_step {profileId : String} {s : St} {i : Nat} {h : Handler} {db : Db} (hi : s.handlers[i]? = some h)
    (hdb : h.statement profileId 0 s.db = some db) :
    (machine profileId).step s (.settle i .ran 0) = some ⟨db, put s.handlers i h.next⟩ := by
  have hsettle : h.settle profileId 0 s.db .ran = some (h.next, db) := by rw [Handler.settle, hdb]; rfl
  simp only [machine, step, hi, hsettle, Option.map_some]

theorem through_last (profileId : String) {s : St} {i : Nat} {h : Handler} (hi : s.handlers[i]? = some h)
    (hchat : h.msg.userId ∈ s.db.chats.map (·.id)) (hpc : h.pc = .enqueueMessage) :
    ∃ t, Through profileId s i h.msg t := by
  obtain ⟨db, hdb, hids⟩ := statement_runs h profileId s.db hchat
  have hnext : h.next = none := by rw [Handler.next, hpc]
  have hq : db.queue = s.db.queue.enqueue h.msg 3 0 := by
    rw [Handler.statement, hpc] at hdb
    exact Db.enqueueMessage_queue hdb
  exact ⟨_, .single _ (ran_step hi hdb), by rw [hnext]; rfl, hq, hids⟩

theorem through_cons (profileId : String) {s : St} {i : Nat} {h g : Handler} (hi : s.handlers[i]? = some h)
    (hchat : h.msg.userId ∈ s.db.chats.map (·.id)) (hnext : h.next = some g)
    (hg : ∀ u : St, u.handlers[i]? = some g → g.msg.userId ∈ u.db.chats.map (·.id) → ∃ t, Through profileId u i g.msg t) :
    ∃ t, Through profileId s i h.msg t := by
  obtain ⟨db, hdb, hids⟩ := statement_runs h profileId s.db hchat
  have hsettle : h.settle profileId 0 s.db .ran = some (some g, db) := by rw [Handler.settle, hdb, ← hnext]; rfl
  rcases Handler.settle_spec hsettle with ⟨hq, hmsg, -⟩ | ⟨-, hnone, -⟩
  · have hm := hmsg g rfl
    have hlen : i < s.handlers.length := (List.getElem?_eq_some_iff.mp hi).1
    obtain ⟨t, hpath, hh, htq, htc⟩ := hg ⟨db, s.handlers.set i g⟩ (List.getElem?_set_self hlen)
      (by rw [hm]; exact hids ▸ hchat)
    have hst := ran_step hi hdb
    rw [hnext] at hst
    refine ⟨t, .cons _ hst hpath, ?_, ?_, htc.trans hids⟩
    · rw [hh]
      exact List.eraseIdx_set_eq
    · rw [htq, hm]
      exact congrArg (·.enqueue h.msg 3 0) hq
  · cases hnone

/-- A handler whose chat exists can go through, and queues its message whatever the
    queue holds. -/
theorem goes_through (profileId : String) {s : St} {i : Nat} {h : Handler} (hi : s.handlers[i]? = some h)
    (hchat : h.msg.userId ∈ s.db.chats.map (·.id)) : ∃ t, Through profileId s i h.msg t := by
  have henq : ∀ u : St, u.handlers[i]? = some { h with pc := .enqueueMessage } →
      h.msg.userId ∈ u.db.chats.map (·.id) → ∃ t, Through profileId u i h.msg t :=
    fun u hu hc => through_last profileId (h := { h with pc := .enqueueMessage }) hu hc rfl
  have hstore : ∀ u : St, u.handlers[i]? = some { h with pc := .storeMessage } →
      h.msg.userId ∈ u.db.chats.map (·.id) → ∃ t, Through profileId u i h.msg t :=
    fun u hu hc => through_cons profileId (h := { h with pc := .storeMessage }) hu hc rfl henq
  cases hpc : h.pc with
  | upsertChat => exact through_cons profileId hi hchat (by rw [Handler.next, hpc]) hstore
  | storeMessage => exact through_cons profileId hi hchat (by rw [Handler.next, hpc]) henq
  | enqueueMessage => exact through_last profileId hi hchat hpc

/-- A delivery of a message that has a row, or a handler and its chat, can end with two
    rows of it. -/
theorem a_redelivery_can_double (profileId : String) (s : St) (m : InboundMessage)
    (h : (m.id, m.userId) ∈ s.db.queue.rows.map rowKey ∨
      (m.id, m.userId) ∈ s.handlers.map Handler.key ∧ m.userId ∈ s.db.chats.map (·.id)) :
    ∃ t, Path (M := machine profileId) { s with handlers := s.handlers ++ [⟨m, .upsertChat⟩] } t ∧
      ¬ (t.db.queue.rows.map rowKey).Nodup := by
  have hlast : ∀ u : St, ∀ hs, u.handlers = hs ++ [⟨m, .upsertChat⟩] → m.userId ∈ u.db.chats.map (·.id) →
      (m.id, m.userId) ∈ u.db.queue.rows.map rowKey →
      ∃ t, Path (M := machine profileId) u t ∧ ¬ (t.db.queue.rows.map rowKey).Nodup := by
    intro u hs hu hc hrow
    obtain ⟨t, hp, -, hq, -⟩ := goes_through profileId (s := u) (i := hs.length) (h := ⟨m, .upsertChat⟩)
      (by simp [hu]) hc
    refine ⟨t, hp, ?_⟩
    rw [hq, enqueue_keys]
    intro hnd
    exact (List.nodup_append.mp hnd).2.2 _ hrow _ (List.mem_singleton_self _) rfl
  rcases h with hrow | ⟨hrun, hc⟩
  · obtain ⟨r, hr, hkey⟩ := List.mem_map.mp hrow
    refine hlast _ s.handlers rfl ?_ hrow
    have hchat := s.db.queueChats r hr
    rw [← (Prod.mk.inj hkey).2]
    exact hchat
  · obtain ⟨g, hg, hkey⟩ := List.mem_map.mp hrun
    obtain ⟨i, hi, hgi⟩ := List.mem_iff_getElem.mp hg
    obtain ⟨hid, huser⟩ := Prod.mk.inj hkey
    have hat : (s.handlers ++ [⟨m, .upsertChat⟩])[i]? = some g := by
      rw [List.getElem?_append_left hi, List.getElem?_eq_getElem hi, hgi]
    obtain ⟨u, hp, hh, hq, hids⟩ := goes_through profileId (s := { s with handlers := s.handlers ++ [⟨m, .upsertChat⟩] })
      hat (by rw [huser]; exact hc)
    have hu : u.handlers = s.handlers.eraseIdx i ++ [⟨m, .upsertChat⟩] := by
      rw [hh, List.eraseIdx_append_of_lt_length hi]
    obtain ⟨t, hp', hnd⟩ := hlast u _ hu (by rw [hids]; exact hc) (by
      rw [hq, enqueue_keys, hid, huser]
      exact List.mem_append_right _ (List.mem_singleton_self _))
    exact ⟨t, hp.trans hp', hnd⟩

end Ingest

end FlowHelm.Channels
