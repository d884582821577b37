/-
  FlowHelm.Channels.ChannelDb — what the channel container writes
  (src/channels/channel-db.ts; `chats`, `memory_working` and `queue` in schema.sql).

  The three tables, with the keys the schema declares as fields: `chats` has its primary
  key and UNIQUE (channel, external_id), `memory_working` its primary key (id, chat_id),
  and both other tables refer to `chats`. The queue declares nothing but its IDENTITY
  column. A statement that a constraint refuses is `none`.

  - `upsertChat_queue` / `storeMessage_queue`: the first two statements leave the queue.
  - `enqueueMessage_queue`: the third adds a row, whatever rows there are.
  - `stored_twice`: storing a message again changes nothing.
-/
import FlowHelm.Lib.Js
import FlowHelm.Orchestrator.MessageQueue

namespace FlowHelm.Channels

open Js Orchestrator

structure Chat where
  id : String
  channel : ChannelType
  externalId : String
  name : Option String
  profileId : String
  createdAt : Nat
  updatedAt : Nat

/-- A row of `memory_working`; the container writes `is_bot_message` false and no
    session. -/
structure WorkingRow where
  id : String
  chatId : String
  senderId : String
  senderName : String
  content : Option String
  audioPath : Option String
  imagePath : Option String
  replyToId : Option String
  timestamp : Nat
  isFromMe : Bool

def Chat.account (c : Chat) : ChannelType × String := (c.channel, c.externalId)

def WorkingRow.key (r : WorkingRow) : String × String := (r.id, r.chatId)

structure Db where
  chats : List Chat
  working : List WorkingRow
  queue : Queue
  chatIds : (chats.map (·.id)).Nodup
  accounts : (chats.map Chat.account).Nodup
  workingKeys : (working.map WorkingRow.key).Nodup
  workingChats : ∀ r ∈ working, r.chatId ∈ chats.map (·.id)
  queueChats : ∀ r ∈ queue.rows, r.chatId ∈ chats.map (·.id)

namespace Db

def empty : Db where
  chats := []
  working := []
  queue := .empty
  chatIds := .nil
  accounts := .nil
  workingKeys := .nil
  workingChats := by simp
  queueChats := by simp [Queue.empty]

/-- The `ON CONFLICT` of `upsertChat`: `COALESCE(EXCLUDED.name, chats.name)`. -/
def rename (chatId : String) (name : Option String) (now : Nat) (c : Chat) : Chat :=
  if c.id == chatId then { c with name := name.or c.name, updatedAt := now } else c

theorem rename_id (chatId : String) (name : Option String) (now : Nat) (cs : List Chat) :
    (cs.map (rename chatId name now)).map (·.id) = cs.map (·.id) := by
  rw [List.map_map]
  refine List.map_congr_left ?_
  intro c _
  simp only [Function.comp_apply, rename]
  split <;> rfl

theorem rename_account (chatId : String) (name : Option String) (now : Nat) (cs : List Chat) :
    (cs.map (rename chatId name now)).map Chat.account = cs.map Chat.account := by
  rw [List.map_map]
  refine List.map_congr_left ?_
  intro c _
  simp only [Function.comp_apply, rename]
  split <;> rfl

def upsertChat (db : Db) (chatId : String) (channel : ChannelType) (externalId : String) (name : Option String)
    (profileId : String) (now : Nat) : Option Db :=
  if hid : chatId ∈ db.chats.map (·.id) then
    some { db with
      chats := db.chats.map (rename chatId name now)
      chatIds := by rw [rename_id]; exact db.chatIds
      accounts := by rw [rename_account]; exact db.accounts
      workingChats := by rw [rename_id]; exact db.workingChats
      queueChats := by rw [rename_id]; exact db.queueChats }
  else if hac : (channel, externalId) ∈ db.chats.map Chat.account then none
  else
    some { db with
      chats := ⟨chatId, channel, externalId, name, profileId, now, now⟩ :: db.chats
      chatIds := List.nodup_cons.mpr ⟨hid, db.chatIds⟩
      accounts := List.nodup_cons.mpr ⟨hac, db.accounts⟩
      workingChats := fun r hr => List.mem_cons_of_mem _ (db.workingChats r hr)
      queueChats := fun r hr => List.mem_cons_of_mem _ (db.queueChats r hr) }

def workingRow (chatId : String) (m : InboundMessage) : WorkingRow :=
  ⟨m.id, chatId, m.userId, m.senderName, m.text, m.audioPath, m.imagePath, m.replyToMessageId, m.timestamp, m.isFromMe⟩

def storeMessage (db : Db) (chatId : String) (m : InboundMessage) : Option Db :=
  if hchat : chatId ∈ db.chats.map (·.id) then
    if hkey : (m.id, chatId) ∈ db.working.map WorkingRow.key then some db
    else
      some { db with
        working := workingRow chatId m :: db.working
        workingKeys := List.nodup_cons.mpr ⟨hkey, db.workingKeys⟩
        workingChats := by
          intro r hr
          rcases List.mem_cons.mp hr with rfl | hr
          · exact hchat
          · exact db.workingChats r hr }
  else none

/-- `max_attempts` is left to the column's default. -/
def enqueueMessage (db : Db) (m : InboundMessage) (now : Nat) : Option Db :=
  if hchat : m.userId ∈ db.chats.map (·.id) then
    some { db with
      queue := db.queue.enqueue m 3 now
      queueChats := by
        intro r hr
        rcases Queue.mem_enqueue.mp hr with hr | rfl
        · exact db.queueChats r hr
        · exact hchat }
  else none

/-! ## What the statements leave -/

theorem upsertChat_queue {db db' : Db} {chatId : String} {channel : ChannelType} {externalId : String}
    {name : Option String} {profileId : String} {now : Nat}
    (h : db.upsertChat chatId channel externalId name profileId now = some db') : db'.queue = db.queue := by
  unfold upsertChat at h
  split at h
  · cases h; rfl
  · split at h
    · cases h
    · cases h; rfl

theorem storeMessage_queue {db db' : Db} {chatId : String} {m : InboundMessage}
    (h : db.storeMessage chatId m = some db') : db'.queue = db.queue := by
  unfold storeMessage at h
  split at h
  · split at h <;> cases h <;> rfl
  · cases h

theorem enqueueMessage_queue {db db' : Db} {m : InboundMessage} {now : Nat} (h : db.enqueueMessage m now = some db') :
    db'.queue = db.queue.enqueue m 3 now := by
  unfold enqueueMessage at h
  split at h
  · cases h; rfl
  · cases h

/-- `memory_working` deduplicates: a message stored before is not stored again. -/
theorem stored_twice {db db' : Db} {chatId : String} {m : InboundMessage}
    (h : db.storeMessage chatId m = some db') : db'.storeMessage chatId m = some db' := by
  unfold storeMessage at h
  split at h
  · rename_i hchat
    split at h
    · rename_i hkey
      cases h
      unfold storeMessage
      rw [dif_pos hchat, dif_pos hkey]
    · cases h
      unfold storeMessage
      rw [dif_pos hchat, dif_pos (by simp [workingRow, WorkingRow.key])]
  · cases h

end Db

end FlowHelm.Channels
