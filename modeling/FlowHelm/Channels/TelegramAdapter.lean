/-
  FlowHelm.Channels.TelegramAdapter — from a Telegram update to the statement that queues
  it (`normalizeCtx` of src/channels/telegram/transport.ts; `handleTransportMessage` and
  `emit` of adapter.ts; `handleInbound` of src/channels/main.ts).

  `handleTransportMessage` decides before its first await: the access control and the
  `/start` rule discard a message, and everything else becomes a chain nobody waits for:
  download and write of a voice note or photo, then the three statements of
  `handleInbound`. A rejection in `handleTransportMessage` is caught by nobody, which ends
  the process; one in `handleInbound` is caught and logged. Left out: the metadata, and
  the replies sent to discarded users.

  - `Chain.settle_spec`: what a chain's await that came back has done to the queue.
-/
import FlowHelm.Channels.Ingest

namespace FlowHelm.Channels

open Js Orchestrator

/-! ## Messages -/

/-- A message's sender, `ctx.from`. -/
structure User where
  id : Int
  firstName : String
  lastName : Option String
  username : Option String
  deriving DecidableEq

/-- What the transport's three handlers tell apart; any other message has none. -/
inductive Content where
  | text (text : String)
  | voice (caption : Option String)
  | photo (caption : Option String)
  | other
  deriving DecidableEq

structure Update where
  updateId : Nat
  messageId : Nat
  chatId : Int
  sender : Option User
  replyTo : Option Nat
  date : Nat
  content : Content
  deriving DecidableEq

inductive Media where
  | voice
  | photo
  deriving DecidableEq

/-- The transport sets at most one of `voice` and `photo`. -/
structure TelegramTransportMessage where
  messageId : Nat
  chatId : Int
  fromId : Int
  firstName : String
  lastName : Option String
  username : Option String
  text : Option String
  caption : Option String
  media : Option Media
  filePath : Option String
  replyToMessageId : Option Nat
  timestamp : Nat

def normalizeCtx (u : Update) (text caption : Option String) (media : Option Media) (filePath : Option String) :
    TelegramTransportMessage where
  messageId := u.messageId
  chatId := u.chatId
  fromId := (u.sender.map (·.id)).getD 0
  firstName := (u.sender.map (·.firstName)).getD ""
  lastName := u.sender.bind (·.lastName)
  username := u.sender.bind (·.username)
  text := text
  caption := caption
  media := media
  filePath := filePath
  replyToMessageId := u.replyTo
  timestamp := u.date

def buildSenderName (m : TelegramTransportMessage) : String :=
  if given (some m.firstName) && given m.lastName then m.firstName ++ " " ++ m.lastName.getD ""
  else if given (some m.firstName) then m.firstName
  else if given m.username then m.username.getD ""
  else toString m.fromId

def telegramKey (messageId : Nat) (chatId : Int) : String × String := (toString messageId, "tg:" ++ toString chatId)

def Update.key (u : Update) : String × String := telegramKey u.messageId u.chatId

/-- The `InboundMessage` before its media. -/
def inbound (m : TelegramTransportMessage) : InboundMessage where
  id := (telegramKey m.messageId m.chatId).1
  channel := .telegram
  userId := (telegramKey m.messageId m.chatId).2
  senderName := buildSenderName m
  text := m.text.or m.caption
  audioPath := none
  imagePath := none
  replyToMessageId := match m.replyToMessageId with
    | some n => if n = 0 then none else some (toString n)
    | none => none
  timestamp := m.timestamp * 1000
  isFromMe := false

/-! ## The chain -/

structure AdapterConfig where
  allowedUsers : List Int
  downloadDir : String
  profileId : String

inductive Stage where
  | downloadFile (media : Media) (m : TelegramTransportMessage)
  | writeFile (media : Media) (m : TelegramTransportMessage)
  | handleInbound (pc : HandlerPc)

/-- A run of `handleTransportMessage`, and of the `handleInbound` it emits to. -/
structure Chain where
  update : Update
  msg : InboundMessage
  stage : Stage
  own : (msg.id, msg.userId) = update.key

def isUserAllowed (cfg : AdapterConfig) (userId : Int) : Bool :=
  cfg.allowedUsers.isEmpty || cfg.allowedUsers.contains userId

def isStart (m : TelegramTransportMessage) : Bool :=
  match m.text with
  | some text => trim text == "/start"
  | none => false

def firstStage (m : TelegramTransportMessage) : Stage :=
  match m.media with
  | some media => if given m.filePath then .downloadFile media m else .handleInbound .upsertChat
  | none => .handleInbound .upsertChat

/-- The start of `handleTransportMessage`; `none` when the message is discarded. -/
def handleTransportMessage (cfg : AdapterConfig) (u : Update) (text caption : Option String) (media : Option Media)
    (filePath : Option String) : Option Chain :=
  let m := normalizeCtx u text caption media filePath
  if !isUserAllowed cfg m.fromId then none
  else if isStart m then none
  else some ⟨u, inbound m, firstStage m, rfl⟩

/-- `join(this.downloadDir, …)`, for a directory in normal form. -/
def mediaPath (cfg : AdapterConfig) (uuid : String) : Media → String
  | .voice => cfg.downloadDir ++ "/" ++ uuid ++ ".ogg"
  | .photo => cfg.downloadDir ++ "/" ++ uuid ++ ".jpg"

/-- The message once its file is written. -/
def withMedia (msg : InboundMessage) (caption : Option String) (path : String) : Media → InboundMessage
  | .voice => { msg with audioPath := some path, text := caption }
  | .photo => { msg with imagePath := some path, text := caption }

theorem withMedia_key (msg : InboundMessage) (caption : Option String) (path : String) (media : Media) :
    ((withMedia msg caption path media).id, (withMedia msg caption path media).userId) = (msg.id, msg.userId) := by
  cases media <;> rfl

inductive Settled where
  /-- The chain goes on, or is over. -/
  | goes (c : Option Chain) (db : Db)
  /-- A rejection nobody handles. -/
  | crashed

/-- A chain's await comes back. -/
def Chain.settle (cfg : AdapterConfig) (c : Chain) (uuid : String) (now : Nat) (db : Db) (o : Outcome) :
    Option Settled :=
  match c.stage with
  | .downloadFile media m =>
    if o = .ran then some (.goes (some { c with stage := .writeFile media m }) db) else some .crashed
  | .writeFile media m =>
    if o = .ran then
      some (.goes (some { c with msg := withMedia c.msg m.caption (mediaPath cfg uuid media) media
                                 stage := .handleInbound .upsertChat
                                 own := (withMedia_key _ _ _ _).trans c.own }) db)
    else some .crashed
  | .handleInbound pc =>
    (Handler.settle ⟨c.msg, pc⟩ cfg.profileId now db o).map fun (h, db) =>
      .goes (h.map fun h => { c with stage := .handleInbound h.pc }) db

/-- The message is in the queue table. -/
def Queued (db : Db) (u : Update) : Prop := u.key ∈ db.queue.rows.map rowKey

instance decidableQueued (db : Db) (u : Update) : Decidable (Queued db u) :=
  inferInstanceAs (Decidable (_ ∈ _))

/-- The rejection of a statement loses the message, unless the statement that was
    rejected is the one that queues it and was executed. -/
def Chain.loses (c : Chain) (o : Outcome) : Bool :=
  match c.stage with
  | .handleInbound .enqueueMessage => o == .refused
  | .handleInbound _ => o != .ran
  | _ => false

theorem queued_enqueue {db db' : Db} {m : InboundMessage} {now : Nat} (hq : db'.queue = db.queue.enqueue m 3 now)
    (u : Update) (h : Queued db u) : Queued db' u := by
  unfold Queued at h ⊢
  rw [hq, enqueue_keys]
  exact List.mem_append_left _ h

/-- Nothing that was queued goes; a chain that ends without losing its message has it
    queued, and one that goes on is of the same update. -/
theorem Chain.settle_spec {cfg : AdapterConfig} {c : Chain} {uuid : String} {now : Nat} {db db' : Db} {o : Outcome}
    {c' : Option Chain} (h : c.settle cfg uuid now db o = some (.goes c' db')) :
    (∀ u, Queued db u → Queued db' u) ∧
      ((∃ d, c' = some d ∧ d.update = c.update) ∨ Queued db' c.update ∨ c.loses o = true) := by
  unfold Chain.settle at h
  cases hst : c.stage with
  | downloadFile media m =>
    rw [hst] at h
    simp only at h
    split at h
    · cases h
      exact ⟨fun _ hq => hq, Or.inl ⟨_, rfl, rfl⟩⟩
    · cases h
  | writeFile media m =>
    rw [hst] at h
    simp only at h
    split at h
    · cases h
      exact ⟨fun _ hq => hq, Or.inl ⟨_, rfl, rfl⟩⟩
    · cases h
  | handleInbound pc =>
    rw [hst] at h
    obtain ⟨⟨h', d⟩, hs, heq⟩ := Option.map_eq_some_iff.mp h
    cases heq
    rcases Handler.settle_spec hs with ⟨hq, -, hover⟩ | ⟨-, rfl, hq⟩
    · refine ⟨fun u hu => by unfold Queued; rw [hq]; exact hu, ?_⟩
      cases h' with
      | some g => exact Or.inl ⟨_, rfl, rfl⟩
      | none =>
        obtain ⟨hran, href⟩ := hover rfl
        refine Or.inr (Or.inr ?_)
        unfold Chain.loses
        rw [hst]
        cases pc with
        | upsertChat => simpa using hran
        | storeMessage => simpa using hran
        | enqueueMessage => simpa using href rfl
    · refine ⟨queued_enqueue hq, Or.inr (Or.inl ?_)⟩
      unfold Queued
      rw [hq, enqueue_keys, c.own]
      exact List.mem_append_right _ (List.mem_singleton_self _)

end FlowHelm.Channels
