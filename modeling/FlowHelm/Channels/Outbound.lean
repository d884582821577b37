/-
  FlowHelm.Channels.Outbound — a response on its way to the user (ChannelClient.send of
  src/channels/channel-client.ts, handleSend of src/channels/channel-server.ts, send of
  src/channels/telegram/adapter.ts and sendMessage of src/channels/telegram/transport.ts).

  The client posts to the channel container and gives up when it likes; the container cuts the text
  in chunks and asks Telegram for each, in MarkdownV2 and, where that fails, in plain text. Telegram
  shows what it accepts, and its answer to that may still be lost. A request that failed is not
  accepted later. The map of adapters holds Telegram's.

  - `stripMarkdown_letters`: plain text lacks nothing but marks.
  - `chunks_letters`: nor do the chunks.
  - `step_moves`: what an event does to a send and to what is shown.
-/
import FlowHelm.Channels.SplitMessage
import FlowHelm.Lib.Buffer
import FlowHelm.Lib.JsInteger
import FlowHelm.Lib.JsText
import FlowHelm.Lib.Runs

namespace FlowHelm.Channels.Outbound

open Js Runs

/-! ## Text -/

def backslash : UInt16 := 0x5C

def isSpecial (u : UInt16) : Bool := u ∈ ofString "_*[]()~`>#+-=|\x7b\x7d.!\\"

def isFormatting (u : UInt16) : Bool := u ∈ ofString "*_~`"

/-- `text.replace(/\\([_*[\]()~`>#+\-=|{}.!\\])/g, '$1')`. -/
def unescape : JsString → JsString
  | u :: v :: rest => if u = backslash ∧ isSpecial v then v :: unescape rest else u :: unescape (v :: rest)
  | short => short

def stripMarkdown (text : JsString) : JsString := (unescape text).filter (!isFormatting ·)

/-- What is neither white space nor a mark. -/
def letters (text : JsString) : JsString := text.filter fun u => !isWhiteUnit u && !(u == backslash || isFormatting u)

theorem letters_append (s t : JsString) : letters (s ++ t) = letters s ++ letters t := List.filter_append ..

theorem letters_cons_backslash (s : JsString) : letters (backslash :: s) = letters s := by
  rw [letters, List.filter_cons_of_neg (by simp), letters]

theorem unescape_letters : ∀ s : JsString, letters (unescape s) = letters s
  | [] => rfl
  | [_] => rfl
  | u :: v :: rest => by
    rw [unescape]
    split
    · rename_i h
      rw [h.1, letters_cons_backslash, ← List.singleton_append, letters_append, unescape_letters rest, ← letters_append,
        List.singleton_append]
    · rw [← List.singleton_append, letters_append, unescape_letters (v :: rest), ← letters_append, List.singleton_append]

theorem stripMarkdown_letters (s : JsString) : letters (stripMarkdown s) = letters s := by
  have hmarks : letters (stripMarkdown s) = letters (unescape s) := by
    rw [stripMarkdown, letters, letters, List.filter_filter]
    refine List.filter_congr fun u _ => ?_
    cases isFormatting u <;> simp
  rw [hmarks, unescape_letters]

/-- `userId.match(/^tg:(-?\d+)$/)`, and the number. -/
def parseTelegramChatId (userId : JsString) : Option JsNumber :=
  let rest := userId.drop 3
  let digits := if rest.head? = some 0x2D then rest.tail else rest
  if (ofString "tg:").isPrefixOf userId ∧ digits ≠ [] ∧
    digits.all fun u => 0x30 ≤ u && u ≤ 0x39 then some (.ofText rest) else none

/-- `replyToMessageId ? Number(replyToMessageId) : undefined`; neither 0 nor NaN is a reply. -/
def replyParameter (replyToMessageId : Option JsString) : Option JsNumber :=
  match replyToMessageId.filter (· ≠ []) with
  | none => none
  | some id => match JsNumber.ofText id with
    | .nan => none
    | n => if n = .ofRat 0 then none else some n

/-! ## Requests -/

structure SendRequest where
  channel : JsString
  userId : JsString
  text : JsString
  replyToMessageId : Option JsString

/-- `JSON.stringify(body)`. -/
def SendRequest.body (r : SendRequest) : JsString :=
  ofString "\x7b\"channel\":" ++ quote r.channel ++ ofString ",\"userId\":" ++ quote r.userId ++ ofString ",\"text\":" ++
    quote r.text ++
    (match r.replyToMessageId with
      | some id => ofString ",\"replyToMessageId\":" ++ quote id
      | none => []) ++ ofString "\x7d"

def maxBody : Nat := 1024 * 1024

def SendRequest.tooLarge (r : SendRequest) : Bool := maxBody < (Buffer.fromUtf8 r.body).length

inductive Response where
  | success
  | error (status : Nat) (code message : JsString)

def sendFailed (message : JsString) : Response := .error 502 (ofString "SEND_FAILED") message

def notConnected : JsString := ofString "Telegram transport not connected"

inductive Mode where
  | markdownV2
  | plain
  deriving DecidableEq

def Mode.render : Mode → JsString → JsString
  | .markdownV2, chunk => chunk
  | .plain, chunk => stripMarkdown chunk

def chunksOf (text : JsString) : List JsString := (Telegram.splitMessage text defaultMaxLen).getD []

/-! ## Runs -/

inductive Client where
  | waiting
  | resolved
  | thrown (message : JsString)
  deriving DecidableEq

/-- How far the container is with a request. -/
inductive Server where
  | travelling
  /-- The connection is destroyed, and no answer will come. -/
  | closed
  /-- Telegram is asked for a chunk; `before`: its MarkdownV2 was accepted and failed. -/
  | asking (chatId : JsNumber) (part : Nat) (mode : Mode) (accepted before : Bool)
  | answered (response : Response)

structure Send where
  request : SendRequest
  client : Client
  server : Server

/-- A message in a chat, and which part of which send it is. -/
structure Shown where
  send : Nat
  part : Nat
  mode : Mode
  chatId : JsNumber
  replyTo : Option JsNumber
  text : JsString

structure St where
  connected : Bool
  sends : List Send
  shown : List Shown

inductive Answer where
  | ok
  | failed (message : JsString)

inductive Ev where
  | send (r : SendRequest)
  | arrive (i : Nat)
  /-- Telegram shows what it is asked for. -/
  | accept (i : Nat)
  | answer (i : Nat) (a : Answer)
  | respond (i : Nat)
  /-- The timeout, or the connection to the container is lost. -/
  | abandon (i : Nat) (message : JsString)
  | connection (up : Bool)

/-- The next chunk; without a connection both attempts throw. -/
def ask (connected : Bool) (r : SendRequest) (chatId : JsNumber) (part : Nat) : Server :=
  if (chunksOf r.text).length ≤ part then .answered .success
  else if connected then .asking chatId part .markdownV2 false false
  else .answered (sendFailed notConnected)

/-- `send` of the adapter. -/
def adapterSend (connected : Bool) (r : SendRequest) : Server :=
  if connected then match parseTelegramChatId r.userId with
    | some chatId => ask connected r chatId 0
    | none => .answered (sendFailed (ofString "Invalid Telegram chat ID: " ++ r.userId))
  else .answered (sendFailed (ofString "Telegram adapter not connected"))

def handleSend (connected : Bool) (r : SendRequest) : Server :=
  if r.tooLarge then .closed
  else if r.channel = [] ∨ r.userId = [] ∨ r.text = [] then
    .answered (.error 400 (ofString "INVALID_REQUEST") (ofString "channel, userId, and text are required"))
  else if r.channel ≠ ofString "telegram" then
    .answered (.error 404 (ofString "CHANNEL_NOT_FOUND") (ofString "Channel \"" ++ r.channel ++ ofString "\" not configured"))
  else if ¬connected then
    .answered (.error 503 (ofString "CHANNEL_DISCONNECTED") (ofString "Channel \"" ++ r.channel ++ ofString "\" is disconnected"))
  else adapterSend connected r

/-- The `catch` of an attempt. -/
def fallBack (connected : Bool) (chatId : JsNumber) (part : Nat) (message : JsString) (accepted : Bool) : Mode → Server
  | .markdownV2 => if connected then .asking chatId part .plain false accepted else .answered (sendFailed notConnected)
  | .plain => .answered (sendFailed message)

def answered (connected : Bool) (r : SendRequest) : Server → Answer → Option Server
  | .asking chatId part _ true _, .ok => some (ask connected r chatId (part + 1))
  | .asking chatId part mode accepted _, .failed message => some (fallBack connected chatId part message accepted mode)
  | _, _ => none

/-- What the client makes of a response. -/
def Response.settle : Response → Client
  | .success => .resolved
  | .error status _ message =>
    .thrown (ofString "Channel send failed (" ++ (Nat.toDigits 10 status).flatMap utf16 ++ ofString "): " ++ message)

def St.put (s : St) (i : Nat) (send : Send) : St := { s with sends := s.sends.set i send }

/-- The message that is shown where an attempt is accepted. -/
def accepted (i : Nat) (r : SendRequest) : Server → Option (Server × Shown)
  | .asking chatId part mode false before => (chunksOf r.text)[part]?.map fun chunk =>
    (.asking chatId part mode true before, ⟨i, part, mode, chatId, replyParameter r.replyToMessageId, mode.render chunk⟩)
  | _ => none

def step (s : St) : Ev → Option St
  | .send r => some { s with sends := s.sends ++ [⟨r, .waiting, .travelling⟩] }
  | .arrive i => s.sends[i]?.bind fun send => match send.server with
    | .travelling => some (s.put i { send with server := handleSend s.connected send.request })
    | _ => none
  | .accept i => s.sends[i]?.bind fun send => (accepted i send.request send.server).map fun (server, message) =>
    { s.put i { send with server := server } with shown := s.shown ++ [message] }
  | .answer i a => s.sends[i]?.bind fun send => (answered s.connected send.request send.server a).map fun server =>
    s.put i { send with server := server }
  | .respond i => s.sends[i]?.bind fun send => match send.client, send.server with
    | .waiting, .answered response => some (s.put i { send with client := response.settle })
    | _, _ => none
  | .abandon i message => s.sends[i]?.bind fun send => match send.client with
    | .waiting => some (s.put i { send with client := .thrown message })
    | _ => none
  | .connection up => some { s with connected := up }

def channel : System St Ev := ⟨⟨false, [], []⟩, step⟩

/-! ## What an event does -/

theorem chunks_letters (text : JsString) : letters (chunksOf text).flatten = letters text := by
  have hmax : 1 ≤ defaultMaxLen := by decide
  obtain ⟨chunks, hchunks, hsplit⟩ := splitText_split hmax text
  have hof : chunksOf text = chunks := congrArg (Option.getD · []) hchunks
  have hkept := congrArg (List.filter fun u => !(u == backslash || isFormatting u)) hsplit.kept
  rw [List.filter_filter, List.filter_filter] at hkept
  rw [hof, letters, letters]
  refine Eq.trans (List.filter_congr fun u _ => ?_) (hkept.trans (List.filter_congr fun u _ => ?_))
  all_goals exact Bool.and_comm ..

/-- A send has come to `next`, and `shown` is what Telegram shows of it at that. -/
inductive Moves (connected : Bool) (i : Nat) (send : Send) : Ev → Send → List Shown → Prop
  | arrives (travelling : send.server = .travelling) :
    Moves connected i send (.arrive i) { send with server := handleSend connected send.request } []
  | accepted {server : Server} {message : Shown} (h : accepted i send.request send.server = some (server, message)) :
    Moves connected i send (.accept i) { send with server := server } [message]
  | answered {server : Server} {a : Answer} (h : answered connected send.request send.server a = some server) :
    Moves connected i send (.answer i a) { send with server := server } []
  | responds {response : Response} (waiting : send.client = .waiting) (h : send.server = .answered response) :
    Moves connected i send (.respond i) { send with client := response.settle } []
  | abandons (waiting : send.client = .waiting) (message : JsString) :
    Moves connected i send (.abandon i message) { send with client := .thrown message } []

theorem step_moves {s t : St} {e : Ev} (h : step s e = some t) :
    (∃ r, e = .send r ∧ t = { s with sends := s.sends ++ [⟨r, .waiting, .travelling⟩] }) ∨
    (∃ up, e = .connection up ∧ t = { s with connected := up }) ∨
    ∃ i send next shown, s.sends[i]? = some send ∧ Moves s.connected i send e next shown ∧
      t = { s.put i next with shown := s.shown ++ shown } := by
  have hput : ∀ (i : Nat) (next : Send), s.put i next = { s.put i next with shown := s.shown ++ [] } := fun i next => by
    rw [List.append_nil]
    rfl
  cases e with
  | send r => exact .inl ⟨r, rfl, (Option.some.inj h).symm⟩
  | connection up => exact .inr (.inl ⟨up, rfl, (Option.some.inj h).symm⟩)
  | arrive i =>
    obtain ⟨send, hi, h⟩ := Option.bind_eq_some_iff.mp h
    split at h
    · rename_i htravelling
      obtain rfl := Option.some.inj h
      exact .inr (.inr ⟨i, send, _, [], hi, .arrives htravelling, hput i _⟩)
    · cases h
  | accept i =>
    obtain ⟨send, hi, h⟩ := Option.bind_eq_some_iff.mp h
    obtain ⟨⟨server, message⟩, haccepted, rfl⟩ := Option.map_eq_some_iff.mp h
    exact .inr (.inr ⟨i, send, _, [message], hi, .accepted haccepted, rfl⟩)
  | answer i a =>
    obtain ⟨send, hi, h⟩ := Option.bind_eq_some_iff.mp h
    obtain ⟨server, hanswered, rfl⟩ := Option.map_eq_some_iff.mp h
    exact .inr (.inr ⟨i, send, _, [], hi, .answered hanswered, hput i _⟩)
  | respond i =>
    obtain ⟨send, hi, h⟩ := Option.bind_eq_some_iff.mp h
    split at h
    · rename_i hwaiting hresponse
      obtain rfl := Option.some.inj h
      exact .inr (.inr ⟨i, send, _, [], hi, .responds hwaiting hresponse, hput i _⟩)
    · cases h
  | abandon i message =>
    obtain ⟨send, hi, h⟩ := Option.bind_eq_some_iff.mp h
    split at h
    · rename_i hwaiting
      obtain rfl := Option.some.inj h
      exact .inr (.inr ⟨i, send, _, [], hi, .abandons hwaiting message, hput i _⟩)
    · cases h

end FlowHelm.Channels.Outbound
