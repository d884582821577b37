/-
  FlowHelm.Orchestrator.Task — one run of `processQueueItem`
  (src/orchestrator/orchestrator.ts) with the router's `sendResponse` and
  `handleAgentResult` (src/orchestrator/message-router.ts).

  A task is suspended at an await (`Pc`). `step` resumes it with what the awaited
  operation came back with (`Ret`) and runs it to its next await; what the resumed
  operation did outside the task, or the code between the awaits did, is the `Effect`.
  A database statement can resolve, be refused (`threw`), or be executed and still
  reject (`lost`). Every throw of the try block ends in `fail`, every throw of
  `handleTaskFailure` is swallowed, and `finally` is left to the orchestrator.

  - `step_move`: everything a step can do (`Move`), by its effect and by which side of the
    audio, the try block and the task's own statement it starts and ends on.
-/
import FlowHelm.Lib.Js
import FlowHelm.Orchestrator.MessageQueue

namespace FlowHelm.Orchestrator

open Js

structure Config where
  maxConcurrentContainers : Nat
  serviceClient : Bool
  channelClient : Bool
  agentRuntime : Bool

structure ToolCallRecord where
  tool : String
  args : List (String × Json)
  result : Option String

/-- What the agent runtime returns. `text` is whatever value the CLI's JSON held. -/
structure AgentResult where
  text : Json
  toolCalls : List ToolCallRecord
  inputTokens : Json
  outputTokens : Json
  success : Bool
  error : Option Json

/-! ## Facts -/

def argText (args : List (String × Json)) (key : String) (other : String) : JsString :=
  match args.lookup key with
  | some (.str s) => s
  | _ => ofString other

/-- `extractFactFromToolCall`: the content of the memory, of type `fact` and importance
    0.6 in both cases. -/
def extractFactFromToolCall (c : ToolCallRecord) : Option JsString :=
  if includes c.tool "gmail" && includes c.tool "send" && given c.result then
    let subject := argText c.args "subject" ""
    some (ofString "Sent email to " ++ argText c.args "to" "unknown" ++
      if subject.isEmpty then [] else ofString ": " ++ subject)
  else if includes c.tool "calendar" && includes c.tool "insert" && given c.result then
    some (ofString "Created calendar event: " ++ argText c.args "summary" "event")
  else none

/-! ## The message -/

/-- `${caption}…`: the text so far, a blank line, and `s`. -/
def captioned (text : Option String) (s : String) : String :=
  if given text then text.getD "" ++ "\n\n" ++ s else s

/-- `message.text || placeholder`. -/
def orPlaceholder (text : Option String) (placeholder : String) : String :=
  if given text then text.getD "" else placeholder

def transcription (text : Option String) (heard : String) : String :=
  captioned text ("[Voice message transcription]: " ++ heard)

def untranscribed (text : Option String) : String :=
  orPlaceholder text "[Voice message could not be transcribed]"

def unserviced (text : Option String) : String :=
  orPlaceholder text "[Voice message received but service container is not configured]"

/-- The image hint of step 0.25. -/
def withImage (m : InboundMessage) (text : Option String) : Option String :=
  match m.imagePath with
  | some path =>
    if path = "" then text
    else some (captioned text ("[The user sent an image. View it at: /workspace/downloads/" ++ basename path ++ "]"))
  | none => text

/-! ## Awaits -/

/-- The awaits of `sendResponse`. -/
inductive SendPc where
  | send
  | getActiveSession
  | getChatProfile
  | storeMessage
  deriving DecidableEq

/-- The awaits between the commands and the agent. -/
inductive Prep where
  | buildAgentContext
  | getChatProfile
  | getAgentIdentity
  | getActiveSession
  | startSession
  | getStartedSession
  | backfillSessionId
  | mcpStart
  deriving DecidableEq

inductive Pc where
  | transcribe
  | unlink
  | command
  | commandReply (p : SendPc)
  | commandAck
  | prepare (p : Prep)
  | execute
  | reply (p : SendPc) (r : AgentResult)
  | extractSession (r : AgentResult)
  | extractProfile (r : AgentResult)
  | extractStore (fact : JsString) (rest : List JsString)
  | acknowledge
  | fail (error : String)
  | deadLetterNotice (p : SendPc)
  | finally

inductive Ret where
  | ok
  /-- Resolved to null or undefined. -/
  | missing
  | threw (error : String)
  | lost (error : String)
  | transcript (text : String)
  | unhandled
  | handled (response : Option String)
  | result (r : AgentResult)
  /-- The POST to the channel container settled; `delivered` is what the channel did
      with it (the router swallows a rejection either way). -/
  | sent (delivered : Bool)

inductive Effect where
  | none
  | unlink (path : String)
  /-- `agentRuntime.execute` is called with this task message. -/
  | hand (message : String)
  /-- The channel delivered an agent response. -/
  | deliver
  | acknowledge
  | fail (error : String)

structure Task where
  item : QueuedItem
  text : Option String
  pc : Pc
  /-- Ghost: the channel has delivered this attempt's response. -/
  delivered : Bool

/-! ## Between the awaits -/

/-- The code after the audio block, up to its next await. -/
def Task.afterAudio (t : Task) : Task :=
  let text := withImage t.item.message t.text
  { t with text := text,
           pc := if startsWith (trim (text.getD "")) "/" then .command else .prepare .buildAgentContext }

/-- The start of `processQueueItem`, up to its first await. -/
def Task.start (cfg : Config) (item : QueuedItem) : Task :=
  let m := item.message
  if given m.audioPath then
    if cfg.serviceClient then ⟨item, m.text, .transcribe, false⟩
    else ⟨item, some (unserviced m.text), .unlink, false⟩
  else Task.afterAudio ⟨item, m.text, .finally, false⟩

mutual

/-- Whether `String(v)` returns: an object whose own `toString` hides the inherited one
    cannot be converted. -/
def printable : Json → Bool
  | .arr xs => allPrintable xs
  | .obj fields => !fields.any (·.1 == ofString "toString")
  | _ => true

def allPrintable : List Json → Bool
  | [] => true
  | x :: xs => printable x && allPrintable xs

end

/-- Whether `result.text?.slice(0, 100)` returns: only a string or an array has `slice`. -/
def sliceable : Json → Bool
  | .null => true
  | .str _ => true
  | .arr _ => true
  | _ => false

def firstHundred : Json → Json
  | .arr xs => .arr (xs.take 100)
  | v => v

/-- Behind `execute`: the log line, which prints the start of the text and the error,
    and the start of `handleAgentResult`. -/
def afterExecute (r : AgentResult) : Pc :=
  if !sliceable r.text then .fail "result.text?.slice is not a function"
  else if !printable (firstHundred r.text) || !printable (r.error.getD .null) then
    .fail "Cannot convert object to primitive value"
  else if r.text.truthy then .reply .send r else .acknowledge

def storeFacts : List JsString → Pc
  | f :: fs => .extractStore f fs
  | [] => .acknowledge

inductive SendNext where
  | next (p : SendPc) (delivered : Bool)
  | done
  | threw (error : String)

/-- `sendResponse`: the router throws when it is not started, and sends only with a
    channel client. -/
def sendStep (cfg : Config) : SendPc → Ret → Option SendNext
  | .send, .sent d => if cfg.channelClient then some (.next .getActiveSession d) else none
  | .send, .ok => if cfg.channelClient then none else some (.next .getActiveSession false)
  | .getActiveSession, .ok | .getActiveSession, .missing => some (.next .getChatProfile false)
  | .getChatProfile, .ok | .getChatProfile, .missing => some (.next .storeMessage false)
  | .storeMessage, .ok => some .done
  | .storeMessage, .lost e => some (.threw e)
  | _, .threw e => some (.threw e)
  | _, _ => none

inductive PrepNext where
  | next (p : Prep)
  | done
  | threw (error : String)

def prepStep : Prep → Ret → Option PrepNext
  | .buildAgentContext, .ok => some (.next .getChatProfile)
  | .getChatProfile, .ok => some (.next .getAgentIdentity)
  | .getChatProfile, .missing => some (.next .getActiveSession)
  | .getAgentIdentity, .ok | .getAgentIdentity, .missing => some (.next .getActiveSession)
  | .getActiveSession, .ok => some (.next .backfillSessionId)
  | .getActiveSession, .missing => some (.next .startSession)
  | .startSession, .ok => some (.next .getStartedSession)
  | .getStartedSession, .ok => some (.next .backfillSessionId)
  | .getStartedSession, .missing => some (.next .mcpStart)
  | .backfillSessionId, .ok => some (.next .mcpStart)
  | .mcpStart, .ok => some .done
  | .startSession, .lost e | .backfillSessionId, .lost e => some (.threw e)
  | _, .threw e => some (.threw e)
  | _, _ => none

def Task.at (t : Task) (pc : Pc) : Task := { t with pc := pc }

/-- Resume a task with what its await came back with. -/
def Task.step (cfg : Config) (t : Task) (r : Ret) : Option (Task × Effect) :=
  match t.pc with
  | .transcribe => match r with
    | .transcript heard => some ({ t with text := some (transcription t.text heard), pc := .unlink }, .none)
    | .threw _ => some ({ t with text := some (untranscribed t.text), pc := .unlink }, .none)
    | _ => none
  | .unlink => match r with
    | .ok => some (t.afterAudio, .unlink (t.item.message.audioPath.getD ""))
    | .threw _ => some (t.afterAudio, .none)
    | _ => none
  | .command => match r with
    | .unhandled => some (t.at (.prepare .buildAgentContext), .none)
    | .handled response => some (t.at (if given response then .commandReply .send else .commandAck), .none)
    | .threw e => some (t.at (.fail e), .none)
    | _ => none
  | .commandReply p => match sendStep cfg p r with
    | some (.next p _) => some (t.at (.commandReply p), .none)
    | some .done => some (t.at .commandAck, .none)
    | some (.threw e) => some (t.at (.fail e), .none)
    | none => none
  | .prepare p => match prepStep p r with
    | some (.next p) => some (t.at (.prepare p), .none)
    | some .done =>
      if cfg.agentRuntime then some (t.at .execute, .hand (t.text.getD "")) else some (t.at .acknowledge, .none)
    | some (.threw e) => some (t.at (.fail e), .none)
    | none => none
  | .execute => match r with
    | .result res => some (t.at (afterExecute res), .none)
    | .threw e => some (t.at (.fail e), .none)
    | _ => none
  | .reply p res => match sendStep cfg p r with
    | some (.next p d) =>
      some ({ t with pc := .reply p res, delivered := t.delivered || d }, if d then .deliver else .none)
    | some .done => some (t.at (if res.success then .extractSession res else .acknowledge), .none)
    | some (.threw e) => some (t.at (.fail e), .none)
    | none => none
  | .extractSession res => match r with
    | .ok | .missing => some (t.at (.extractProfile res), .none)
    | .threw e => some (t.at (.fail e), .none)
    | _ => none
  | .extractProfile res => match r with
    | .ok | .missing => some (t.at (storeFacts (res.toolCalls.filterMap extractFactFromToolCall)), .none)
    | .threw e => some (t.at (.fail e), .none)
    | _ => none
  | .extractStore _ rest => match r with
    | .ok => some (t.at (storeFacts rest), .none)
    | .threw e | .lost e => some (t.at (.fail e), .none)
    | _ => none
  | .commandAck | .acknowledge => match r with
    | .ok => some (t.at .finally, .acknowledge)
    | .threw e => some (t.at (.fail e), .none)
    | .lost e => some (t.at (.fail e), .acknowledge)
    | _ => none
  | .fail e => match r with
    | .ok => some (t.at (if t.item.maxAttempts ≤ t.item.attempts then .deadLetterNotice .send else .finally), .fail e)
    | .threw _ => some (t.at .finally, .none)
    | .lost _ => some (t.at .finally, .fail e)
    | _ => none
  | .deadLetterNotice p => match sendStep cfg p r with
    | some (.next p _) => some (t.at (.deadLetterNotice p), .none)
    | some .done | some (.threw _) => some (t.at .finally, .none)
    | none => none
  | .finally => none

/-! ## What a step can do -/

/-- The task's own statement on its row is behind it. -/
def Pc.settled : Pc → Bool
  | .deadLetterNotice _ => true
  | .finally => true
  | _ => false

/-- The audio block is not behind it yet. -/
def Pc.listening : Pc → Bool
  | .transcribe => true
  | .unlink => true
  | _ => false

def Pc.transcribing : Pc → Bool
  | .transcribe => true
  | _ => false

def Pc.failing : Pc → Bool
  | .fail _ => true
  | _ => false

/-- In the try block, past the audio. -/
def Pc.inner (p : Pc) : Bool := !p.listening && !p.failing && !p.settled

/-- Behind the send of the response, before the statement that closes the attempt. -/
def Pc.replying : Pc → Bool
  | .reply .send _ => false
  | .reply _ _ => true
  | .extractSession _ => true
  | .extractProfile _ => true
  | .extractStore _ _ => true
  | .acknowledge => true
  | _ => false

def Pc.acking : Pc → Bool
  | .commandAck => true
  | .acknowledge => true
  | _ => false

/-- The attempt has delivered a response and can still complete. -/
def Task.open (t : Task) : Bool := t.delivered && t.pc.replying

@[simp] theorem Task.at_item (t : Task) (pc : Pc) : (t.at pc).item = t.item := rfl
@[simp] theorem Task.at_text (t : Task) (pc : Pc) : (t.at pc).text = t.text := rfl
@[simp] theorem Task.at_pc (t : Task) (pc : Pc) : (t.at pc).pc = pc := rfl
@[simp] theorem Task.at_delivered (t : Task) (pc : Pc) : (t.at pc).delivered = t.delivered := rfl
@[simp] theorem Task.afterAudio_item (t : Task) : t.afterAudio.item = t.item := rfl
@[simp] theorem Task.afterAudio_text (t : Task) : t.afterAudio.text = withImage t.item.message t.text := rfl
@[simp] theorem Task.afterAudio_delivered (t : Task) : t.afterAudio.delivered = t.delivered := rfl

/-- Everything a step can do, by what later proofs tell apart. -/
inductive Task.Move (t : Task) : Ret → Task → Effect → Prop
  | heard (x : String) : t.pc = .transcribe →
      Move t (.transcript x) { t with text := some (transcription t.text x), pc := .unlink } .none
  | unheard (e : String) : t.pc = .transcribe →
      Move t (.threw e) { t with text := some (untranscribed t.text), pc := .unlink } .none
  | unlinked : t.pc = .unlink → Move t .ok t.afterAudio (.unlink (t.item.message.audioPath.getD ""))
  | kept (e : String) : t.pc = .unlink → Move t (.threw e) t.afterAudio .none
  /-- A step inside the try block, or a throw out of it. -/
  | quiet (r : Ret) (pc : Pc) : t.pc.inner = true → (pc.inner || pc.failing) = true →
      (t.pc.replying = true → (pc.replying || pc.failing) = true) → Move t r (t.at pc) .none
  | hand : t.pc = .prepare .mcpStart → Move t .ok (t.at .execute) (.hand (t.text.getD ""))
  | sent (res : AgentResult) (d : Bool) : t.pc = .reply .send res →
      Move t (.sent d) { t with pc := .reply .getActiveSession res, delivered := t.delivered || d }
        (if d then .deliver else .none)
  | acked : t.pc.acking = true → Move t .ok (t.at .finally) .acknowledge
  | ackLost (e : String) : t.pc.acking = true → Move t (.lost e) (t.at (.fail e)) .acknowledge
  | failed (r : Ret) (e : String) (pc : Pc) : t.pc = .fail e → pc.settled = true → Move t r (t.at pc) (.fail e)
  | failRefused (e e' : String) : t.pc = .fail e → Move t (.threw e') (t.at .finally) .none
  | notice (r : Ret) (pc : Pc) : t.pc.settled = true → pc.settled = true → Move t r (t.at pc) .none

theorem prepStep_done {p : Prep} {r : Ret} (h : prepStep p r = some .done) : p = .mcpStart ∧ r = .ok := by
  cases p <;> cases r <;> simp_all [prepStep]

theorem sendStep_delivers {cfg : Config} {p q : SendPc} {r : Ret} {d : Bool}
    (h : sendStep cfg p r = some (.next q d)) :
    (p = .send ∧ q = .getActiveSession ∧ (r = .sent d ∨ d = false)) ∨ (p ≠ .send ∧ q ≠ .send ∧ d = false) := by
  cases p <;> cases r <;> simp_all [sendStep] <;> grind

theorem Task.afterAudio_inner (t : Task) : t.afterAudio.pc.inner = true ∧ t.afterAudio.pc.replying = false := by
  unfold Task.afterAudio
  simp only []
  split <;> exact ⟨rfl, rfl⟩

theorem Task.start_item (cfg : Config) (item : QueuedItem) : (Task.start cfg item).item = item := by
  unfold Task.start
  simp only []
  split
  · split <;> rfl
  · rfl

theorem afterExecute_next (r : AgentResult) : ((afterExecute r).inner || (afterExecute r).failing) = true := by
  unfold afterExecute
  split
  · rfl
  · split
    · rfl
    · split <;> rfl

theorem storeFacts_next (fs : List JsString) : (storeFacts fs).inner = true ∧ (storeFacts fs).replying = true := by
  cases fs <;> exact ⟨rfl, rfl⟩

/-- A quiet step, its conditions stated of the place it starts from. -/
theorem Task.Move.at {t : Task} {r : Ret} {pc : Pc} (q : Pc) (hq : t.pc = q) (h1 : q.inner = true)
    (h2 : (pc.inner || pc.failing) = true) (h3 : q.replying = true → (pc.replying || pc.failing) = true) :
    Task.Move t r (t.at pc) .none :=
  .quiet r pc (hq ▸ h1) h2 (hq ▸ h3)

theorem Task.step_move {cfg : Config} {t t' : Task} {r : Ret} {e : Effect} (h : t.step cfg r = some (t', e)) :
    Task.Move t r t' e := by
  unfold Task.step at h
  cases hpc : t.pc <;> simp only [hpc] at h
  case transcribe =>
    split at h <;> simp only [Option.some.injEq, Prod.mk.injEq, reduceCtorEq] at h <;> obtain ⟨rfl, rfl⟩ := h
    · exact .heard _ hpc
    · exact .unheard _ hpc
  case unlink =>
    split at h <;> simp only [Option.some.injEq, Prod.mk.injEq, reduceCtorEq] at h <;> obtain ⟨rfl, rfl⟩ := h
    · exact .unlinked hpc
    · exact .kept _ hpc
  case command =>
    split at h <;> simp only [Option.some.injEq, Prod.mk.injEq, reduceCtorEq] at h <;> obtain ⟨rfl, rfl⟩ := h
    · exact .at _ hpc rfl rfl nofun
    · exact .at _ hpc rfl (by split <;> rfl) nofun
    · exact .at _ hpc rfl rfl nofun
  case commandReply p =>
    split at h <;> simp only [Option.some.injEq, Prod.mk.injEq, reduceCtorEq] at h <;> obtain ⟨rfl, rfl⟩ := h <;>
      exact .at _ hpc rfl rfl nofun
  case prepare p =>
    split at h
    · simp only [Option.some.injEq, Prod.mk.injEq] at h; obtain ⟨rfl, rfl⟩ := h
      exact .at _ hpc rfl rfl nofun
    · rename_i hd
      obtain ⟨rfl, rfl⟩ := prepStep_done hd
      split at h <;> simp only [Option.some.injEq, Prod.mk.injEq] at h <;> obtain ⟨rfl, rfl⟩ := h
      · exact .hand hpc
      · exact .at _ hpc rfl rfl nofun
    · simp only [Option.some.injEq, Prod.mk.injEq] at h; obtain ⟨rfl, rfl⟩ := h
      exact .at _ hpc rfl rfl nofun
    · cases h
  case execute =>
    split at h <;> simp only [Option.some.injEq, Prod.mk.injEq, reduceCtorEq] at h <;> obtain ⟨rfl, rfl⟩ := h
    · exact .at _ hpc rfl (afterExecute_next _) nofun
    · exact .at _ hpc rfl rfl nofun
  case reply p res =>
    split at h <;> simp only [Option.some.injEq, Prod.mk.injEq, reduceCtorEq] at h <;> obtain ⟨rfl, rfl⟩ := h
    · rename_i q d hs
      have hstay : ({ t with pc := .reply q res, delivered := t.delivered || false } : Task) = t.at (.reply q res) := by
        simp [Task.at]
      rcases sendStep_delivers hs with ⟨rfl, rfl, rfl | rfl⟩ | ⟨hp, hq, rfl⟩
      · exact .sent res d hpc
      · rw [hstay]; exact .at _ hpc rfl rfl nofun
      · rw [hstay]
        exact .at _ hpc (by cases p <;> rfl) (by cases q <;> rfl) fun _ => by cases q <;> first | rfl | exact absurd rfl hq
    · refine .at _ hpc (by cases p <;> rfl) (by split <;> rfl) fun _ => by split <;> rfl
    · exact .at _ hpc (by cases p <;> rfl) rfl fun _ => rfl
  case extractSession res =>
    split at h <;> simp only [Option.some.injEq, Prod.mk.injEq, reduceCtorEq] at h <;> obtain ⟨rfl, rfl⟩ := h <;>
      exact .at _ hpc rfl rfl fun _ => rfl
  case extractProfile res =>
    split at h <;> simp only [Option.some.injEq, Prod.mk.injEq, reduceCtorEq] at h <;> obtain ⟨rfl, rfl⟩ := h
    · have hs := storeFacts_next (res.toolCalls.filterMap extractFactFromToolCall)
      exact .at _ hpc rfl (by rw [hs.1]; rfl) fun _ => by rw [hs.2]; rfl
    · have hs := storeFacts_next (res.toolCalls.filterMap extractFactFromToolCall)
      exact .at _ hpc rfl (by rw [hs.1]; rfl) fun _ => by rw [hs.2]; rfl
    · exact .at _ hpc rfl rfl fun _ => rfl
  case extractStore fact rest =>
    split at h <;> simp only [Option.some.injEq, Prod.mk.injEq, reduceCtorEq] at h <;> obtain ⟨rfl, rfl⟩ := h
    · have hs := storeFacts_next rest
      exact .at _ hpc rfl (by rw [hs.1]; rfl) fun _ => by rw [hs.2]; rfl
    · exact .at _ hpc rfl rfl fun _ => rfl
    · exact .at _ hpc rfl rfl fun _ => rfl
  case commandAck | acknowledge =>
    split at h <;> simp only [Option.some.injEq, Prod.mk.injEq, reduceCtorEq] at h <;> obtain ⟨rfl, rfl⟩ := h
    · exact .acked (by rw [hpc]; rfl)
    · exact .at _ hpc rfl rfl fun _ => rfl
    · exact .ackLost _ (by rw [hpc]; rfl)
  case fail err =>
    split at h <;> simp only [Option.some.injEq, Prod.mk.injEq, reduceCtorEq] at h <;> obtain ⟨rfl, rfl⟩ := h
    · exact .failed _ err _ hpc (by split <;> rfl)
    · exact .failRefused err _ hpc
    · exact .failed _ err _ hpc rfl
  case deadLetterNotice p =>
    split at h <;> simp only [Option.some.injEq, Prod.mk.injEq, reduceCtorEq] at h <;> obtain ⟨rfl, rfl⟩ := h <;>
      exact .notice _ _ (by rw [hpc]; rfl) rfl
  case «finally» => cases h

end FlowHelm.Orchestrator
