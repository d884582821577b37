/-
  FlowHelm.Memory.Consolidation — `MemoryConsolidationJob` (consolidation.ts) as the
  program of its statements: `run`, `consolidateSession`, `extractFacts`,
  `condenseIfReady`, `condenseSummaries` and `chunkArray`.

  The model is the job's `run` of one pass; that one pass runs at a time (`running`) is
  the machine's. A fact no column or CHECK admits throws at the statement that refuses it, as
  `extractFacts` catches it there. Of a content that is no text its text is what is embedded.

  - `chunkArray_flatten` / `chunkArray_ne_nil`: the chunks are the messages, none empty.
-/
import FlowHelm.Memory.Statements

namespace FlowHelm.Memory

open Js Script Prog

/-- The bounds are those the schema of the configuration sets, or weaker. -/
structure ConsolidationConfig where
  minUnconsolidatedMessages : Nat
  chunkSize : Nat
  consolidationThreshold : Nat
  d0MaxTokens : Nat
  d1MaxTokens : Nat
  min_pos : 0 < minUnconsolidatedMessages
  chunk_pos : 0 < chunkSize
  threshold_pos : 0 < consolidationThreshold

/-! ## Helpers -/

/-- The slices from `i` on; a loop of positive step makes at most as many as there are elements. -/
def chunksFrom {α : Type} (arr : List α) (size : Nat) : Nat → Nat → List (List α)
  | 0, _ => []
  | fuel + 1, i => if i < arr.length then (arr.drop i).take size :: chunksFrom arr size fuel (i + size) else []

def chunkArray {α : Type} (arr : List α) (size : Nat) : List (List α) := chunksFrom arr size arr.length 0

theorem chunksFrom_flatten {α : Type} (arr : List α) {size : Nat} (hs : 0 < size) (fuel i : Nat)
    (hf : arr.length ≤ fuel + i) : (chunksFrom arr size fuel i).flatten = arr.drop i := by
  induction fuel generalizing i with
  | zero => rw [List.drop_eq_nil_of_le (by omega)]; rfl
  | succ fuel ih =>
    simp only [chunksFrom]
    split
    · rw [List.flatten_cons, ih (i + size) (by omega), ← List.drop_drop]
      exact List.take_append_drop size _
    · rw [List.drop_eq_nil_of_le (by omega)]
      rfl

theorem chunkArray_flatten {α : Type} (arr : List α) {size : Nat} (hs : 0 < size) :
    (chunkArray arr size).flatten = arr := chunksFrom_flatten arr hs _ _ (by omega)

/-- A chunk is the slice from some element on. -/
theorem mem_chunkArray {α : Type} {arr : List α} {size : Nat} {chunk : List α} (h : chunk ∈ chunkArray arr size) :
    ∃ i, i < arr.length ∧ chunk = (arr.drop i).take size := by
  suffices hfrom : ∀ fuel i, chunk ∈ chunksFrom arr size fuel i → ∃ j, j < arr.length ∧ chunk = (arr.drop j).take size from
    hfrom _ _ h
  intro fuel
  induction fuel with
  | zero => simp [chunksFrom]
  | succ fuel ih =>
    intro i hc
    simp only [chunksFrom] at hc
    split at hc
    · rename_i hi
      rcases List.mem_cons.mp hc with rfl | hc
      · exact ⟨i, hi, rfl⟩
      · exact ih _ hc
    · cases hc

theorem chunkArray_ne_nil {α : Type} (arr : List α) {size : Nat} (hs : 0 < size) :
    ∀ chunk ∈ chunkArray arr size, chunk ≠ [] := by
  intro chunk hc h
  obtain ⟨i, hi, rfl⟩ := mem_chunkArray hc
  have hlength := congrArg List.length h
  simp only [List.length_take, List.length_drop, List.length_nil] at hlength
  omega

/-- The CHECK of `memory_type`. -/
def SemanticMemoryType.ofText (s : JsString) : Option SemanticMemoryType :=
  ([("preference", preference), ("fact", fact), ("pattern", pattern), ("contact", contact),
    ("instruction", instruction), ("summary", summary), ("procedure", procedure)].find? (ofString ·.1 == s)).map (·.2)

/-! ## The job -/

def getProfileIdForChat (chatId : String) : Script Nat := do
  match ← await (.chatProfile chatId) with
  | none => Prog.throw (.error s!"Chat not found: {chatId}")
  | some profileId => return profileId

def formatMessage (m : Working) : JsString :=
  let sender := if m.isBotMessage then ofString "assistant" else m.senderName
  ofString "[" ++ sender ++ ofString "]: " ++ m.content.getD (ofString "(no text)")

def formatMessages (chunk : List Working) : JsString := join (ofString "\n") (chunk.map formatMessage)

/-- Whether `estimateTokens` is a number: it is of what has a length. -/
def countable : Json → Bool
  | .str _ | .arr _ => true
  | value => match (value.get "length").bind Json.toNumber with
    | some (.finite ..) => true
    | _ => false

/-- The columns of a fact; `none` where there is one that they do not take. -/
def factColumns (sessionId profileId now : Nat) (content type : Json) (importance : JsNumber) : Except String SemanticColumns :=
  match textOf content, textOf type, importance.clamp 0 1 with
  | some content', some type, some importance =>
    if !countable content then .error "invalid input syntax for type integer"
    else match SemanticMemoryType.ofText type with
      | some memoryType => .ok {
          content := content', memoryType, importance, depth := 0, sourceSession := some sessionId, profileId,
          earliestAt := none, latestAt := none, createdAt := now, chunk := [] }
      | none => .error "memory_semantic_memory_type_check"
  | _, _, none => .error "memory_semantic_importance_check"
  | _, _, _ => .error "Cannot convert object to primitive value"

theorem factColumns_spec {sessionId profileId now : Nat} {content type : Json} {importance : JsNumber} {row : SemanticColumns}
    (h : factColumns sessionId profileId now content type importance = .ok row) :
    (textOf type).bind SemanticMemoryType.ofText = some row.memoryType ∧ importance.clamp 0 1 = some row.importance ∧
      row.depth = 0 ∧ row.sourceSession = some sessionId ∧ row.profileId = profileId ∧ row.createdAt = now ∧ row.chunk = [] := by
  unfold factColumns at h
  split at h
  · rename_i content' type' importance' _ htype himportance
    split at h
    · cases h
    · split at h
      · rename_i memoryType hmemoryType
        cases h
        exact ⟨by rw [htype]; exact hmemoryType, himportance, rfl, rfl, rfl, rfl, rfl⟩
      · cases h
  · cases h
  · cases h

/-- One element of the array the provider returned. -/
def storeFact (sessionId profileId now : Nat) (fact : Json) : Script Unit :=
  if fact.isNull then Prog.throw (.error "Cannot read properties of null (reading 'content')")
  else match (fact.get "content").filter Json.truthy, (fact.get "type").filter Json.truthy with
    | some content, some type => do
      let importance ← numberOrHalf (fact.get "importance")
      await (.embed ((textOf content).getD []))
      match factColumns sessionId profileId now content type importance with
      | .ok row => do
        let _ ← await (.insertSemantic row)
        return ()
      | .error refused => Prog.throw (.error refused)
    | _, _ => return ()

def extractFacts (formattedMessages : JsString) (sessionId profileId : Nat) : Script Unit :=
  Prog.attempt
    (do
      let result ← await (.summarize formattedMessages 500 .factExtraction)
      match Json.parse result with
      | none => Prog.throw (.error "SyntaxError")
      | some (.arr facts) => do
        let now ← await .now
        forEach facts (storeFact sessionId profileId now)
      | some _ => return ())
    fun _ => return ()

/-- One INSERT for each source, in order. -/
def linkMessages (summaryId : Nat) : List Working → Script Unit
  | [] => return ()
  | msg :: rest => do
    await (.linkMessage summaryId msg.key (rest.map Working.key))
    linkMessages summaryId rest

variable (cfg : ConsolidationConfig)

def consolidateChunk (sessionId profileId : Nat) (chunk : List Working) : Script Unit := do
  let formatted := formatMessages chunk
  let summary ← await (.summarize formatted cfg.d0MaxTokens .d0System)
  await (.embed (ofString summary))
  let now ← await .now
  let summaryId ← await (.insertSemantic {
    content := ofString summary, memoryType := .summary, importance := 7 / 10, depth := 0,
    sourceSession := some sessionId, profileId, earliestAt := chunk.head?.map (·.timestamp),
    latestAt := chunk.getLast?.map (·.timestamp), createdAt := now, chunk := chunk.map Working.key })
  linkMessages summaryId chunk
  extractFacts formatted sessionId profileId

def consolidateSession (sessionId : Nat) (chatId : String) : Script Unit := do
  let messages ← await (.unlinkedMessages sessionId)
  if messages.length = 0 then return ()
  else do
    let profileId ← getProfileIdForChat chatId
    forEach (chunkArray messages cfg.chunkSize) (consolidateChunk cfg sessionId profileId)

def formatSummaries (d0Summaries : List Semantic) : JsString :=
  join (ofString "\n\n")
    (d0Summaries.mapIdx fun i s => ofString "[Summary " ++ ofString (toString (i + 1)) ++ ofString "]: " ++ s.content)

/-- `Number(x)` of a column: NULL is 0. -/
def columnNumber (x : Option Nat) : Nat := x.getD 0

def condenseSummaries (chatId : String) : Script Unit := do
  let profileId ← getProfileIdForChat chatId
  let d0Summaries ← await (.uncondensedSummaries chatId profileId)
  if d0Summaries.length < cfg.consolidationThreshold then return ()
  else do
    let condensed ← await (.summarize (formatSummaries d0Summaries) cfg.d1MaxTokens .d1System)
    await (.embed (ofString condensed))
    let now ← await .now
    let parentId ← await (.insertSemantic {
      content := ofString condensed, memoryType := .summary, importance := 7 / 10, depth := 1,
      sourceSession := none, profileId, earliestAt := d0Summaries.head?.map (columnNumber ·.earliestAt),
      latestAt := d0Summaries.getLast?.map (columnNumber ·.latestAt), createdAt := now, chunk := [] })
    forEach d0Summaries fun child => await (.linkSummary parentId child.id)

def condenseIfReady : Script Unit := do
  let candidates ← await (.condensationCandidates cfg.consolidationThreshold)
  forEach candidates fun candidate => condenseSummaries cfg candidate.chatId

namespace Consolidation

/-- Returns the number of sessions processed. -/
def run : Script Nat := do
  let unconsolidatedCount ← await .countUnconsolidated
  if unconsolidatedCount < cfg.minUnconsolidatedMessages then return 0
  else do
    let sessions ← await .sessionsToConsolidate
    forEach sessions fun session => consolidateSession cfg session.id session.chatId
    let now ← await .now
    await (.setLastConsolidation now)
    condenseIfReady cfg
    return sessions.length

end Consolidation

end FlowHelm.Memory
