/-
  FlowHelm.Memory.Reflection — `MemoryReflectionJob` (reflection.ts) as the program of
  its statements: `run`, `runForProfile`, `generateD0`, `condenseMeta`, `condenseMetaType`,
  `runCondensation`, `runReflection`, `runContradictionCascade` and `truncateToTokens`,
  with the confidence model of identity.ts.

  Confidences are exact rationals, those of a reflection the doubles its JSON reads as. Which
  entry is nearest and how similar it is come from the embeddings and are any. How a number is
  spelled in a template string is a parameter (`numberText`); `toFixed(2)` is not. A reflection
  no column or CHECK admits throws at the statement that refuses it, as the callers catch it
  there. Of a content that is no text its text is what is embedded.
-/
import FlowHelm.Memory.Statements

namespace FlowHelm.Memory

open Js Script Prog

structure ReflectionConfig where
  enabled : Bool
  maxInputTokens : Nat
  minSemanticEntries : Nat
  confidenceThreshold : ℚ
  metaCondensationThreshold : Nat
  d1MetaMaxTokens : Nat
  d2MetaMaxTokens : Nat
  maxMetaDepth : Nat
  contradictionCascade : Bool

/-! ## The confidence model (identity.ts) -/

/-- Asymptotic growth: confirmed observations approach 0.95. -/
def confirmConfidence (current : ℚ) : ℚ := min (95 / 100) (current + (1 - current) * (1 / 10))

/-- Faster decay: contradictions reduce confidence quickly. -/
def contradictConfidence (current : ℚ) : ℚ := max (1 / 10) (current * (8 / 10))

/-! ## Texts -/

/-- About four characters a token. -/
def truncateToTokens (text : JsString) (maxTokens : Nat) : JsString :=
  let maxChars := maxTokens * 4
  if text.length ≤ maxChars then text else text.take maxChars

def SemanticMemoryType.text : SemanticMemoryType → JsString
  | preference => ofString "preference"
  | fact => ofString "fact"
  | pattern => ofString "pattern"
  | contact => ofString "contact"
  | instruction => ofString "instruction"
  | summary => ofString "summary"
  | procedure => ofString "procedure"

/-- `Number.prototype.toFixed(2)` of a number that is not negative. -/
def toFixed2 (x : ℚ) : JsString :=
  let n := (x * 100 + 1 / 2).floor.toNat
  ofString (toString (n / 100) ++ "." ++ toString (n / 10 % 10) ++ toString (n % 10))

def entryLine (numberText : ℚ → JsString) (e : Semantic) : JsString :=
  ofString "[" ++ e.memoryType.text ++ ofString "] (importance: " ++ numberText e.importance ++ ofString "): " ++ e.content

def metaLine (e : Meta) : JsString := ofString "(confidence: " ++ toFixed2 e.confidence ++ ofString "): " ++ e.content

def entriesText (lines : List JsString) : JsString := join (ofString "\n") lines

def getPromptForDepth (depth : Nat) (type : MetaMemoryType) : Prompt :=
  if depth = 0 then .d0Prompts type else if depth = 1 then .d1Prompts type else .d2Prompts type

/-! ## Reading the provider -/

/-- The elements of the array in the provider's answer: none of them when it is no array. -/
def parseReflections (result : String) : Script (List Json) :=
  match Json.parse result with
  | none => Prog.throw (.error "SyntaxError")
  | some (.arr reflections) => return reflections
  | some _ => return []

/-- `reflection.content`, `none` where the loop goes on with the next. -/
def reflectionContent (reflection : Json) : Script (Option Json) :=
  if reflection.isNull then Prog.throw (.error "Cannot read properties of null (reading 'content')")
  else return (reflection.get "content").filter Json.truthy

/-- The INSERT into `memory_meta`; its CHECK refuses NaN. -/
def storeMeta (content : Json) (type : MetaMemoryType) (confidence : Option ℚ) (depth profileId : Nat) : Script Nat := do
  let now ← await .now
  match textOf content, confidence with
  | some content, some confidence =>
    await (.insertMeta { content, reflectionType := type, confidence, depth, profileId, createdAt := now })
  | _, none => Prog.throw (.error "memory_meta_confidence_check")
  | none, _ => Prog.throw (.error "Cannot convert object to primitive value")

/-! ## The job -/

variable (cfg : ReflectionConfig) (numberText : ℚ → JsString)

/-- Confirm or decay the nearest entry; whether the reflection is a duplicate of it. -/
def adjustNearest (type : MetaMemoryType) (profileId depth : Nat) : Script Bool := do
  match ← await (.nearestMeta profileId type depth) with
  | none => return false
  | some existing => do
    let similarity ← await (.similarity existing.id)
    if similarity > 85 / 100 then do
      await (.setConfidence existing.id (confirmConfidence existing.confidence))
      return true
    else if similarity > 7 / 10 then do
      await (.setConfidence existing.id (contradictConfidence existing.confidence))
      return false
    else return false

def reflectOne (type : MetaMemoryType) (sourceIds : List Nat) (profileId depth : Nat) (reflection : Json) :
    Script Nat := do
  match ← reflectionContent reflection with
  | none => return 0
  | some content => do
    let confidence := (← numberOrHalf (reflection.get "confidence")).clamp cfg.confidenceThreshold (9 / 10)
    await (.embed ((textOf content).getD []))
    let duplicate ← adjustNearest type profileId depth
    if duplicate then return 0
    else do
      let metaId ← storeMeta content type confidence depth profileId
      forEach sourceIds fun sourceId => await (.linkSource metaId sourceId)
      return 1

def runReflection (type : MetaMemoryType) (systemPrompt : Prompt) (content : JsString) (sourceIds : List Nat)
    (profileId depth : Nat) : Script Nat :=
  Prog.attempt
    (do
      let result ← await (.summarize content 500 systemPrompt)
      let reflections ← parseReflections result
      forSum reflections (reflectOne cfg type sourceIds profileId depth))
    fun _ => return 0

def allTypes : List MetaMemoryType := [.insight, .heuristic, .selfAssessment]

def generateD0 (profileId : Nat) : Script Nat := do
  let stateRow ← await .lastReflectionAt
  let recentEntries ← await (.recentEntries profileId (stateRow.getD 0))
  if recentEntries.length < cfg.minSemanticEntries then return 0
  else
    let truncated := truncateToTokens (entriesText (recentEntries.map (entryLine numberText))) cfg.maxInputTokens
    let sourceIds := recentEntries.map (·.id)
    forSum allTypes fun type => runReflection cfg type (.d0Prompts type) truncated sourceIds profileId 0

def condenseOne (type : MetaMemoryType) (childIds : List Nat) (profileId depth : Nat) (confidenceFloor : ℚ)
    (reflection : Json) : Script Nat := do
  match ← reflectionContent reflection with
  | none => return 0
  | some content => do
    let confidence := (← numberOrHalf (reflection.get "confidence")).clamp confidenceFloor (95 / 100)
    await (.embed ((textOf content).getD []))
    let metaId ← storeMeta content type confidence depth profileId
    forEach childIds fun childId => await (.linkMeta metaId childId)
    return 1

def runCondensation (type : MetaMemoryType) (systemPrompt : Prompt) (content : JsString) (childIds : List Nat)
    (profileId depth : Nat) (confidenceFloor : ℚ) (maxTokens : Nat) : Script Nat :=
  Prog.attempt
    (do
      let result ← await (.summarize content maxTokens systemPrompt)
      let reflections ← parseReflections result
      forSum reflections (condenseOne type childIds profileId depth confidenceFloor))
    fun _ => return 0

/-- The average of the sources' confidences and 0.05, at most 0.95. -/
def confidenceFloor (entries : List Meta) : ℚ :=
  min (95 / 100) ((entries.map (·.confidence)).sum / entries.length + 5 / 100)

def metaMaxTokens (targetDepth : Nat) : Nat := if targetDepth = 1 then cfg.d1MetaMaxTokens else cfg.d2MetaMaxTokens

def condenseMetaType (type : MetaMemoryType) (sourceDepth targetDepth profileId : Nat) : Script Nat := do
  let uncondensed ← await (.uncondensedMetas profileId type sourceDepth)
  if uncondensed.length < cfg.metaCondensationThreshold then return 0
  else
    let maxTokens := metaMaxTokens cfg targetDepth
    let truncated := truncateToTokens (entriesText (uncondensed.map metaLine)) (maxTokens * 4)
    runCondensation type (getPromptForDepth targetDepth type) truncated (uncondensed.map (·.id)) profileId targetDepth
      (confidenceFloor uncondensed) maxTokens

def condenseMeta (sourceDepth targetDepth profileId : Nat) : Script Nat :=
  forSum allTypes fun type => condenseMetaType cfg type sourceDepth targetDepth profileId

/-- `for (depth = 1; depth <= maxMetaDepth; depth++)`, left at the first depth with nothing to condense. -/
def condenseDepths (profileId : Nat) : List Nat → Script Nat
  | [] => return 0
  | depth :: depths => do
    let created ← condenseMeta cfg (depth - 1) depth profileId
    if created = 0 then return 0
    else do
      let more ← condenseDepths profileId depths
      return created + more

/-- Decay one parent if more than half of its children are suppressed. -/
def cascadeParent (parent : Meta) : Script Nat := do
  let (total, low) ← await (.childCounts parent.id)
  if 0 < total ∧ (1 / 2 : ℚ) < low / total then do
    await (.setConfidence parent.id (contradictConfidence parent.confidence))
    return 1
  else return 0

def cascadeDepth (profileId depth : Nat) : Script Nat := do
  let parents ← await (.parentMetas profileId depth)
  forSum parents cascadeParent

def depths : List Nat := List.range' 1 cfg.maxMetaDepth

def runContradictionCascade (profileId : Nat) : Script Nat := forSum (depths cfg) (cascadeDepth profileId)

def runForProfile (profileId : Nat) : Script Nat := do
  let generated ← generateD0 cfg numberText profileId
  let condensed ← condenseDepths cfg profileId (depths cfg)
  if cfg.contradictionCascade then do
    let _ ← runContradictionCascade cfg profileId
    return generated + condensed
  else return generated + condensed

namespace Reflection

/-- Returns the number of entries created. -/
def run : Script Nat :=
  if !cfg.enabled then return 0
  else do
    let profiles ← await .profileIds
    let totalCreated ← forSum profiles (runForProfile cfg numberText)
    let now ← await .now
    await (.setLastReflection now)
    return totalCreated

end Reflection

end FlowHelm.Memory
