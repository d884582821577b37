/-
  FlowHelm.Mcp.Tools — the six memory tools of mcp-server.ts, with the queries of memory.ts
  behind them, on the full tables.

  A tool is a program over `Query`; a thrown Error is its message. `Answers` says which rows
  a query can be answered with: an ORDER BY leaves rows that are equal in it in any order.
  The embedding provider, the distance of two embeddings, the composite score at the time
  of the call and the reading of a parameter as a UUID are the `Engine`. The recursion of
  `traceMetaToSources` is bounded by `fuel`; `Gives` is what a call can return for some.
-/
import FlowHelm.Lib.Js
import FlowHelm.Lib.Reading
import FlowHelm.Memory.Statements
import FlowHelm.Profiles.Store

namespace FlowHelm.Mcp

open Memory (SemanticMemoryType MetaMemoryType MessageKey Ordered)
open Profiles (Embedding SemanticRow MetaRow ExternalRow ExternalMemorySource Message Tables)
open Js (Json JsString)
open Script Prog

structure Engine where
  embed : Json → Except String Embedding
  /-- `1 - (a <=> b)`. -/
  similarity : Embedding → Embedding → ℚ
  /-- `compositeScore` of a similarity, a `last_accessed` and an importance. -/
  score : ℚ → Nat → ℚ → ℚ
  uuid : Json → Except String Nat
  candidateMultiplier : Nat
  externalSimilarityThreshold : ℚ

/-! ## Queries -/

inductive Query where
  | semanticCandidates (profileId : Nat) (vector : Embedding) (type : Option SemanticMemoryType) (limit : Nat)
  | externalCandidates (profileId : Nat) (vector : Embedding) (source : Option ExternalMemorySource) (limit : Nat)
  | metaCandidates (profileId : Nat) (vector : Embedding) (type : Option MetaMemoryType) (minDepth maxDepth : ℤ)
      (limit : Nat)
  | summaryDepth (summaryId : Nat)
  | summaryMessages (summaryId : Nat)
  | summaryChildren (summaryId : Nat)
  | metaDepth (metaId : Nat)
  | metaSources (metaId : Nat)
  | metaChildren (metaId : Nat)

@[reducible] def Rows : Query → Type
  | .semanticCandidates .. => List SemanticRow
  | .externalCandidates .. => List ExternalRow
  | .metaCandidates .. => List MetaRow
  | .summaryDepth _ => Option Nat
  | .summaryMessages _ => List Message
  | .summaryChildren _ => List SemanticRow
  | .metaDepth _ => Option Nat
  | .metaSources _ => List SemanticRow
  | .metaChildren _ => List MetaRow

abbrev Script (α : Type) := Prog Query Rows α

abbrev query (q : Query) : Script (Rows q) := perform q

/-- ORDER BY with LIMIT. -/
def Top {α : Type} (le : α → α → Bool) (limit : Nat) (rows answer : List α) : Prop :=
  ∃ all, Ordered le rows all ∧ answer = all.take limit

def wanted {α : Type} [DecidableEq α] (type : Option α) (x : α) : Bool := match type with
  | some y => x == y
  | none => true

/-- What the WHERE clauses and JOINs select. -/
def semanticsFor (t : Tables) (profileId : Nat) (type : Option SemanticMemoryType) : List SemanticRow :=
  t.semantics.filter fun r => r.profileId == profileId && wanted type r.memoryType

def externalsFor (t : Tables) (profileId : Nat) (source : Option ExternalMemorySource) : List ExternalRow :=
  t.externals.filter fun r => r.profileId == profileId && wanted source r.sourceType

def metasFor (t : Tables) (profileId : Nat) (type : Option MetaMemoryType) (minDepth maxDepth : ℤ) : List MetaRow :=
  t.metas.filter fun m => m.profileId == profileId && wanted type m.reflectionType && decide (1 / 5 ≤ m.confidence) &&
    decide (minDepth ≤ m.depth) && decide ((m.depth : ℤ) ≤ maxDepth)

def messagesOf (t : Tables) (summaryId : Nat) : List Message :=
  t.messages.filter fun m => decide ((summaryId, m.key) ∈ t.messageSources)

def childrenOf (t : Tables) (summaryId : Nat) : List SemanticRow :=
  t.semantics.filter fun r => decide ((summaryId, r.id) ∈ t.parentSources)

def sourcesOf (t : Tables) (metaId : Nat) : List SemanticRow :=
  t.semantics.filter fun r => decide ((metaId, r.id) ∈ t.metaSources)

def childMetasOf (t : Tables) (metaId : Nat) : List MetaRow :=
  t.metas.filter fun m => decide ((metaId, m.id) ∈ t.metaParents)

def byTimestamp (m n : Message) : Bool := m.timestamp ≤ n.timestamp

/-- NULLS LAST. -/
def byEarliest (r q : SemanticRow) : Bool := match r.earliestAt, q.earliestAt with
  | some a, some b => a ≤ b
  | some _, none => true
  | none, some _ => false
  | none, none => true

def byCreation (r q : SemanticRow) : Bool := r.createdAt ≤ q.createdAt

def byDepth (m n : MetaRow) : Bool := m.depth < n.depth ∨ (m.depth = n.depth ∧ m.createdAt ≤ n.createdAt)

def Answers (e : Engine) : (q : Query) → Tables → Rows q → Prop
  | .semanticCandidates profileId vector type limit, t, a =>
    Top (fun r q => e.similarity q.embedding vector ≤ e.similarity r.embedding vector) limit
      (semanticsFor t profileId type) a
  | .externalCandidates profileId vector source limit, t, a =>
    Top (fun r q => e.similarity q.embedding vector ≤ e.similarity r.embedding vector) limit
      (externalsFor t profileId source) a
  | .metaCandidates profileId vector type minDepth maxDepth limit, t, a =>
    Top (fun m n => e.similarity n.embedding vector ≤ e.similarity m.embedding vector) limit
      (metasFor t profileId type minDepth maxDepth) a
  | .summaryDepth summaryId, t, a =>
    a = (t.semantics.find? fun r => r.id == summaryId && r.memoryType == .summary).map (·.depth)
  | .summaryMessages summaryId, t, a => Ordered byTimestamp (messagesOf t summaryId) a
  | .summaryChildren summaryId, t, a => Ordered byEarliest (childrenOf t summaryId) a
  | .metaDepth metaId, t, a => a = (t.metas.find? (·.id == metaId)).map (·.depth)
  | .metaSources metaId, t, a => Ordered byCreation (sourcesOf t metaId) a
  | .metaChildren metaId, t, a => Ordered byDepth (childMetasOf t metaId) a

/-! ## Arguments -/

def fromExcept {α : Type} : Except String α → Script α
  | .ok a => .ret a
  | .error message => .throw (.error message)

/-- `if (!value) throw new Error('… is required')`. -/
def required (args : Json) (name : String) : Except String Json := match args.get name with
  | some v => if v.truthy then .ok v else .error s!"{name} is required"
  | none => .error s!"{name} is required"

/-- An optional member of a list of names; anything falsy is none. -/
def oneOf {α : Type} (args : Json) (name : String) (valid : List (String × α)) : Except String (Option α) :=
  match args.get name with
  | some v =>
    if v.truthy then
      match v.text?.bind fun s => valid.find? (Js.ofString ·.1 == s) with
      | some x => .ok (some x.2)
      | none => .error ("Invalid " ++ name ++ ". Must be one of: " ++ ", ".intercalate (valid.map (·.1)))
    else .ok none
  | none => .ok none

/-- The number a member is. -/
def number? (args : Json) (name : String) : Option ℚ := match args.get name with
  | some (.num neg digits exp) => some (Json.decimal neg digits exp)
  | _ => none

def clampLimit (value : Option ℚ) (default max : Nat) : Nat := match value with
  | none => default
  | some q => Nat.max 1 (Nat.min max q.floor.toNat)

/-- A number as an `int4` parameter. -/
def int4 (q : ℚ) : Except String ℤ :=
  if q.den = 1 ∧ -2147483648 ≤ q.num ∧ q.num ≤ 2147483647 then .ok q.num else .error "invalid input syntax for type integer"

def depthArg (args : Json) (name : String) (default : ℤ) : Except String ℤ := match number? args name with
  | none => .ok default
  | some q => int4 q

def VALID_SEMANTIC_TYPES : List (String × SemanticMemoryType) :=
  [("preference", .preference), ("fact", .fact), ("pattern", .pattern), ("contact", .contact),
    ("instruction", .instruction), ("summary", .summary), ("procedure", .procedure)]

def VALID_META_TYPES : List (String × MetaMemoryType) :=
  [("insight", .insight), ("heuristic", .heuristic), ("self_assessment", .selfAssessment)]

def VALID_EXTERNAL_SOURCES : List (String × ExternalMemorySource) :=
  [("document", .document), ("user_provided", .userProvided)]

/-! ## Results -/

/-- `Math.round(n * 1000) / 1000`. -/
def round3 (n : ℚ) : ℚ := (n * 1000 + 1 / 2).floor / 1000

structure SemanticHit where
  id : Nat
  content : String
  type : SemanticMemoryType
  importance : ℚ
  depth : Nat
  similarity : ℚ
  score : ℚ
  created_at : Nat

structure ExternalHit where
  content : String
  source : ExternalMemorySource
  source_ref : String
  similarity : ℚ
  created_at : Nat

structure MetaHit where
  id : Nat
  content : String
  reflection_type : MetaMemoryType
  confidence : ℚ
  depth : Nat
  similarity : ℚ
  score : ℚ

/-- `time` is the ISO text of that instant. -/
structure MessageItem where
  sender : String
  content : String
  time : Nat
  is_assistant : Bool

structure SummaryItem where
  id : Nat
  content : String
  depth : Nat
  earliest_at : Option Nat
  latest_at : Option Nat

structure SourceItem where
  id : Nat
  content : String
  memory_type : SemanticMemoryType
  importance : ℚ
  depth : Nat

structure ChildItem where
  id : Nat
  content : String
  reflection_type : MetaMemoryType
  confidence : ℚ
  depth : Nat

inductive ToolResult where
  | semantic (hits : List SemanticHit)
  | external (hits : List ExternalHit)
  | metas (hits : List MetaHit)
  | messages (data : List MessageItem)
  | summaries (data : List SummaryItem)
  | semanticSources (data : List SourceItem)
  | childMetas (data : List ChildItem)
  | empty
  | traced (count : Nat) (sources : List SourceItem)

/-- The latest instant a `Date` can be. -/
def maxDate : Nat := 8640000000000000

/-- `toISOString` throws for what is no date. -/
def formatMessageForTool (msg : Message) : Except String MessageItem :=
  if msg.timestamp ≤ maxDate then .ok ⟨msg.senderName, msg.content.getD "[no content]", msg.timestamp, msg.isFromMe⟩
  else .error "Invalid time value"

def summaryItem (r : SemanticRow) : SummaryItem := ⟨r.id, r.content, r.depth, r.earliestAt, r.latestAt⟩

def sourceItem (r : SemanticRow) : SourceItem := ⟨r.id, r.content, r.memoryType, r.importance, r.depth⟩

def childItem (m : MetaRow) : ChildItem := ⟨m.id, m.content, m.reflectionType, round3 m.confidence, m.depth⟩

/-! ## Tools -/

/-- The candidates by descending score, stable as `sort` is. -/
def rankByCompositeScore {α : Type} (score : α → ℚ) (limit : Nat) (candidates : List α) : List α :=
  (candidates.mergeSort fun a b => score b ≤ score a).take limit

def toolSearchSemantic (e : Engine) (profileId : Nat) (args : Json) : Script ToolResult := do
  let text ← fromExcept (required args "query")
  let memoryType ← fromExcept (oneOf args "type" VALID_SEMANTIC_TYPES)
  let limit := clampLimit (number? args "limit") 10 50
  let vector ← fromExcept (e.embed text)
  let rows ← query (.semanticCandidates profileId vector memoryType (limit * e.candidateMultiplier))
  let score (r : SemanticRow) : ℚ := e.score (e.similarity r.embedding vector) r.lastAccessed r.importance
  return .semantic ((rankByCompositeScore score limit rows).map fun r =>
    ⟨r.id, r.content, r.memoryType, r.importance, r.depth, round3 (e.similarity r.embedding vector), round3 (score r),
      r.createdAt⟩)

def toolSearchExternal (e : Engine) (profileId : Nat) (args : Json) : Script ToolResult := do
  let text ← fromExcept (required args "query")
  let source ← fromExcept (oneOf args "source" VALID_EXTERNAL_SOURCES)
  let limit := clampLimit (number? args "limit") 5 50
  let vector ← fromExcept (e.embed text)
  let rows ← query (.externalCandidates profileId vector source limit)
  return .external ((rows.filter fun r => e.externalSimilarityThreshold ≤ e.similarity r.embedding vector).map fun r =>
    ⟨r.content, r.sourceType, r.sourceRef, round3 (e.similarity r.embedding vector), r.createdAt⟩)

def toolSearchMeta (e : Engine) (profileId : Nat) (args : Json) : Script ToolResult := do
  let text ← fromExcept (required args "query")
  let type ← fromExcept (oneOf args "type" VALID_META_TYPES)
  let limit := clampLimit (number? args "limit") 5 20
  let vector ← fromExcept (e.embed text)
  let minDepth ← fromExcept (depthArg args "min_depth" 0)
  let maxDepth ← fromExcept (depthArg args "max_depth" 999)
  let rows ← query (.metaCandidates profileId vector type minDepth maxDepth (limit * e.candidateMultiplier))
  let score (m : MetaRow) : ℚ := e.score (e.similarity m.embedding vector) m.lastAccessed m.confidence
  return .metas ((rankByCompositeScore score limit rows).map fun m =>
    ⟨m.id, m.content, m.reflectionType, round3 m.confidence, m.depth, round3 (e.similarity m.embedding vector),
      round3 (score m)⟩)

inductive Expansion where
  | nothing
  | messages (rows : List Message)
  | childSummaries (rows : List SemanticRow)

def expandMemory (summaryId : Nat) : Script Expansion := do
  match ← query (.summaryDepth summaryId) with
  | none => return .nothing
  | some depth =>
    if depth = 0 then do
      let messages ← query (.summaryMessages summaryId)
      return .messages messages
    else do
      let children ← query (.summaryChildren summaryId)
      return .childSummaries children

def Expansion.result : Expansion → Script ToolResult
  | .messages rows => do
    let data ← fromExcept (rows.mapM formatMessageForTool)
    return .messages data
  | .childSummaries rows => return .summaries (rows.map summaryItem)
  | .nothing => return .empty

def toolExpandMemory (e : Engine) (args : Json) : Script ToolResult := do
  let memoryId ← fromExcept (required args "memory_id")
  let summaryId ← fromExcept (e.uuid memoryId)
  let result ← expandMemory summaryId
  result.result

inductive MetaExpansion where
  | nothing
  | sourceSemantics (rows : List SemanticRow)
  | childMetas (rows : List MetaRow)

def expandMetaMemory (metaId : Nat) : Script MetaExpansion := do
  match ← query (.metaDepth metaId) with
  | none => return .nothing
  | some depth =>
    if depth = 0 then do
      let sourceRows ← query (.metaSources metaId)
      return .sourceSemantics sourceRows
    else do
      let childRows ← query (.metaChildren metaId)
      return .childMetas childRows

def MetaExpansion.result : MetaExpansion → ToolResult
  | .sourceSemantics rows => .semanticSources (rows.map sourceItem)
  | .childMetas rows => .childMetas (rows.map childItem)
  | .nothing => .empty

def toolExpandMeta (e : Engine) (args : Json) : Script ToolResult := do
  let metaArg ← fromExcept (required args "meta_id")
  let metaId ← fromExcept (e.uuid metaArg)
  let result ← expandMetaMemory metaId
  return result.result

/-- `allSources.filter` with the ids seen so far. -/
def dedupe (seen : List Nat) : List SemanticRow → List SemanticRow
  | [] => []
  | r :: rest => if r.id ∈ seen then dedupe seen rest else r :: dedupe (r.id :: seen) rest

def outOfFuel : Exn Query := .error "out of fuel"

/-- What a trace makes of an expansion, `trace` being the call for a child. -/
def MetaExpansion.sources (trace : Nat → Script (List SemanticRow)) : MetaExpansion → Script (List SemanticRow)
  | .sourceSemantics rows => return rows
  | .childMetas rows => do
    let allSources ← forConcat rows fun child => trace child.id
    return dedupe [] allSources
  | .nothing => return []

def traceMetaToSources : Nat → Nat → Script (List SemanticRow)
  | 0, _ => Prog.throw outOfFuel
  | fuel + 1, metaId => do
    let result ← expandMetaMemory metaId
    result.sources (traceMetaToSources fuel)

def toolTraceToSource (e : Engine) (fuel : Nat) (args : Json) : Script ToolResult := do
  let metaArg ← fromExcept (required args "meta_id")
  let metaId ← fromExcept (e.uuid metaArg)
  let sources ← traceMetaToSources fuel metaId
  return .traced sources.length (sources.map sourceItem)

inductive Tool where
  | searchSemantic
  | searchExternal
  | searchMeta
  | expandMemory
  | expandMeta
  | traceToSource
  deriving DecidableEq

/-- A call of a tool of the server bound to `profileId`. -/
def call (e : Engine) (profileId fuel : Nat) (args : Json) : Tool → Script ToolResult
  | .searchSemantic => toolSearchSemantic e profileId args
  | .searchExternal => toolSearchExternal e profileId args
  | .searchMeta => toolSearchMeta e profileId args
  | .expandMemory => toolExpandMemory e args
  | .expandMeta => toolExpandMeta e args
  | .traceToSource => toolTraceToSource e fuel args

/-- A call can return, or throw, `r`. -/
def Gives (e : Engine) (profileId : Nat) (tool : Tool) (args : Json) (t : Tables) (r : Except (Exn Query) ToolResult) : Prop :=
  r ≠ .error outOfFuel ∧ ∃ fuel, Can (Answers e) t (call e profileId fuel args tool) r

end FlowHelm.Mcp
