/-
  FlowHelm.Memory.AgentContext — `buildIdentityContext` of identity.ts and `buildAgentContext` of
  memory.ts: what is remembered, as the text a task's system prompt starts from.

  What the queries return is given: the rows in their order, with the columns that are printed.
  A text is one the database can hold; a number is a REAL column or a score.
-/
import FlowHelm.Lib.JsFormat
import FlowHelm.Profiles.Store

namespace FlowHelm.Memory.AgentContext

open Js
open Profiles (AgentPersonalityDimension ExternalMemorySource)

/-! ## What is retrieved -/

inductive UserPersonalityDimension where
  | communicationStyle
  | workPatterns
  | decisionMaking
  | priorities
  | preferences
  | boundaries
  deriving DecidableEq

structure AgentIdentity where
  role : String
  expertise : List String
  tone : String
  instructions : Option String

structure PersonalityEntry (Dimension : Type) where
  dimension : Dimension
  content : String
  confidence : Amount

structure UserIdentity where
  name : Option String
  role : Option String
  organization : Option String
  timezone : Option String
  language : Option String

structure Identity where
  agentId : Option AgentIdentity
  agentPersonality : List (PersonalityEntry AgentPersonalityDimension)
  userId : Option UserIdentity
  userPersonality : List (PersonalityEntry UserPersonalityDimension)

structure MetaMemoryEntry where
  content : String
  reflectionType : MetaMemoryType
  confidence : Amount
  depth : Nat

structure SemanticResult where
  content : String
  memoryType : SemanticMemoryType
  importance : Amount
  depth : Nat
  compositeScore : Amount

structure ExternalMemoryEntry where
  content : String
  sourceType : ExternalMemorySource

structure MessageRow where
  senderName : String
  content : Option String
  timestamp : Int
  isBotMessage : Bool

structure Retrieved where
  identity : Identity
  metaResults : List MetaMemoryEntry
  semanticResults : List SemanticResult
  externalResults : List ExternalMemoryEntry
  sessionMessages : List MessageRow

structure IdentityThresholds where
  personalityConfidenceThreshold : ℚ
  userPersonalityConfidenceThreshold : ℚ

inductive MetaStrategy where
  | cascade
  | flat
  deriving DecidableEq

structure ContextConfig where
  identityThresholds : IdentityThresholds
  metaStrategy : MetaStrategy

/-! ## The columns a CHECK lists -/

def agentDimension : AgentPersonalityDimension → String
  | .communicationStyle => "communication_style"
  | .humor => "humor"
  | .emotionalRegister => "emotional_register"
  | .values => "values"
  | .rapport => "rapport"
  | .boundaries => "boundaries"

def userDimension : UserPersonalityDimension → String
  | .communicationStyle => "communication_style"
  | .workPatterns => "work_patterns"
  | .decisionMaking => "decision_making"
  | .priorities => "priorities"
  | .preferences => "preferences"
  | .boundaries => "boundaries"

def reflectionText : MetaMemoryType → String
  | .insight => "insight"
  | .heuristic => "heuristic"
  | .selfAssessment => "self_assessment"

def memoryText : SemanticMemoryType → String
  | .preference => "preference"
  | .fact => "fact"
  | .pattern => "pattern"
  | .contact => "contact"
  | .instruction => "instruction"
  | .summary => "summary"
  | .procedure => "procedure"

def sourceText : ExternalMemorySource → String
  | .document => "document"
  | .userProvided => "user_provided"

/-! ## Escaping -/

/-- `s.replace(/c/g, entity)`. -/
def replaceChar (c : Char) (entity : String) (s : String) : String :=
  String.ofList (s.toList.flatMap fun d => if d = c then entity.toList else [d])

/-- The same function in identity.ts and in memory.ts. -/
def escapeXml (s : String) : String :=
  replaceChar '"' "&quot;" (replaceChar '>' "&gt;" (replaceChar '<' "&lt;" (replaceChar '&' "&amp;" s)))

/-! ## identity.ts -/

/-- A text that is true in a condition. -/
def truthyText (s : Option String) : Option String := s.filter (· ≠ "")

/-- The results of one kind between two tags, when there are any. -/
def tagged {α : Type} (tag : String) (results : List α) (print : List α → List String) : List String :=
  if results.isEmpty then [] else s!"  <{tag}>" :: print results ++ [s!"  </{tag}>"]

def agentLines (a : AgentIdentity) : List String :=
  s!"  <agent role=\"{escapeXml a.role}\" tone=\"{escapeXml a.tone}\">" ::
  (truthyText (some (", ".intercalate a.expertise))).toList.map (fun x => s!"    <expertise>{escapeXml x}</expertise>") ++
  (truthyText a.instructions).toList.map (fun x => s!"    <instructions>{escapeXml x}</instructions>") ++
  ["  </agent>"]

def dimLine {Dimension : Type} (text : Dimension → String) (p : PersonalityEntry Dimension) : String :=
  s!"    <dim name=\"{text p.dimension}\" confidence=\"{toFixed 2 p.confidence}\">{escapeXml p.content}</dim>"

/-- The entries of at least the threshold. -/
def filteredP {Dimension : Type} (threshold : ℚ) (ps : List (PersonalityEntry Dimension)) : List (PersonalityEntry Dimension) :=
  ps.filter fun p => threshold ≤ p.confidence.val

def userAttr (name : String) (value : Option String) : List String :=
  (truthyText value).toList.map fun x => s!"{name}=\"{escapeXml x}\""

def userLine (u : UserIdentity) : String :=
  let attrs := userAttr "name" u.name ++ userAttr "role" u.role ++ userAttr "org" u.organization ++
    userAttr "tz" u.timezone ++ userAttr "lang" (some (u.language.getD "en"))
  let joined := " ".intercalate attrs
  s!"  <user {joined} />"

def identityLines (thresholds : IdentityThresholds) (i : Identity) : List String :=
  (i.agentId.map agentLines).getD [] ++
  tagged "agent_personality" (filteredP thresholds.personalityConfidenceThreshold i.agentPersonality)
    (·.map (dimLine agentDimension)) ++
  (i.userId.map userLine).toList ++
  tagged "user_personality" (filteredP thresholds.userPersonalityConfidenceThreshold i.userPersonality)
    (·.map (dimLine userDimension))

def buildIdentityContext (thresholds : IdentityThresholds) (i : Identity) : String :=
  "\n".intercalate ("<identity>" :: identityLines thresholds i ++ ["</identity>"])

/-! ## memory.ts -/

def depthAttr (depth : Nat) : String := if 0 < depth then s!" depth=\"{depth}\"" else ""

def strategicLine (e : MetaMemoryEntry) : String :=
  s!"    <strategic type=\"{reflectionText e.reflectionType}\" confidence=\"{toFixed 2 e.confidence}\" depth=\"{e.depth}\">" ++
    s!"{escapeXml e.content}</strategic>"

/-- A line of depth one or zero. -/
def gradedLine (tag : String) (e : MetaMemoryEntry) : String :=
  s!"    <{tag} type=\"{reflectionText e.reflectionType}\" confidence=\"{toFixed 2 e.confidence}\">{escapeXml e.content}</{tag}>"

def flatLine (e : MetaMemoryEntry) : String :=
  s!"    <{reflectionText e.reflectionType} confidence=\"{toFixed 2 e.confidence}\"{depthAttr e.depth}>" ++
    s!"{escapeXml e.content}</{reflectionText e.reflectionType}>"

def metaLines (strategy : MetaStrategy) (es : List MetaMemoryEntry) : List String := match strategy with
  | .cascade => (es.filter (2 ≤ ·.depth)).map strategicLine ++ (es.filter (·.depth = 1)).map (gradedLine "evaluated") ++
    (es.filter (·.depth = 0)).map (gradedLine "observation")
  | .flat => es.map flatLine

def memoryLine (r : SemanticResult) : String :=
  s!"    <memory type=\"{memoryText r.memoryType}\" importance=\"{toFixed 1 r.importance}\" " ++
    s!"score=\"{toFixed 2 r.compositeScore}\"{depthAttr r.depth}>{escapeXml r.content}</memory>"

def entryLine (e : ExternalMemoryEntry) : String :=
  s!"    <entry source=\"{sourceText e.sourceType}\">{escapeXml e.content}</entry>"

/-- The minute of a message, a space for the letter between day and hour. -/
def messageTime (m : MessageRow) : Except String String :=
  (toISOString m.timestamp).map fun s => String.ofList ((s.toList.replace 'T' ' ').take 16)

def sender (m : MessageRow) : String := if m.isBotMessage then "assistant" else escapeXml m.senderName

def messageText (m : MessageRow) (time : String) : String :=
  let content := escapeXml (m.content.getD "[no content]")
  s!"    <message sender=\"{sender m}\" time=\"{time}\">{content}</message>"

def messageLine (m : MessageRow) : Except String String := (messageTime m).map (messageText m)

/-- `context.split('\n').join('\n  ')`. -/
def indentText (context : String) : String :=
  String.ofList (['\n', ' ', ' '].intercalate (context.toList.splitOn '\n'))

def contextDate (now : Nat) : Except String String := (toISOString now).map fun s => String.ofList (s.toList.take 10)

def tzAttr (timezone : Option String) : String := match truthyText timezone with
  | some zone => s!" timezone=\"{escapeXml zone}\""
  | none => ""

def buildAgentContext (config : ContextConfig) (now : Nat) (chatId : String) (timezone : Option String)
    (retrieved : Option Retrieved) : Except String String := do
  let date ← contextDate now
  match retrieved with
  | none => throw s!"No profile found for chat {chatId}"
  | some r =>
    let identityContext := buildIdentityContext config.identityThresholds r.identity
    let messages ← r.sessionMessages.mapM messageLine
    return "\n".intercalate (s!"<context{tzAttr timezone} date=\"{date}\">" :: s!"  {indentText identityContext}" ::
      tagged "meta_memory" r.metaResults (metaLines config.metaStrategy) ++
      tagged "semantic_memory" r.semanticResults (·.map memoryLine) ++
      tagged "external_memory" r.externalResults (·.map entryLine) ++
      tagged "working_memory" r.sessionMessages (fun _ => messages) ++
      ["</context>"])

end FlowHelm.Memory.AgentContext
