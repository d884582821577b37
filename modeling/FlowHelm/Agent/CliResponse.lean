/-
  FlowHelm.Agent.CliResponse — from the agent process's output to an `AgentResult`
  (src/agent/cli-response.ts, `parseExecResult` of cli-runtime.ts and sdk-runtime.ts,
  `execute` of warm-container-runtime.ts).

  Both runtimes read one JSON value off stdout and differ in what they make of output
  that is not JSON (only the CLI looks for an object inside it), in two messages and in
  two key names. A value without properties, `null`, makes either throw. The exit code
  is not looked at. Left out: the session backup and the idle timer, which change no
  result.

  - `parseResponse_spec`: the four ways an output is read.
-/
import FlowHelm.Lib.Js
import FlowHelm.Orchestrator.Task

namespace FlowHelm.Agent

open Js Orchestrator

structure ExecResult where
  stdout : String
  stderr : String
  exitCode : Int

structure ParsedCliResponse where
  text : Json
  success : Bool
  error : Option Json
  sessionId : Json
  numTurns : Json
  inputTokens : Json
  outputTokens : Json

def zero : Json := .num false 0 0

/-- A response that carries no JSON: a text and why it failed. -/
def failed (text error : String) : ParsedCliResponse :=
  ⟨Json.text text, false, some (Json.text error), Json.text "", zero, zero, zero⟩

def jsonOr (v : Option Json) (other : Json) : Json :=
  match v with
  | some j => if j.truthy then j else other
  | none => other

/-- `json.is_error`, as a condition. -/
def isError (json : Json) : Bool := ((json.get "is_error").getD .null).truthy

/-- What both parsers build from the JSON value. -/
def normalize (inputTokens outputTokens : String) (json : Json) : ParsedCliResponse where
  text := Json.orElse (Json.text "") (json.get "result")
  success := !isError json
  error := if isError json then some (jsonOr (json.get "result") (Json.text "Agent returned an error")) else none
  sessionId := Json.orElse (Json.text "") (json.get "session_id")
  numTurns := Json.orElse zero (json.get "num_turns")
  inputTokens := Json.orElse zero (json.get inputTokens)
  outputTokens := Json.orElse zero (json.get outputTokens)

def noProperties : String := "Cannot read properties of null (reading 'result')"

/-- The shape of both parsers: `recover` is how they read JSON off the trimmed output. -/
def parseResponse (recover : String → Option Json) (empty malformed inputTokens outputTokens : String)
    (stdout stderr : String) : Except String ParsedCliResponse :=
  let trimmed := trim stdout
  if trimmed = "" then .ok (failed "" (if trim stderr = "" then empty else trim stderr))
  else match recover trimmed with
    | some .null => .error noProperties
    | some json => .ok (normalize inputTokens outputTokens json)
    | none => .ok (failed trimmed malformed)

/-- The match of `/\x7b[\s\S]*\x7d/`: from the first opening brace to the last closing one. -/
def jsonMatch (s : String) : Option String :=
  match (((s.toList.dropWhile (· != '{')).reverse.dropWhile (· != '}')).reverse) with
  | [] => none
  | cs => some (String.ofList cs)

/-- `JSON.parse`, of the output or else of the object inside it. -/
def parseOrMatch (trimmed : String) : Option Json :=
  match Json.parse trimmed with
  | some json => some json
  | none => match jsonMatch trimmed with
    | some inner => Json.parse inner
    | none => none

def parseCliResponse (stdout stderr : String) : Except String ParsedCliResponse :=
  parseResponse parseOrMatch "Empty response from agent" "Failed to parse agent response as JSON"
    "total_input_tokens" "total_output_tokens" stdout stderr

def parseSdkResponse (stdout stderr : String) : Except String ParsedCliResponse :=
  parseResponse Json.parse "Empty response from SDK runner" "Failed to parse SDK runner response as JSON"
    "input_tokens" "output_tokens" stdout stderr

inductive Kind where
  | cli
  | sdk

def toResult (p : ParsedCliResponse) : AgentResult := ⟨p.text, [], p.inputTokens, p.outputTokens, p.success, p.error⟩

/-- `parseExecResult` of either runtime: the result and the session id. -/
def parseExecResult (kind : Kind) (stdout stderr : String) : Except String (AgentResult × Json) :=
  match kind with
  | .cli => (parseCliResponse stdout stderr).map fun p => (toResult p, p.sessionId)
  | .sdk => (parseSdkResponse stdout stderr).map fun p => (toResult p, p.sessionId)

/-- The session of a resume is gone. -/
def resumeFailed (r : ExecResult) : Bool := trim r.stdout == "" && includes r.stderr "No conversation found"

/-- The output `execute` parses: the first command's, or the retry's when the resume
    failed. Starting the container and either command may throw. -/
def output (container : Except String Unit) (first retry : Except String ExecResult) : Except String ExecResult := do
  container
  let r ← first
  if resumeFailed r then retry else pure r

def execute (kind : Kind) (container : Except String Unit) (first retry : Except String ExecResult) :
    Except String AgentResult := do
  let r ← output container first retry
  let (result, _) ← parseExecResult kind r.stdout r.stderr
  pure result

/-! ## How an output is read -/

/-- The runtime's reading of JSON off a trimmed output. -/
def recover : Kind → String → Option Json
  | .cli => parseOrMatch
  | .sdk => Json.parse

theorem parseResponse_spec (recover : String → Option Json) (empty malformed i o stdout stderr : String) :
    (trim stdout = "" ∧ ∃ error, parseResponse recover empty malformed i o stdout stderr = .ok (failed "" error)) ∨
    (trim stdout ≠ "" ∧ recover (trim stdout) = none ∧
      parseResponse recover empty malformed i o stdout stderr = .ok (failed (trim stdout) malformed)) ∨
    (trim stdout ≠ "" ∧ recover (trim stdout) = some .null ∧
      parseResponse recover empty malformed i o stdout stderr = .error noProperties) ∨
    (trim stdout ≠ "" ∧ ∃ json, json ≠ .null ∧ recover (trim stdout) = some json ∧
      parseResponse recover empty malformed i o stdout stderr = .ok (normalize i o json)) := by
  unfold parseResponse
  by_cases hb : trim stdout = ""
  · exact Or.inl ⟨hb, _, if_pos hb⟩
  refine Or.inr ?_
  cases hr : recover (trim stdout) with
  | none => exact Or.inl ⟨hb, rfl, by simp [hb, hr]⟩
  | some json =>
    refine Or.inr ?_
    by_cases hn : json = .null
    · subst hn
      exact Or.inl ⟨hb, rfl, by simp [hb, hr]⟩
    · refine Or.inr ⟨hb, json, hn, rfl, ?_⟩
      cases json with
      | null => exact absurd rfl hn
      | _ => simp [hb, hr]

end FlowHelm.Agent
