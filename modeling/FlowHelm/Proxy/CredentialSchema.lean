/-
  FlowHelm.Proxy.CredentialSchema — credential-schema.ts: the credential rules, what the schema
  accepts as one, and how a rule is chosen for a host.

  A rule carries what the schema asks of it. Text is UTF-16, as JSON.parse gives it. The
  object methods and `__proto__` are what `in` finds in any object; of these two are written
  without capitals, and a lower-cased header name can be one.

  - `select_mem`: the rule chosen is one of those offered.
-/
import Mathlib.Data.List.AList
import FlowHelm.Lib.JsNumber
import FlowHelm.Lib.JsText

namespace FlowHelm.Proxy

open Js

/-! ## Rules -/

structure RateLimitRule where
  requests : Nat
  windowSeconds : Nat
  valid : 1 ≤ requests ∧ 1 ≤ windowSeconds
  deriving DecidableEq

structure RequestRules where
  methods : Option (List JsString)
  pathPrefixes : Option (List JsString)
  maxBodySize : Option Nat
  deriving DecidableEq

inductive CredentialMethod where
  | oauth
  | apiKey
  deriving DecidableEq, Repr

def isAlnum (u : UInt16) : Bool := (0x30 ≤ u && u ≤ 0x39) || (0x41 ≤ u && u ≤ 0x5A) || (0x61 ≤ u && u ≤ 0x7A)

/-- `[a-zA-Z0-9]([a-zA-Z0-9-]*[a-zA-Z0-9])?`. -/
def isLabel (s : JsString) : Bool :=
  s.head?.any isAlnum && s.getLast?.any isAlnum && s.all fun u => isAlnum u || u == 0x2D

def wildcard : JsString := ofString "*."

/-- The regular expression of `hostPattern`. -/
def isHostPattern (s : JsString) : Bool :=
  ((if wildcard.isPrefixOf s then s.drop 2 else s).splitOn 0x2E).all isLabel

structure CredentialRule where
  name : JsString
  hostPattern : JsString
  header : JsString
  value : JsString
  values : Option (List JsString)
  rateLimit : Option RateLimitRule
  rules : Option RequestRules
  expiresAt : Option Int
  credentialMethod : Option CredentialMethod
  valid : 1 ≤ name.length ∧ name.length ≤ 128 ∧ isHostPattern hostPattern = true ∧ 1 ≤ header.length ∧ header.length ≤ 256 ∧
    value ≠ [] ∧ ∀ vs ∈ values, vs ≠ [] ∧ ∀ v ∈ vs, v ≠ []
  deriving DecidableEq

/-- What the credential file holds. -/
structure CredentialRules where
  credentials : List CredentialRule
  pinningBypass : List JsString
  secrets : List (JsString × JsString)

/-! ## The schema -/

def required {α : Type} (parse : Json → Option α) (j : Option Json) : Option α := j.bind parse

def optional {α : Type} (parse : Json → Option α) : Option Json → Option (Option α)
  | some j => (parse j).map some
  | none => some none

def withDefault {α : Type} (value : α) (parse : Json → Option α) : Option Json → Option α
  | some j => parse j
  | none => some value

/-- The fields of an object, none of them for what is not one. -/
def object? : Json → Option (String → Option Json)
  | .obj fields => some (Json.get · (.obj fields))
  | _ => none

def array {α : Type} (parse : Json → Option α) : Json → Option (List α)
  | .arr xs => xs.mapM parse
  | _ => none

/-- `z.number().int()`. -/
def int : Json → Option Int
  | .num neg digits exp => integer? (Json.decimal neg digits exp)
  | _ => none

/-- `z.number().int().min(least)`. -/
def intFrom (least : Nat) (j : Json) : Option Nat := (int j).bind fun n => if (least : Int) ≤ n then some n.toNat else none

/-- `z.string().min(1)`. -/
def string1 (j : Json) : Option JsString := j.text?.bind fun s => if s = [] then none else some s

def rateLimitSchema (j : Json) : Option RateLimitRule := do
  let field ← object? j
  let requests ← required (intFrom 1) (field "requests")
  let windowSeconds ← required (intFrom 1) (field "windowSeconds")
  if valid : 1 ≤ requests ∧ 1 ≤ windowSeconds then some ⟨requests, windowSeconds, valid⟩ else none

def requestRulesSchema (j : Json) : Option RequestRules := do
  let field ← object? j
  let methods ← optional (array string1) (field "methods")
  let pathPrefixes ← optional (array string1) (field "pathPrefixes")
  let maxBodySize ← optional (intFrom 0) (field "maxBodySize")
  some ⟨methods, pathPrefixes, maxBodySize⟩

def credentialMethodSchema (j : Json) : Option CredentialMethod := j.text?.bind fun s =>
  if s = ofString "oauth" then some .oauth else if s = ofString "api_key" then some .apiKey else none

def credentialRuleSchema (j : Json) : Option CredentialRule := do
  let field ← object? j
  let name ← required Json.text? (field "name")
  let hostPattern ← required Json.text? (field "hostPattern")
  let header ← required Json.text? (field "header")
  let value ← required Json.text? (field "value")
  let values ← optional (array Json.text?) (field "values")
  let rateLimit ← optional rateLimitSchema (field "rateLimit")
  let rules ← optional requestRulesSchema (field "rules")
  let expiresAt ← optional int (field "expiresAt")
  let credentialMethod ← optional credentialMethodSchema (field "credentialMethod")
  -- the lengths, and the regular expression
  if valid : 1 ≤ name.length ∧ name.length ≤ 128 ∧ isHostPattern hostPattern = true ∧ 1 ≤ header.length ∧ header.length ≤ 256 ∧
      value ≠ [] ∧ ∀ vs ∈ values, vs ≠ [] ∧ ∀ v ∈ vs, v ≠ [] then
    some ⟨name, hostPattern, header, value, values, rateLimit, rules, expiresAt, credentialMethod, valid⟩
  else none

/-- `object[key] = value`. Entries are in the order they came in; that JavaScript lists integer
    keys first nothing here can tell. -/
def assign {α : Type} (key : JsString) (value : α) : List (JsString × α) → List (JsString × α)
  | [] => [(key, value)]
  | f :: fields => if f.1 = key then (key, value) :: fields else f :: assign key value fields

def protoKey : JsString := ofString "__proto__"

/-- The object with these fields; a key that comes again has its last value. -/
def assignAll {α : Type} (fields : List (JsString × α)) : List (JsString × α) := fields.foldl (fun o f => assign f.1 f.2 o) []

/-- `z.record(z.string(), z.string())`: an own `__proto__` is checked and left out. -/
def record : Json → Option (List (JsString × JsString))
  | .obj fields => ((assignAll fields).mapM fun (f : JsString × Json) => f.2.text?.map (f.1, ·)).map (·.filter (·.1 ≠ protoKey))
  | _ => none

/-- `none` is a ZodError. -/
def parseCredentialRules (j : Json) : Option CredentialRules := do
  let field ← object? j
  let credentials ← withDefault [] (array credentialRuleSchema) (field "credentials")
  let pinningBypass ← withDefault [] (array string1) (field "pinningBypass")
  let secrets ← withDefault [] record (field "secrets")
  some ⟨credentials, pinningBypass, secrets⟩

/-! ## Hosts -/

def matchesHostPattern (hostname pattern : JsString) : Bool :=
  if wildcard.isPrefixOf pattern then
    let suffix := pattern.drop 1
    suffix.isSuffixOf hostname && suffix.length < hostname.length
  else hostname == pattern

def CredentialRule.matches (c : CredentialRule) (hostname : JsString) : Bool := matchesHostPattern hostname c.hostPattern

def findCredentialForHost (hostname : JsString) (rules : List CredentialRule) : Option CredentialRule :=
  rules.find? (·.matches hostname)

def findAllCredentialsForHost (hostname : JsString) (rules : List CredentialRule) : List CredentialRule :=
  rules.filter (·.matches hostname)

/-- Untagged, or of the active method. -/
def CredentialRule.usable (c : CredentialRule) (activeMethod : CredentialMethod) : Bool :=
  c.credentialMethod == none || c.credentialMethod == some activeMethod

def filterByCredentialMethod (credentials : List CredentialRule) : Option CredentialMethod → List CredentialRule
  | none => credentials
  | some activeMethod => credentials.filter (·.usable activeMethod)

/-! ## Headers -/

inductive HeaderValue where
  | one (text : JsString)
  | many (texts : List JsString)
  deriving DecidableEq, Repr

/-- An object of headers. -/
abbrev Headers := AList fun _ : JsString => HeaderValue

/-- `s.toLowerCase()`, as far as header names go: no other letter becomes one of ASCII. -/
def toLowerCase (s : JsString) : JsString :=
  s.map fun u => if 0x41 ≤ u ∧ u ≤ 0x5A then u + 0x20 else if u = 0x212A then 0x6B else u

/-- `key in headers`, for a key without capitals. -/
def inHeaders (key : JsString) (headers : Headers) : Bool :=
  decide (key ∈ headers) || key == ofString "constructor" || key == ofString "__proto__"

def selectCredentialByHeaders (credentials : List CredentialRule) (requestHeaders : Headers) : Option CredentialRule :=
  match credentials with
  | [] => none
  | [c] => some c
  | c :: more => ((c :: more).find? fun cred => inHeaders (toLowerCase cred.header) requestHeaders).or (some c)

theorem select_mem {credentials : List CredentialRule} {headers : Headers} {c : CredentialRule}
    (h : selectCredentialByHeaders credentials headers = some c) : c ∈ credentials := by
  unfold selectCredentialByHeaders at h
  split at h
  · cases h
  · obtain rfl := Option.some.inj h
    exact List.mem_singleton_self _
  · rcases Option.or_eq_some_iff.mp h with hfound | ⟨-, hfirst⟩
    · exact List.mem_of_find?_eq_some hfound
    · obtain rfl := Option.some.inj hfirst
      exact List.mem_cons_self ..

theorem mem_filterByCredentialMethod {credentials : List CredentialRule} {activeMethod : CredentialMethod} {c : CredentialRule}
    (h : c ∈ filterByCredentialMethod credentials (some activeMethod)) : c.usable activeMethod = true :=
  (List.mem_filter.mp h).2

end FlowHelm.Proxy
