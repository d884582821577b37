/-
  FlowHelm.Proxy.Server — proxy-server.ts and mitm-handler.ts: what the proxy does with a plain
  request, a CONNECT, a request in a tunnel it has opened itself, and a reload.

  The MITM handler holds the server's limiter and rotator, which are refreshed together. A
  tunnel holds the rules chosen when it was opened. What goes upstream is what https.request
  is called with; it throws on a header name that is no token and on a value with other than
  printable Latin-1. Logs, metrics and the answer of the upstream are not followed.

  - `handleRequest_forwarded` / `handleMitmRequest_forwarded`: when a request goes upstream, and
    as what.
  - `handleConnect_tunnel`: which rules a tunnel holds.
-/
import Mathlib.Data.List.Infix
import FlowHelm.Lib.Url
import FlowHelm.Proxy.RateLimiter

namespace FlowHelm.Proxy

open Js

/-! ## Requests -/

def contentLengthKey : JsString := ofString "content-length"

/-- The number a string of digits spells. -/
def digitsValue (s : JsString) : Nat := s.foldl (fun n u => n * 10 + (u.toNat - 0x30)) 0

/-- How the HTTP parser takes a body: as long as is declared, at most, or in chunks, or none. -/
def Framed (headers : Headers) (body : List UInt8) : Prop := match AList.lookup contentLengthKey headers with
  | some (.one digits) => digits ≠ [] ∧ digits.all Url.isDigit = true ∧ digitsValue digits < 2 ^ 64 ∧
    body.length ≤ digitsValue digits
  | some (.many _) => False
  | none => ofString "transfer-encoding" ∈ headers ∨ body = []

structure IncomingMessage where
  method : JsString
  url : JsString
  headers : Headers
  body : List UInt8
  /-- The parser lets no blank or control character through. -/
  plain : ∀ u ∈ url, 0x20 < u ∧ u ≤ 0xFF
  framed : Framed headers body

/-- `Number(req.headers['content-length'] ?? 0)`. -/
def IncomingMessage.contentLength (req : IncomingMessage) : Rat := match AList.lookup contentLengthKey req.headers with
  | some (.one digits) => toDouble (digitsValue digits)
  | _ => 0

/-- What https.request is called with. -/
structure Forward where
  hostname : JsString
  /-- `none` is 443, which a number that is none becomes too. -/
  port : Option JsString
  path : JsString
  method : JsString
  headers : Headers
  body : List UInt8
  /-- The rule whose value was put into a header, and the value. -/
  injected : Option (CredentialRule × JsString)

inductive Answer where
  | healthz
  | metrics
  | invalidUrl
  | rateLimited (credentialName : JsString) (retryAfterMs : Nat)
  | methodForbidden (method credentialName : JsString)
  | pathForbidden (path credentialName : JsString)
  | tooLarge (contentLength : Rat) (maxBodySize : Nat)
  /-- In a tunnel, without a text. -/
  | violation (status : Nat)
  | noCredential
  | internalError
  /-- The handler's promise is rejected. -/
  | rejected
  | forwarded (f : Forward)

def Answer.status : Answer → Option Nat
  | healthz | metrics => some 200
  | invalidUrl => some 400
  | rateLimited .. => some 429
  | methodForbidden .. | pathForbidden .. => some 403
  | tooLarge .. => some 413
  | violation status => some status
  | noCredential => some 502
  | internalError => some 500
  | rejected | forwarded _ => none

def Answer.forward? : Answer → Option Forward
  | forwarded f => some f
  | _ => none

theorem forward?_eq_some {a : Answer} {f : Forward} : a.forward? = some f ↔ a = .forwarded f := by
  cases a with
  | forwarded g => exact ⟨fun h => congrArg _ (Option.some.inj h), fun h => congrArg _ (Answer.forwarded.inj h)⟩
  | _ =>
    constructor
    · intro h
      cases h
    · intro h
      cases h

/-! ## Header values -/

def tokenUnits : JsString := ofString "!#$%&'*+-.^_`|~"

def isToken (s : JsString) : Bool := s != [] && s.all fun u => isAlnum u || tokenUnits.contains u

def isFieldText (s : JsString) : Bool := s.all fun u => u == 0x09 || (0x20 ≤ u && u ≤ 0x7E) || (0x80 ≤ u && u ≤ 0xFF)

def HeaderValue.sendable : HeaderValue → Bool
  | one text => isFieldText text
  | many texts => texts.all isFieldText

/-- https.request takes the headers. -/
def sendable (headers : Headers) : Bool := headers.entries.all fun h => isToken h.1 && h.2.sendable

/-- A copy without some. -/
def copyHeaders (skip : List JsString) (headers : Headers) : Headers := skip.foldl (fun h key => h.erase key) headers

/-- The rule's header, and no other one that authorises; the setter of `__proto__` takes no string. -/
def inject (headers : Headers) (credential : CredentialRule) (credValue : JsString) : Headers :=
  let key := toLowerCase credential.header
  let headers := if key = ofString "__proto__" then headers else headers.insert key (.one credValue)
  if key = ofString "authorization" then headers.erase (ofString "x-api-key")
  else if key = ofString "x-api-key" then headers.erase (ofString "authorization")
  else headers

def injected (credential : CredentialRule) (credValue : JsString) : Option (CredentialRule × JsString) :=
  if toLowerCase credential.header = ofString "__proto__" then none else some (credential, credValue)

/-! ## The server -/

structure Server where
  credentials : List CredentialRule
  rateLimiter : RateLimiter
  keyRotator : Option KeyRotator
  /-- There is a CA, and with it the MITM handler. -/
  mitmEnabled : Bool
  costLog : Bool
  pinningBypassSet : List JsString
  activeCredentialMethod : Option CredentialMethod

/-- The limit of a rule that has one is charged; the answer when it is exhausted. -/
def Server.charge (s : Server) (credential : Option CredentialRule) (now : Nat) : Server × Option Answer :=
  match credential with
  | none => (s, none)
  | some c =>
    if c.rateLimit.isSome then
      let (l, result) := s.rateLimiter.consume c.name now
      ({ s with rateLimiter := l }, if result.allowed then none else some (.rateLimited c.name result.retryAfterMs))
    else (s, none)

/-- `this.keyRotator ? this.keyRotator.getNextValue(credential) : credential.value`. -/
def Server.nextValue (s : Server) (credential : CredentialRule) : Server × JsString := match s.keyRotator with
  | some k => ({ s with keyRotator := some (k.getNextValue credential).1 }, (k.getNextValue credential).2)
  | none => (s, credential.value)

/-! ## Plain requests -/

/-- The request-level rules of handleRequest. -/
def requestRules (credential : CredentialRule) (req : IncomingMessage) (reqPath : JsString) : Option Answer :=
  match credential.rules with
  | none => none
  | some rules =>
    if rules.methods.any fun methods => methods.length > 0 && !methods.contains req.method then
      some (.methodForbidden req.method credential.name)
    else if rules.pathPrefixes.any fun pathPrefixes => pathPrefixes.length > 0 && !pathPrefixes.any (·.isPrefixOf reqPath) then
      some (.pathForbidden reqPath credential.name)
    else match rules.maxBodySize with
      | some maxBodySize =>
        if (maxBodySize : Rat) < req.contentLength then some (.tooLarge req.contentLength maxBodySize) else none
      | none => none

def plainSkipped : List JsString := ["host", "proxy-authorization", "proxy-connection"].map ofString

/-- The headers of the request upstream, and what was put into them. -/
def Server.plainHeaders (s : Server) (credential : Option CredentialRule) (req : IncomingMessage) :
    Server × Headers × Option (CredentialRule × JsString) :=
  let headers := copyHeaders plainSkipped req.headers
  match credential with
  | none => (s, headers, none)
  | some c =>
    let (s, credValue) := s.nextValue c
    (s, inject headers c credValue, injected c credValue)

def Server.handleRequest (hosts : Url.HostParser) (s : Server) (now : Nat) (req : IncomingMessage) : Server × Answer :=
  if req.url = ofString "/healthz" ∧ req.method = ofString "GET" then (s, .healthz)
  else if req.url = ofString "/metrics" ∧ req.method = ofString "GET" then (s, .metrics)
  else match Url.parse hosts req.url with
    | none => (s, .invalidUrl)
    | some targetUrl =>
      let credential := findCredentialForHost targetUrl.hostname s.credentials
      match s.charge credential now with
      | (s, some answer) => (s, answer)
      | (s, none) => match credential.bind (requestRules · req targetUrl.pathname) with
        | some answer => (s, answer)
        | none =>
          let (s, headers, injected) := s.plainHeaders credential req
          (s, if sendable headers then
              .forwarded ⟨targetUrl.hostname, none, targetUrl.pathname ++ targetUrl.search, req.method, headers,
                req.body, injected⟩
            else .internalError)

/-! ## Tunnels -/

/-- What the virtual server of a tunnel holds. -/
structure Tunnel where
  hostname : JsString
  port : Option JsString
  credentials : List CredentialRule
  deriving DecidableEq

inductive Connected where
  | badRequest
  | tooManyRequests
  | mitm (tunnel : Tunnel)
  | passthrough (hostname : JsString) (port : Option JsString)
  deriving DecidableEq

def Server.handleConnect (s : Server) (now : Nat) (target : JsString) : Server × Connected :=
  let pieces := target.splitOn Url.colon
  let hostname := pieces.headD []
  let port := pieces[1]?
  if hostname = [] then (s, .badRequest)
  else
    let allCredentials := filterByCredentialMethod (findAllCredentialsForHost hostname s.credentials) s.activeCredentialMethod
    -- on either path the first rule is charged
    match s.charge allCredentials.head? now with
    | (s, some _) => (s, .tooManyRequests)
    | (s, none) =>
      if allCredentials ≠ [] ∧ s.mitmEnabled = true ∧ hostname ∉ s.pinningBypassSet then
        (s, .mitm ⟨hostname, port, allCredentials⟩)
      else (s, .passthrough hostname port)

def enforceRules (credential : CredentialRule) (method path : JsString) (contentLength : Rat) : Option Nat :=
  match credential.rules with
  | none => none
  | some rules =>
    if rules.methods.any fun methods => methods.length > 0 && !methods.contains method then some 403
    else if rules.pathPrefixes.any fun pathPrefixes => pathPrefixes.length > 0 && !pathPrefixes.any
      (·.isPrefixOf path) then some 403
    else if rules.maxBodySize.any fun maxBodySize : Nat => (maxBodySize : Rat) < contentLength then some 413
    else none

def hopByHopHeaders : List JsString :=
  ["host", "connection", "keep-alive", "proxy-authorization", "proxy-connection", "te", "trailer", "transfer-encoding",
    "upgrade"].map ofString

/-- `hostPattern.includes('anthropic')`. -/
def CredentialRule.isAnthropic (c : CredentialRule) : Bool := decide (ofString "anthropic" <:+: c.hostPattern)

/-- The headers of the request upstream; with costs to track they ask for plain text. -/
def Server.mitmHeaders (s : Server) (credential : CredentialRule) (credValue : JsString) (req : IncomingMessage) : Headers :=
  let headers := inject (copyHeaders hopByHopHeaders req.headers) credential credValue
  if s.costLog && credential.isAnthropic then headers.erase (ofString "accept-encoding") else headers

def Server.handleMitmRequest (s : Server) (tunnel : Tunnel) (req : IncomingMessage) : Server × Answer :=
  match selectCredentialByHeaders tunnel.credentials req.headers with
  | none => (s, .noCredential)
  | some credential => match enforceRules credential req.method req.url req.contentLength with
    | some status => (s, .violation status)
    | none =>
      let (s, credValue) := s.nextValue credential
      let headers := s.mitmHeaders credential credValue req
      (s, if sendable headers then
          .forwarded ⟨tunnel.hostname, tunnel.port, req.url, req.method, headers, req.body, injected credential credValue⟩
        else .rejected)

/-! ## Reload -/

structure ReloadOptions where
  keyRotator : Option KeyRotator
  pinningBypass : Option (List JsString)

def Server.reloadCredentials (s : Server) (credentials : List CredentialRule) (rateLimiter : RateLimiter)
    (options : ReloadOptions) :
    Server :=
  { s with
    credentials := credentials
    rateLimiter := rateLimiter
    keyRotator := options.keyRotator.or s.keyRotator
    pinningBypassSet := options.pinningBypass.getD s.pinningBypassSet }

/-! ## What a step of a handler leaves alone -/

/-- The same up to what is counted. -/
structure Server.Same (s t : Server) : Prop where
  credentials : t.credentials = s.credentials
  activeCredentialMethod : t.activeCredentialMethod = s.activeCredentialMethod
  mitmEnabled : t.mitmEnabled = s.mitmEnabled
  pinningBypassSet : t.pinningBypassSet = s.pinningBypassSet
  rotates : t.keyRotator.isSome = s.keyRotator.isSome

theorem Server.Same.refl (s : Server) : s.Same s := ⟨rfl, rfl, rfl, rfl, rfl⟩

theorem Server.Same.trans {s t u : Server} (h : s.Same t) (h' : t.Same u) : s.Same u :=
  ⟨h'.credentials.trans h.credentials, h'.activeCredentialMethod.trans h.activeCredentialMethod,
    h'.mitmEnabled.trans h.mitmEnabled, h'.pinningBypassSet.trans h.pinningBypassSet, h'.rotates.trans h.rotates⟩

theorem charge_same (s : Server) (credential : Option CredentialRule) (now : Nat) : s.Same (s.charge credential now).1 := by
  unfold Server.charge
  split
  · exact .refl s
  · split
    · exact ⟨rfl, rfl, rfl, rfl, rfl⟩
    · exact .refl s

theorem nextValue_same (s : Server) (credential : CredentialRule) : s.Same (s.nextValue credential).1 := by
  unfold Server.nextValue
  split
  · rename_i k hk
    exact ⟨rfl, rfl, rfl, rfl, by rw [hk]; rfl⟩
  · exact .refl s

theorem nextValue_limiter (s : Server) (credential : CredentialRule) :
    (s.nextValue credential).1.rateLimiter = s.rateLimiter := by
  unfold Server.nextValue
  split <;> rfl

theorem plainHeaders_same (s : Server) (credential : Option CredentialRule) (req : IncomingMessage) :
    s.Same (s.plainHeaders credential req).1 := by
  unfold Server.plainHeaders
  split
  · exact .refl s
  · exact nextValue_same s _

theorem plainHeaders_limiter (s : Server) (credential : Option CredentialRule) (req : IncomingMessage) :
    (s.plainHeaders credential req).1.rateLimiter = s.rateLimiter := by
  unfold Server.plainHeaders
  split
  · rfl
  · exact nextValue_limiter s _

/-! ## The handlers, case by case -/

/-- The rule a plain request is served with. -/
def Server.plainCredential (s : Server) (u : Url.Parsed) : Option CredentialRule := findCredentialForHost u.hostname s.credentials

theorem parse_internal (hosts : Url.HostParser) {req : IncomingMessage} {u : Url.Parsed} (h : Url.parse hosts req.url = some u) :
    ¬(req.url = ofString "/healthz" ∧ req.method = ofString "GET") ∧
      ¬(req.url = ofString "/metrics" ∧ req.method = ofString "GET") := by
  constructor
  · rintro ⟨hurl, -⟩
    rw [hurl] at h
    cases h
  · rintro ⟨hurl, -⟩
    rw [hurl] at h
    cases h

theorem handleRequest_unparsed {hosts : Url.HostParser} {req : IncomingMessage} (hu : Url.parse hosts req.url = none) (s : Server)
    (now : Nat) : (s.handleRequest hosts now req).1 = s ∧ ∀ f, (s.handleRequest hosts now req).2 ≠ .forwarded f := by
  unfold Server.handleRequest
  split
  · exact ⟨rfl, fun f h => by cases h⟩
  split
  · exact ⟨rfl, fun f h => by cases h⟩
  rw [hu]
  exact ⟨rfl, fun f h => by cases h⟩

/-- A plain request is charged, judged, and forwarded. -/
theorem handleRequest_eq {hosts : Url.HostParser} {req : IncomingMessage} {u : Url.Parsed} (hu : Url.parse hosts req.url = some u)
    (s : Server) (now : Nat) : s.handleRequest hosts now req =
      match (s.charge (s.plainCredential u) now).2.or ((s.plainCredential u).bind (requestRules · req u.pathname)) with
      | some answer => ((s.charge (s.plainCredential u) now).1, answer)
      | none =>
        let r := (s.charge (s.plainCredential u) now).1.plainHeaders (s.plainCredential u) req
        (r.1, if sendable r.2.1 then
            .forwarded ⟨u.hostname, none, u.pathname ++ u.search, req.method, r.2.1, req.body, r.2.2⟩
          else .internalError) := by
  obtain ⟨hhealth, hmetrics⟩ := parse_internal hosts hu
  unfold Server.handleRequest
  rw [if_neg hhealth, if_neg hmetrics, hu]
  dsimp only
  show (match s.charge (s.plainCredential u) now with | (_, some _) => _ | (_, none) => _) = _
  obtain ⟨t, answer⟩ := s.charge (s.plainCredential u) now
  cases answer with
  | some answer => rfl
  | none =>
    rw [Option.none_or]
    show (match (s.plainCredential u).bind (requestRules · req u.pathname) with | some _ => _ | none => _) = _
    cases (s.plainCredential u).bind (requestRules · req u.pathname) with
    | some answer => rfl
    | none => rfl

/-- The host a CONNECT names. -/
def connectHost (target : JsString) : JsString := (target.splitOn Url.colon).headD []

/-- The rules a CONNECT is handled with. -/
def Server.allCredentials (s : Server) (hostname : JsString) : List CredentialRule :=
  filterByCredentialMethod (findAllCredentialsForHost hostname s.credentials) s.activeCredentialMethod

/-- A CONNECT to a host is charged, and makes a tunnel of one kind or the other. -/
theorem handleConnect_eq (s : Server) (now : Nat) (target : JsString) : s.handleConnect now target =
    if connectHost target = [] then (s, .badRequest)
    else match s.charge (s.allCredentials (connectHost target)).head? now with
      | (t, some _) => (t, .tooManyRequests)
      | (t, none) => (t,
        if s.allCredentials (connectHost target) ≠ [] ∧ s.mitmEnabled = true ∧ connectHost target ∉ s.pinningBypassSet then
          .mitm ⟨connectHost target, (target.splitOn Url.colon)[1]?, s.allCredentials (connectHost target)⟩
        else .passthrough (connectHost target) (target.splitOn Url.colon)[1]?) := by
  unfold Server.handleConnect
  dsimp only
  show (if connectHost target = [] then _ else
    match s.charge (s.allCredentials (connectHost target)).head? now with | (_, some _) => _ | (_, none) => _) = _
  have hsame := charge_same s (s.allCredentials (connectHost target)).head? now
  cases hcharge : s.charge (s.allCredentials (connectHost target)).head? now with
  | mk t answer =>
    rw [hcharge] at hsame
    cases answer with
    | some answer => rfl
    | none =>
      dsimp only at hsame ⊢
      rw [← hsame.mitmEnabled, ← hsame.pinningBypassSet, apply_ite (Prod.mk t)]
      rfl

/-! ## What a handler leaves alone -/

theorem handleRequest_same (hosts : Url.HostParser) (s : Server) (now : Nat) (req : IncomingMessage) :
    s.Same (s.handleRequest hosts now req).1 := by
  cases hu : Url.parse hosts req.url with
  | none =>
    rw [(handleRequest_unparsed hu s now).1]
    exact .refl s
  | some u =>
    rw [handleRequest_eq hu]
    split
    · exact charge_same ..
    · exact (charge_same ..).trans (plainHeaders_same ..)

theorem handleConnect_same (s : Server) (now : Nat) (target : JsString) : s.Same (s.handleConnect now target).1 := by
  rw [handleConnect_eq]
  split
  · exact .refl s
  · have hcharge := charge_same s (s.allCredentials (connectHost target)).head? now
    split
    · rename_i heq
      rw [heq] at hcharge
      exact hcharge
    · rename_i heq
      rw [heq] at hcharge
      exact hcharge

theorem handleMitmRequest_same (s : Server) (tunnel : Tunnel) (req : IncomingMessage) :
    s.Same (s.handleMitmRequest tunnel req).1 := by
  unfold Server.handleMitmRequest
  split
  · exact .refl s
  · split
    · exact .refl s
    · exact nextValue_same s _

theorem handleMitmRequest_limiter (s : Server) (tunnel : Tunnel) (req : IncomingMessage) :
    (s.handleMitmRequest tunnel req).1.rateLimiter = s.rateLimiter := by
  unfold Server.handleMitmRequest
  split
  · rfl
  · split
    · rfl
    · exact nextValue_limiter s _

/-- A charge is one `consume`, or none. -/
theorem charge_cases (s : Server) (credential : Option CredentialRule) (now : Nat) :
    (s.charge credential now).1.rateLimiter = s.rateLimiter ∨
      ∃ name, (s.charge credential now).1.rateLimiter = (s.rateLimiter.consume name now).1 := by
  unfold Server.charge
  split
  · exact .inl rfl
  · rename_i c
    split
    · exact .inr ⟨c.name, rfl⟩
    · exact .inl rfl

theorem charge_limited {s : Server} {c : CredentialRule} (h : c.rateLimit.isSome = true) {now : Nat}
    (hcharge : (s.charge (some c) now).2 = none) :
    (s.charge (some c) now).1.rateLimiter = (s.rateLimiter.consume c.name now).1 ∧
      (s.rateLimiter.consume c.name now).2.allowed = true := by
  unfold Server.charge at hcharge ⊢
  dsimp only at hcharge ⊢
  rw [if_pos h] at hcharge ⊢
  refine ⟨rfl, ?_⟩
  by_contra hrefused
  dsimp only at hcharge
  rw [if_neg hrefused] at hcharge
  cases hcharge

/-- A plain request is charged to the rule for its host. -/
theorem handleRequest_limiter {hosts : Url.HostParser} {req : IncomingMessage} {u : Url.Parsed}
    (hu : Url.parse hosts req.url = some u) (s : Server) (now : Nat) :
    (s.handleRequest hosts now req).1.rateLimiter = (s.charge (s.plainCredential u) now).1.rateLimiter := by
  rw [handleRequest_eq hu]
  split
  · rfl
  · exact plainHeaders_limiter ..

theorem handleConnect_limiter (s : Server) (now : Nat) (target : JsString) :
    ∃ credential, (s.handleConnect now target).1.rateLimiter = (s.charge credential now).1.rateLimiter := by
  rw [handleConnect_eq]
  split
  · exact ⟨none, rfl⟩
  · refine ⟨(s.allCredentials (connectHost target)).head?, ?_⟩
    split
    · rename_i heq
      rw [heq]
    · rename_i heq
      rw [heq]

/-! ## What goes upstream -/

/-- The values a rule can be given. -/
def Server.valuesOf (s : Server) (c : CredentialRule) : List JsString := if s.keyRotator.isSome then c.rotated else [c.value]

theorem nextValue_mem (s : Server) (c : CredentialRule) : (s.nextValue c).2 ∈ s.valuesOf c := by
  unfold Server.nextValue Server.valuesOf
  cases s.keyRotator with
  | none => exact List.mem_singleton_self _
  | some k => exact getNextValue_mem k c

theorem valuesOf_same {s t : Server} (h : s.Same t) (c : CredentialRule) : t.valuesOf c = s.valuesOf c := by
  unfold Server.valuesOf
  rw [h.rotates]

theorem injected_some {c c' : CredentialRule} {value value' : JsString} (h : injected c value = some (c', value')) :
    c' = c ∧ value' = value := by
  unfold injected at h
  split at h
  · cases h
  · obtain ⟨rfl, rfl⟩ := Prod.mk.inj (Option.some.inj h)
    exact ⟨rfl, rfl⟩

theorem charge_answer (s : Server) (credential : Option CredentialRule) (now : Nat) (f : Forward) :
    (s.charge credential now).2 ≠ some (.forwarded f) := by
  unfold Server.charge
  intro h
  split at h
  · cases h
  split at h
  · dsimp only at h
    split at h
    · cases h
    · cases h
  · cases h

theorem requestRules_answer {credential : CredentialRule} {req : IncomingMessage} {reqPath : JsString} {f : Forward} :
    requestRules credential req reqPath ≠ some (.forwarded f) := by
  unfold requestRules
  intro h
  split at h
  · cases h
  split at h
  · cases h
  split at h
  · cases h
  split at h
  · split at h
    · cases h
    · cases h
  · cases h

theorem handleRequest_forwarded {hosts : Url.HostParser} {s : Server} {now : Nat} {req : IncomingMessage} {f : Forward} :
    (s.handleRequest hosts now req).2 = .forwarded f ↔
      ∃ u, Url.parse hosts req.url = some u ∧ (s.charge (s.plainCredential u) now).2 = none ∧
        (s.plainCredential u).bind (requestRules · req u.pathname) = none ∧
        ∃ r, (s.charge (s.plainCredential u) now).1.plainHeaders (s.plainCredential u) req = r ∧ sendable r.2.1 = true ∧
          f = ⟨u.hostname, none, u.pathname ++ u.search, req.method, r.2.1, req.body, r.2.2⟩ := by
  constructor
  · intro h
    cases hu : Url.parse hosts req.url with
    | none => exact absurd h ((handleRequest_unparsed hu s now).2 f)
    | some u =>
      refine ⟨u, rfl, ?_⟩
      rw [handleRequest_eq hu] at h
      split at h
      · rename_i answer hanswer
        obtain rfl : answer = .forwarded f := h
        rcases Option.or_eq_some_iff.mp hanswer with hcharge | ⟨-, hrules⟩
        · exact absurd hcharge (charge_answer _ _ now f)
        · obtain ⟨c, -, hc⟩ := Option.bind_eq_some_iff.mp hrules
          exact absurd hc requestRules_answer
      · rename_i hpassed
        obtain ⟨hcharge, hrules⟩ := Option.or_eq_none_iff.mp hpassed
        refine ⟨hcharge, hrules, _, rfl, ?_⟩
        dsimp only at h
        split at h
        · rename_i hsend
          exact ⟨hsend, (Answer.forwarded.inj h).symm⟩
        · cases h
  · rintro ⟨u, hu, hcharge, hrules, r, rfl, hsend, rfl⟩
    rw [handleRequest_eq hu, hcharge, hrules]
    dsimp only [Option.or_none]
    rw [if_pos hsend]
    rfl

theorem handleMitmRequest_forwarded {s : Server} {tunnel : Tunnel} {req : IncomingMessage} {f : Forward} :
    (s.handleMitmRequest tunnel req).2 = .forwarded f ↔
      ∃ c, selectCredentialByHeaders tunnel.credentials req.headers = some c ∧
        enforceRules c req.method req.url req.contentLength = none ∧
        ∃ r, s.nextValue c = r ∧ sendable (r.1.mitmHeaders c r.2 req) = true ∧
          f = ⟨tunnel.hostname, tunnel.port, req.url, req.method, r.1.mitmHeaders c r.2 req, req.body, injected c r.2⟩ := by
  unfold Server.handleMitmRequest
  constructor
  · intro h
    split at h
    · cases h
    · rename_i c hc
      split at h
      · cases h
      · rename_i hrules
        dsimp only at h
        split at h
        · rename_i hsend
          exact ⟨c, hc, hrules, _, rfl, hsend, (Answer.forwarded.inj h).symm⟩
        · cases h
  · rintro ⟨c, hc, hrules, r, rfl, hsend, rfl⟩
    rw [hc]
    dsimp only
    rw [hrules]
    dsimp only
    rw [if_pos hsend]

theorem handleConnect_tunnel {s : Server} {now : Nat} {target : JsString} {tunnel : Tunnel}
    (h : (s.handleConnect now target).2 = .mitm tunnel) :
    tunnel.credentials = s.allCredentials tunnel.hostname ∧ tunnel.credentials ≠ [] := by
  rw [handleConnect_eq] at h
  split at h
  · cases h
  split at h
  · cases h
  · dsimp only at h
    split at h
    · rename_i hmitm
      obtain rfl := Connected.mitm.inj h
      exact ⟨rfl, hmitm.1⟩
    · cases h

/-! ## The request rules -/

def RequestRules.allowsMethod (rules : RequestRules) (method : JsString) : Bool :=
  !(rules.methods.any fun methods => methods.length > 0 && !methods.contains method)

def RequestRules.allowsPath (rules : RequestRules) (path : JsString) : Bool :=
  !(rules.pathPrefixes.any fun pathPrefixes => pathPrefixes.length > 0 && !pathPrefixes.any (·.isPrefixOf path))

def RequestRules.allowsSize (rules : RequestRules) (contentLength : Rat) : Bool :=
  !(rules.maxBodySize.any fun maxBodySize : Nat => (maxBodySize : Rat) < contentLength)

theorem enforceRules_eq (c : CredentialRule) (method path : JsString) (contentLength : Rat) :
    enforceRules c method path contentLength = c.rules.bind fun rules =>
      if rules.allowsMethod method = true ∧ rules.allowsPath path = true then
        if rules.allowsSize contentLength = true then none else some 413
      else some 403 := by
  unfold enforceRules RequestRules.allowsMethod RequestRules.allowsPath RequestRules.allowsSize
  cases c.rules with
  | none => rfl
  | some rules =>
    dsimp only [Option.bind_some]
    generalize (rules.methods.any fun methods => methods.length > 0 && !methods.contains method) = badMethod
    generalize (rules.pathPrefixes.any fun pathPrefixes => pathPrefixes.length > 0 &&
      !pathPrefixes.any (·.isPrefixOf path)) = badPath
    generalize (rules.maxBodySize.any fun maxBodySize : Nat => (maxBodySize : Rat) < contentLength) = tooLarge
    cases badMethod <;> cases badPath <;> cases tooLarge <;> rfl

/-- On one path the two checks come to the same. -/
theorem requestRules_status (c : CredentialRule) (req : IncomingMessage) (path : JsString) :
    (requestRules c req path).map Answer.status = (enforceRules c req.method path req.contentLength).map some := by
  unfold requestRules enforceRules
  cases c.rules with
  | none => rfl
  | some rules =>
    dsimp only
    split
    · rfl
    split
    · rfl
    cases rules.maxBodySize with
    | none => rfl
    | some maxBodySize =>
      by_cases hsize : (maxBodySize : Rat) < req.contentLength
      · simp [hsize, Answer.status]
      · simp [hsize]

theorem requestRules_eq_none {c : CredentialRule} {req : IncomingMessage} {path : JsString} :
    requestRules c req path = none ↔ enforceRules c req.method path req.contentLength = none := by
  have hstatus := requestRules_status c req path
  constructor
  · intro h
    rw [h] at hstatus
    exact Option.map_eq_none_iff.mp hstatus.symm
  · intro h
    rw [h] at hstatus
    exact Option.map_eq_none_iff.mp hstatus

theorem allowed_size {c : CredentialRule} {method path : JsString} {contentLength : Rat} {rules : RequestRules}
    {maxBodySize : Nat}
    (h : enforceRules c method path contentLength = none) (hrules : c.rules = some rules)
    (hsize : rules.maxBodySize = some maxBodySize) : contentLength ≤ maxBodySize := by
  rw [enforceRules_eq, hrules, Option.bind_some] at h
  split at h
  · split at h
    · rename_i hallowed
      rw [RequestRules.allowsSize, hsize] at hallowed
      simpa using hallowed
    · cases h
  · cases h

end FlowHelm.Proxy
