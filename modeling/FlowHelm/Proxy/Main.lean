/-
  FlowHelm.Proxy.Main — main.ts: how the rules are loaded, at the start and on a SIGHUP, and the
  proxy as a whole: plain requests, CONNECTs, requests in the tunnels opened so far, and reloads.

  A handler runs to the call of https.request at once. A tunnel stays open, and what goes
  through it is handled with the rules it was opened with. Reading the file and the cipher are
  not in here: what was read is an argument, what the cipher makes of it a parameter.

  - `step_moved`: what one event makes of the process.
  - `mem_sent`: what of it goes upstream.
-/
import FlowHelm.Lib.Runs
import FlowHelm.Lib.Utf8
import FlowHelm.Proxy.Server

namespace FlowHelm.Proxy

open Js Runs

/-! ## The credentials file -/

/-- createDecipheriv('aes-256-gcm') with key, IV and tag, put to a ciphertext; `none` throws. -/
abbrev Decipher := List UInt8 → List UInt8 → List UInt8 → List UInt8 → Option (List UInt8)

def ivLength : Nat := 16

def authTagLength : Nat := 16

def decrypt (decipher : Decipher) (data key : List UInt8) : Option (List UInt8) :=
  if data.length < ivLength + authTagLength then none
  else
    let iv := data.take ivLength
    let authTag := (data.drop ivLength).take authTagLength
    let ciphertext := data.drop (ivLength + authTagLength)
    decipher key iv authTag ciphertext

/-- `Buffer.from(s, 'hex')`: it ends at the first pair that is none. -/
def fromHex : List Char → List UInt8
  | a :: b :: s => match Json.hexDigit? a, Json.hexDigit? b with
    | some high, some low => UInt8.ofNat (high * 16 + low) :: fromHex s
    | _, _ => []
  | _ => []

def CredentialRules.empty : CredentialRules := ⟨[], [], []⟩

/-- The rules in the file, as it was read; `none` where any of it throws. -/
def readCredentialRules (decipher : Decipher) (keyHex : List Char) (file : Option (List UInt8)) : Option CredentialRules := do
  let encryptedData ← file
  let decrypted ← decrypt decipher encryptedData (fromHex keyHex)
  let json ← Json.parse (String.ofList (Utf8.decode decrypted))
  parseCredentialRules json

def loadCredentialRules (decipher : Decipher) (keyHex : List Char) (file : Option (List UInt8)) : CredentialRules :=
  if keyHex = [] then .empty else (readCredentialRules decipher keyHex file).getD .empty

/-! ## The process -/

/-- The server main starts with. -/
def boot (ca : Bool) (activeCredentialMethod : Option CredentialMethod) (rules : CredentialRules) : Server where
  credentials := rules.credentials
  rateLimiter := buildRateLimiter rules.credentials
  keyRotator := some ∅
  mitmEnabled := ca
  costLog := true
  pinningBypassSet := rules.pinningBypass
  activeCredentialMethod := activeCredentialMethod

/-- The SIGHUP handler, with what was loaded. -/
def Server.sighup (s : Server) (newRules : CredentialRules) : Server :=
  s.reloadCredentials newRules.credentials (buildRateLimiter newRules.credentials) ⟨some ∅, some newRules.pinningBypass⟩

structure St where
  server : Server
  tunnels : List Tunnel
  now : Nat
  /-- What has gone upstream since the last reload, and when. -/
  sent : List (Nat × Forward)

inductive Ev where
  | request (now : Nat) (req : IncomingMessage)
  | connect (now : Nat) (target : JsString)
  | mitmRequest (now : Nat) (tunnel : Nat) (req : IncomingMessage)
  | sighup (now : Nat) (newRules : CredentialRules)

def Ev.time : Ev → Nat
  | .request now _ => now
  | .connect now _ => now
  | .mitmRequest now .. => now
  | .sighup now _ => now

def Connected.opened : Connected → List Tunnel
  | mitm tunnel => [tunnel]
  | _ => []

def Answer.sent (now : Nat) (a : Answer) : List (Nat × Forward) := (a.forward?.map (now, ·)).toList

variable (hosts : Url.HostParser)

def handle (s : St) : Ev → Option St
  | .request now req =>
    let r := s.server.handleRequest hosts now req
    some { s with server := r.1, now := now, sent := s.sent ++ r.2.sent now }
  | .connect now target =>
    let r := s.server.handleConnect now target
    some { s with server := r.1, now := now, tunnels := s.tunnels ++ r.2.opened }
  | .mitmRequest now i req => match s.tunnels[i]? with
    | some tunnel =>
      let r := s.server.handleMitmRequest tunnel req
      some { s with server := r.1, now := now, sent := s.sent ++ r.2.sent now }
    | none => none
  | .sighup now newRules => some { s with server := s.server.sighup newRules, now := now, sent := [] }

/-- Times do not decrease. -/
def step (s : St) (e : Ev) : Option St := if s.now ≤ e.time then handle hosts s e else none

def proxy (ca : Bool) (activeCredentialMethod : Option CredentialMethod) (rules : CredentialRules) : System St Ev :=
  ⟨⟨boot ca activeCredentialMethod rules, [], 0, []⟩, step hosts⟩

/-! ## One event -/

variable {hosts}

theorem mem_sent {now t : Nat} {a : Answer} {f : Forward} (h : (t, f) ∈ a.sent now) : t = now ∧ a.forward? = some f := by
  unfold Answer.sent at h
  obtain ⟨g, hg, heq⟩ := Option.map_eq_some_iff.mp (Option.mem_toList.mp h)
  obtain ⟨rfl, rfl⟩ := Prod.mk.inj heq
  exact ⟨rfl, hg⟩

/-- What one event makes of a state. -/
def Moved (hosts : Url.HostParser) (s t : St) : Ev → Prop
  | .request now req => t.server = (s.server.handleRequest hosts now req).1 ∧ t.tunnels = s.tunnels ∧
    t.sent = s.sent ++ (s.server.handleRequest hosts now req).2.sent now
  | .connect now target => t.server = (s.server.handleConnect now target).1 ∧
    t.tunnels = s.tunnels ++ (s.server.handleConnect now target).2.opened ∧ t.sent = s.sent
  | .mitmRequest now i req => ∃ tunnel, s.tunnels[i]? = some tunnel ∧ t.server = (s.server.handleMitmRequest tunnel req).1 ∧
    t.tunnels = s.tunnels ∧ t.sent = s.sent ++ (s.server.handleMitmRequest tunnel req).2.sent now
  | .sighup _ newRules => t.server = s.server.sighup newRules ∧ t.tunnels = s.tunnels ∧ t.sent = []

theorem step_moved {s t : St} {e : Ev} (h : step hosts s e = some t) : s.now ≤ e.time ∧ t.now = e.time ∧ Moved hosts s t e := by
  unfold step at h
  split at h
  · rename_i htime
    cases e with
    | request now req =>
      obtain rfl := Option.some.inj h
      exact ⟨htime, rfl, rfl, rfl, rfl⟩
    | connect now target =>
      obtain rfl := Option.some.inj h
      exact ⟨htime, rfl, rfl, rfl, rfl⟩
    | mitmRequest now i req =>
      cases htunnel : s.tunnels[i]? with
      | none =>
        simp only [handle, htunnel] at h
        cases h
      | some tunnel =>
        simp only [handle, htunnel] at h
        obtain rfl := Option.some.inj h
        exact ⟨htime, rfl, tunnel, htunnel, rfl, rfl, rfl⟩
    | sighup now newRules =>
      obtain rfl := Option.some.inj h
      exact ⟨htime, rfl, rfl, rfl, rfl⟩
  · cases h

end FlowHelm.Proxy
