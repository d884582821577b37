/-
  FlowHelm.Proxy.BodySize — `maxBodySize` and the bytes that go upstream.

  Both paths compare the declared length, read as a double, and pipe the body. A body in
  chunks declares none.

  - `body_within_size`: a forwarded body keeps to the size just if its length is declared,
    below 2^53, or it is no longer anyway.
  - `chunks_pass_on_both_paths`: five bytes in chunks where four are allowed.
-/
import FlowHelm.Proxy.BillingMethod

namespace FlowHelm.Proxy

open Js

/-- A body forwarded with a rule that bounds it is no longer than that. -/
def WithinSize (a : Answer) : Prop :=
  ∀ f c value rules maxBodySize, a.forward? = some f → f.injected = some (c, value) → c.rules = some rules →
    rules.maxBodySize = some maxBodySize → f.body.length ≤ maxBodySize

/-- The length is declared, as a double can tell it. -/
def Declared (req : IncomingMessage) : Prop :=
  ∃ digits, AList.lookup contentLengthKey req.headers = some (.one digits) ∧ digitsValue digits < 2 ^ 53

/-- A request in a tunnel is let through with a rule. -/
def Server.LetsThroughTunnel (s : Server) (c : CredentialRule) (req : IncomingMessage) : Prop :=
  enforceRules c req.method req.url req.contentLength = none ∧
    sendable ((s.nextValue c).1.mitmHeaders c (s.nextValue c).2 req) = true

instance (s : Server) (c : CredentialRule) (req : IncomingMessage) : Decidable (s.LetsThroughTunnel c req) :=
  inferInstanceAs (Decidable (_ ∧ _))

/-- The size a rule asks for is declared, or kept anyway. -/
def SizeKnown (c : CredentialRule) (req : IncomingMessage) : Prop :=
  ∀ rules maxBodySize, c.rules = some rules → rules.maxBodySize = some maxBodySize →
    Declared req ∨ req.body.length ≤ maxBodySize

theorem declared_within {req : IncomingMessage} (h : Declared req) {maxBodySize : Nat} (hle : req.contentLength ≤ maxBodySize) :
    req.body.length ≤ maxBodySize := by
  obtain ⟨digits, hdigits, hlt⟩ := h
  have hframed := req.framed
  unfold Framed at hframed
  rw [hdigits] at hframed
  unfold IncomingMessage.contentLength at hle
  rw [hdigits] at hle
  dsimp only at hle
  rw [toDouble_nat hlt] at hle
  have hdeclared : digitsValue digits ≤ maxBodySize := by exact_mod_cast hle
  exact Nat.le_trans hframed.2.2.2 hdeclared

theorem size_kept {c : CredentialRule} {req : IncomingMessage} {path : JsString} {rules : RequestRules} {maxBodySize : Nat}
    (h : enforceRules c req.method path req.contentLength = none) (hknown : SizeKnown c req) (hrules : c.rules = some rules)
    (hsize : rules.maxBodySize = some maxBodySize) : req.body.length ≤ maxBodySize := by
  rcases hknown rules maxBodySize hrules hsize with hdeclared | hle
  · exact declared_within hdeclared (allowed_size h hrules hsize)
  · exact hle

theorem plain_body {hosts : Url.HostParser} {s : Server} {now : Nat} {req : IncomingMessage} {f : Forward}
    (h : (s.handleRequest hosts now req).2.forward? = some f) : f.body = req.body := by
  obtain ⟨u, -, -, -, r, -, -, rfl⟩ := handleRequest_forwarded.mp (forward?_eq_some.mp h)
  rfl

theorem mitm_forward {s : Server} {tunnel : Tunnel} {req : IncomingMessage} {c : CredentialRule}
    (hc : selectCredentialByHeaders tunnel.credentials req.headers = some c) (hlets : s.LetsThroughTunnel c req)
    (hproto : toLowerCase c.header ≠ ofString "__proto__") :
    ∃ f value, (s.handleMitmRequest tunnel req).2.forward? = some f ∧ f.injected = some (c, value) ∧ f.body = req.body :=
  ⟨_, _, forward?_eq_some.mpr (handleMitmRequest_forwarded.mpr ⟨c, hc, hlets.1, _, rfl, hlets.2, rfl⟩),
    injected_of_ne hproto _, rfl⟩

theorem mitm_lets_through {s : Server} {tunnel : Tunnel} {req : IncomingMessage} {f : Forward} {c : CredentialRule}
    {value : JsString}
    (h : (s.handleMitmRequest tunnel req).2.forward? = some f) (hc : f.injected = some (c, value)) :
    selectCredentialByHeaders tunnel.credentials req.headers = some c ∧ s.LetsThroughTunnel c req ∧
      toLowerCase c.header ≠ ofString "__proto__" ∧ f.body = req.body := by
  obtain ⟨selected, hselected, hrules, r, rfl, hsend, rfl⟩ := handleMitmRequest_forwarded.mp (forward?_eq_some.mp h)
  obtain ⟨rfl, rfl⟩ := injected_some hc
  refine ⟨hselected, ⟨hrules, hsend⟩, fun hproto => ?_, rfl⟩
  have hnone : injected c (s.nextValue c).2 = none := if_pos hproto
  rw [hnone] at hc
  cases hc

/-- On either path, a body that is let through keeps to the size just if the size is known. -/
theorem body_within_size (hosts : Url.HostParser) (s : Server) (now : Nat) (tunnel : Tunnel) (req : IncomingMessage) :
    (WithinSize (s.handleRequest hosts now req).2 ↔
      ∀ u c, Url.parse hosts req.url = some u → s.LetsThrough now req u → s.plainCredential u = some c →
        toLowerCase c.header ≠ ofString "__proto__" → SizeKnown c req) ∧
    (WithinSize (s.handleMitmRequest tunnel req).2 ↔
      ∀ c, selectCredentialByHeaders tunnel.credentials req.headers = some c → s.LetsThroughTunnel c req →
        toLowerCase c.header ≠ ofString "__proto__" → SizeKnown c req) := by
  refine ⟨⟨fun h u c hu hlets hc hproto rules maxBodySize hrules hsize => ?_, fun h => ?_⟩,
    ⟨fun h c hc hlets hproto rules maxBodySize hrules hsize => ?_, fun h => ?_⟩⟩
  · obtain ⟨f, value, hf, hinjected⟩ := plain_forward hu hlets hc hproto
    exact .inr (plain_body hf ▸ h f c value rules maxBodySize hf hinjected hrules hsize)
  · intro f c value rules maxBodySize hf hinjected hrules hsize
    obtain ⟨u, hu, hlets, hc, hproto, -⟩ := plain_injected hf hinjected
    have hchecked := hlets.2.1
    rw [hc, Option.bind_some, requestRules_eq_none] at hchecked
    rw [plain_body hf]
    exact size_kept hchecked (h u c hu hlets hc hproto) hrules hsize
  · obtain ⟨f, value, hf, hinjected, hbody⟩ := mitm_forward hc hlets hproto
    exact .inr (hbody ▸ h f c value rules maxBodySize hf hinjected hrules hsize)
  · intro f c value rules maxBodySize hf hinjected hrules hsize
    obtain ⟨hc, hlets, hproto, hbody⟩ := mitm_lets_through hf hinjected
    rw [hbody]
    exact size_kept hlets.1 (h c hc hlets hproto) hrules hsize

/-- Four bytes are allowed. -/
def smallRule : CredentialRule :=
  ⟨ofString "Small", ofString "api.anthropic.com", ofString "x-api-key", ofString "sk-ant", none, none,
    some ⟨none, none, some 4⟩, none, none, by decide⟩

/-- Five bytes in chunks. -/
def inChunks (url : String) (h : ∀ u ∈ ofString url, 0x20 < u ∧ u ≤ 0xFF) : IncomingMessage where
  method := ofString "POST"
  url := ofString url
  headers := AList.insert (ofString "transfer-encoding") (.one (ofString "chunked")) ∅
  body := [1, 2, 3, 4, 5]
  plain := h
  framed := .inl ((AList.mem_insert _).mpr (.inl rfl))

theorem chunks_pass_on_both_paths :
    ¬WithinSize ((serving [smallRule]).handleRequest Url.asciiHosts 0
      (inChunks "http://api.anthropic.com/v1/messages" (by decide))).2 ∧
    ¬WithinSize ((serving [smallRule]).handleMitmRequest ⟨ofString "api.anthropic.com", none, [smallRule]⟩
      (inChunks "/v1/messages" (by decide))).2 := by
  have hlong : ∀ a : Answer, (a.forward?.bind fun f => f.injected.map fun x => (x.1, f.body.length)) = some (smallRule, 5) →
      ¬WithinSize a := by
    intro a ha h
    obtain ⟨f, hf, hx⟩ := Option.bind_eq_some_iff.mp ha
    obtain ⟨⟨c, value⟩, hinjected, heq⟩ := Option.map_eq_some_iff.mp hx
    obtain ⟨rfl, hlength⟩ := Prod.mk.inj heq
    have hle := h f _ value ⟨none, none, some 4⟩ 4 hf hinjected rfl rfl
    omega
  exact ⟨hlong _ (by decide), hlong _ (by decide)⟩

end FlowHelm.Proxy
