/-
  FlowHelm.Proxy.BillingMethod — whose credential is billed.

  With an active method set, a tunnel holds only rules that are untagged or of that method. A
  plain request is served with the first rule for its host, whatever its tag.

  - `plain_carries` / `mitm_carries`: what goes out has the credential in the rule's header.
  - `billed_by_active_method`: tunnels always keep to the active method, a plain request just
    if the first rule for its host does.
  - `a_plain_request_is_billed_to_the_api_key`: the active method is oauth.
-/
import FlowHelm.Proxy.Server

namespace FlowHelm.Proxy

open Js

/-- The credential put into what is sent upstream is of the method, or untagged. -/
def Billed (m : CredentialMethod) (a : Answer) : Prop :=
  ∀ f c value, a.forward? = some f → f.injected = some (c, value) → c.usable m = true

def Server.withMethod (s : Server) (m : CredentialMethod) : Server := { s with activeCredentialMethod := some m }

/-- A plain request to `u` is let through: by the limit, by the request rules, and as headers. -/
def Server.LetsThrough (s : Server) (now : Nat) (req : IncomingMessage) (u : Url.Parsed) : Prop :=
  (s.charge (s.plainCredential u) now).2 = none ∧ (s.plainCredential u).bind (requestRules · req u.pathname) = none ∧
    sendable ((s.charge (s.plainCredential u) now).1.plainHeaders (s.plainCredential u) req).2.1 = true

instance (s : Server) (now : Nat) (req : IncomingMessage) (u : Url.Parsed) : Decidable (s.LetsThrough now req u) :=
  inferInstanceAs (Decidable (_ ∧ _ ∧ _))

theorem plainHeaders_some (s : Server) (c : CredentialRule) (req : IncomingMessage) :
    (s.plainHeaders (some c) req).2.2 = injected c (s.nextValue c).2 := rfl

theorem injected_of_ne {c : CredentialRule} (h : toLowerCase c.header ≠ ofString "__proto__") (value : JsString) :
    injected c value = some (c, value) := if_neg h

theorem injected_proto {c c' : CredentialRule} {value value' : JsString} (h : injected c value = some (c', value')) :
    toLowerCase c.header ≠ ofString "__proto__" := by
  intro hproto
  rw [injected, if_pos hproto] at h
  cases h

/-- What a plain request carries is the first rule's for its host. -/
theorem plain_injected {hosts : Url.HostParser} {s : Server} {now : Nat} {req : IncomingMessage} {f : Forward}
    {c : CredentialRule}
    {value : JsString} (h : (s.handleRequest hosts now req).2.forward? = some f) (hc : f.injected = some (c, value)) :
    ∃ u, Url.parse hosts req.url = some u ∧ s.LetsThrough now req u ∧ s.plainCredential u = some c ∧
      toLowerCase c.header ≠ ofString "__proto__" ∧ value ∈ s.valuesOf c := by
  obtain ⟨u, hu, hcharge, hrules, r, rfl, hsend, rfl⟩ := handleRequest_forwarded.mp (forward?_eq_some.mp h)
  have hsame := charge_same s (s.plainCredential u) now
  refine ⟨u, hu, ⟨hcharge, hrules, hsend⟩, ?_⟩
  cases hfound : s.plainCredential u with
  | none =>
    rw [hfound] at hc
    cases hc
  | some first =>
    rw [hfound] at hc hsame
    have hinjected : injected first ((s.charge (some first) now).1.nextValue first).2 = some (c, value) := hc
    have hproto := injected_proto hinjected
    obtain ⟨rfl, rfl⟩ := injected_some hinjected
    exact ⟨rfl, hproto, valuesOf_same hsame c ▸ nextValue_mem _ c⟩

theorem inject_carries (headers : Headers) {c : CredentialRule} (value : JsString)
    (hproto : toLowerCase c.header ≠ ofString "__proto__") :
    (inject headers c value).lookup (toLowerCase c.header) = some (.one value) := by
  have hset : (headers.insert (toLowerCase c.header) (HeaderValue.one value)).lookup (toLowerCase c.header) = some (.one value) :=
    AList.lookup_insert headers
  unfold inject
  dsimp only
  rw [if_neg hproto]
  split
  · rename_i hkey
    rw [AList.lookup_erase_ne (by rw [hkey]; decide)]
    exact hset
  · split
    · rename_i hkey
      rw [AList.lookup_erase_ne (by rw [hkey]; decide)]
      exact hset
    · exact hset

/-- A plain request goes out with the credential in the rule's header. -/
theorem plain_carries {hosts : Url.HostParser} {s : Server} {now : Nat} {req : IncomingMessage} {f : Forward} {c : CredentialRule}
    {value : JsString} (h : (s.handleRequest hosts now req).2.forward? = some f) (hc : f.injected = some (c, value)) :
    f.headers.lookup (toLowerCase c.header) = some (.one value) := by
  obtain ⟨u, -, -, -, r, rfl, -, rfl⟩ := handleRequest_forwarded.mp (forward?_eq_some.mp h)
  cases hfound : s.plainCredential u with
  | none =>
    rw [hfound] at hc
    cases hc
  | some first =>
    rw [hfound] at hc
    have hinjected : injected first ((s.charge (some first) now).1.nextValue first).2 = some (c, value) := hc
    have hproto := injected_proto hinjected
    obtain ⟨rfl, rfl⟩ := injected_some hinjected
    exact inject_carries _ _ hproto

theorem plain_forward {hosts : Url.HostParser} {s : Server} {now : Nat} {req : IncomingMessage} {u : Url.Parsed}
    {c : CredentialRule}
    (hu : Url.parse hosts req.url = some u) (hlets : s.LetsThrough now req u) (hc : s.plainCredential u = some c)
    (hproto : toLowerCase c.header ≠ ofString "__proto__") :
    ∃ f value, (s.handleRequest hosts now req).2.forward? = some f ∧ f.injected = some (c, value) := by
  obtain ⟨hcharge, hrules, hsend⟩ := hlets
  have hinjected : ((s.charge (s.plainCredential u) now).1.plainHeaders (s.plainCredential u) req).2.2 =
      some (c, ((s.charge (s.plainCredential u) now).1.nextValue c).2) := by
    rw [hc, plainHeaders_some]
    exact injected_of_ne hproto _
  exact ⟨_, _, forward?_eq_some.mpr (handleRequest_forwarded.mpr ⟨u, hu, hcharge, hrules, _, rfl, hsend, rfl⟩), hinjected⟩

/-- What a request in a tunnel carries is one of the tunnel's. -/
theorem mitm_injected {s : Server} {tunnel : Tunnel} {req : IncomingMessage} {f : Forward} {c : CredentialRule} {value : JsString}
    (h : (s.handleMitmRequest tunnel req).2.forward? = some f) (hc : f.injected = some (c, value)) :
    selectCredentialByHeaders tunnel.credentials req.headers = some c ∧ value ∈ s.valuesOf c := by
  obtain ⟨selected, hselected, -, r, rfl, -, rfl⟩ := handleMitmRequest_forwarded.mp (forward?_eq_some.mp h)
  obtain ⟨rfl, rfl⟩ := injected_some hc
  exact ⟨hselected, nextValue_mem s c⟩

theorem nextValue_costLog (s : Server) (credential : CredentialRule) : (s.nextValue credential).1.costLog = s.costLog := by
  unfold Server.nextValue
  split
  · rfl
  · rfl

/-- So does a request in a tunnel, but that a rule for Accept-Encoding is undone where costs are tracked. -/
theorem mitm_carries {s : Server} {tunnel : Tunnel} {req : IncomingMessage} {f : Forward} {c : CredentialRule} {value : JsString}
    (h : (s.handleMitmRequest tunnel req).2.forward? = some f) (hc : f.injected = some (c, value))
    (hencoding : toLowerCase c.header = ofString "accept-encoding" → s.costLog = false ∨ c.isAnthropic = false) :
    f.headers.lookup (toLowerCase c.header) = some (.one value) := by
  obtain ⟨selected, -, -, r, rfl, -, rfl⟩ := handleMitmRequest_forwarded.mp (forward?_eq_some.mp h)
  have hproto := injected_proto hc
  obtain ⟨rfl, rfl⟩ := injected_some hc
  show (Server.mitmHeaders _ c _ req).lookup _ = _
  unfold Server.mitmHeaders
  dsimp only
  split
  · rename_i htracked
    obtain ⟨hlog, hanthropic⟩ := Bool.and_eq_true_iff.mp htracked
    have hkept : toLowerCase c.header ≠ ofString "accept-encoding" := by
      intro hkey
      rcases hencoding hkey with hoff | hother
      · rw [nextValue_costLog, hoff] at hlog
        cases hlog
      · rw [hother] at hanthropic
        cases hanthropic
    rw [AList.lookup_erase_ne hkept]
    exact inject_carries _ _ hproto
  · exact inject_carries _ _ hproto

theorem mitm_billed {s s' : Server} {m : CredentialMethod} {now : Nat} {target : JsString} {tunnel : Tunnel}
    (h : ((s.withMethod m).handleConnect now target).2 = .mitm tunnel) (req : IncomingMessage) :
    Billed m (s'.handleMitmRequest tunnel req).2 := by
  intro f c value hf hc
  have hmem := select_mem (mitm_injected hf hc).1
  rw [(handleConnect_tunnel h).1] at hmem
  exact mem_filterByCredentialMethod hmem

/-- A plain request keeps to the active method just if the first rule for its host does, where
    it is let through; a tunnel always does. -/
theorem billed_by_active_method (hosts : Url.HostParser) (s : Server) (m : CredentialMethod) (now : Nat) (req : IncomingMessage)
    (target : JsString) :
    (Billed m ((s.withMethod m).handleRequest hosts now req).2 ↔
      ∀ u c, Url.parse hosts req.url = some u → (s.withMethod m).LetsThrough now req u → findCredentialForHost u.hostname
        s.credentials = some c → toLowerCase c.header ≠ ofString "__proto__" → c.usable m = true) ∧
      ∀ tunnel s' req', ((s.withMethod m).handleConnect now target).2 = .mitm tunnel →
        Billed m (Server.handleMitmRequest s' tunnel req').2 := by
  refine ⟨⟨fun h u c hu hlets hc hproto => ?_, fun h f c value hf hc => ?_⟩, fun tunnel s' req' h => mitm_billed h req'⟩
  · obtain ⟨f, value, hf, hinjected⟩ := plain_forward hu hlets hc hproto
    exact h f c value hf hinjected
  · obtain ⟨u, hu, hlets, hfound, hproto, -⟩ := plain_injected hf hc
    exact h u c hu hlets hfound hproto

/-! ## The api key where the subscription is active -/

theorem anthropic_valid :
    1 ≤ (ofString "Anthropic").length ∧ (ofString "Anthropic").length ≤ 128 ∧
      isHostPattern (ofString "api.anthropic.com") = true ∧
      1 ≤ (ofString "x-api-key").length ∧ (ofString "x-api-key").length ≤ 256 ∧ ofString "sk-ant" ≠ [] ∧
      ∀ vs ∈ (none : Option (List JsString)), vs ≠ [] ∧ ∀ v ∈ vs, v ≠ [] := by decide

def apiKeyRule : CredentialRule :=
  ⟨ofString "Anthropic", ofString "api.anthropic.com", ofString "x-api-key", ofString "sk-ant", none, none, none, none,
    some .apiKey, anthropic_valid⟩

/-- A rule, no limiter, a CA. -/
def serving (credentials : List CredentialRule) : Server :=
  ⟨credentials, buildRateLimiter credentials, some ∅, true, false, [], none⟩

theorem messages_plain : ∀ u ∈ ofString "http://api.anthropic.com/v1/messages", 0x20 < u ∧ u ≤ 0xFF := by decide

theorem no_body_framed : ofString "transfer-encoding" ∈ (∅ : Headers) ∨ ([] : List UInt8) = [] := .inr rfl

def getMessages : IncomingMessage where
  method := ofString "GET"
  url := ofString "http://api.anthropic.com/v1/messages"
  headers := ∅
  body := []
  plain := messages_plain
  framed := no_body_framed

theorem a_plain_request_is_billed_to_the_api_key :
    ¬Billed .oauth (((serving [apiKeyRule]).withMethod .oauth).handleRequest Url.asciiHosts 0 getMessages).2 := by
  intro h
  have hsent : ((((serving [apiKeyRule]).withMethod .oauth).handleRequest Url.asciiHosts 0 getMessages).2.forward?.bind
      (·.injected)).map (·.1.usable .oauth) = some false := by decide
  obtain ⟨⟨c, value⟩, hsome, husable⟩ := Option.map_eq_some_iff.mp hsent
  obtain ⟨f, hf, hc⟩ := Option.bind_eq_some_iff.mp hsome
  rw [h f c value hf hc] at husable
  cases husable

end FlowHelm.Proxy
