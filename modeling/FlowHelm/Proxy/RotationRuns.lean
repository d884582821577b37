/-
  FlowHelm.Proxy.RotationRuns — the rotator inside the proxy.

  A plain request takes a key of the first rule for its host, a request in a tunnel one of the
  rule its headers select; neither takes more than one, and what goes upstream with it carries
  that one. A reload resets. So the proxy runs Proxy.KeyRotation, with the current rules, as long
  as no tunnel from before a reload brings in a rule that is none of them.

  - `proxy_rotates`: the rotator is that of a run of requests for the current rules, and what has
    gone upstream since the last reload was handed out in it, in this order.
  - `keys_sent_fairly`: where the rules have counters of their own, it was handed out fairly.
  - `an_old_tunnel_takes_a_turn`: a tunnel from before a reload moves the counter of a new rule.
-/
import FlowHelm.Proxy.BillingMethod
import FlowHelm.Proxy.KeyRotation
import FlowHelm.Proxy.RateBound

namespace FlowHelm.Proxy

open Js Runs

/-! ## What a request takes -/

/-- From the rotator `k` at most one key is taken, of one of the rules, and nothing else is injected. -/
def Takes (k : KeyRotator) (credentials : List CredentialRule) (t : Server) (sent : Option (CredentialRule × JsString)) : Prop :=
  (t.keyRotator = some k ∧ sent = none) ∨
    ∃ c ∈ credentials, t.keyRotator = some (k.getNextValue c).1 ∧ (sent = none ∨ sent = some (c, (k.getNextValue c).2))

def Answer.injected (a : Answer) : Option (CredentialRule × JsString) := a.forward?.bind (·.injected)

theorem charge_rotator (s : Server) (credential : Option CredentialRule) (now : Nat) :
    (s.charge credential now).1.keyRotator = s.keyRotator := by
  unfold Server.charge
  split
  · rfl
  · split
    · rfl
    · rfl

theorem nextValue_some {s : Server} {k : KeyRotator} (h : s.keyRotator = some k) (c : CredentialRule) :
    (s.nextValue c).1.keyRotator = some (k.getNextValue c).1 ∧ (s.nextValue c).2 = (k.getNextValue c).2 := by
  unfold Server.nextValue
  rw [h]
  exact ⟨rfl, rfl⟩

theorem injected_cases (c : CredentialRule) (value : JsString) :
    injected c value = none ∨ injected c value = some (c, value) := by
  unfold injected
  split
  · exact .inl rfl
  · exact .inr rfl

theorem injected_refused {a : Answer} (h : ∀ f, a ≠ .forwarded f) : a.injected = none := by
  cases a with
  | forwarded f => exact absurd rfl (h f)
  | _ => rfl

/-- What was taken was for one request, whether or not its headers could be sent. -/
theorem injected_sent (b : Bool) (f : Forward) {other : Answer} (h : other.injected = none) :
    (if b = true then .forwarded f else other : Answer).injected = none ∨
      (if b = true then .forwarded f else other : Answer).injected = f.injected := by
  cases b with
  | false => exact .inl h
  | true => exact .inr rfl

theorem takes_one {k : KeyRotator} {credentials : List CredentialRule} {s t : Server} {c : CredentialRule} {sent : Option _}
    (hk : s.keyRotator = some k) (hc : c ∈ credentials) (ht : t.keyRotator = (s.nextValue c).1.keyRotator)
    (hsent : sent = none ∨ sent = injected c (s.nextValue c).2) : Takes k credentials t sent := by
  obtain ⟨hrotator, hvalue⟩ := nextValue_some hk c
  refine .inr ⟨c, hc, ht.trans hrotator, ?_⟩
  rw [hvalue] at hsent
  rcases hsent with hsent | hsent
  · exact .inl hsent
  · rw [hsent]
    exact injected_cases c _

theorem handleRequest_takes (hosts : Url.HostParser) {s : Server} {k : KeyRotator} (hk : s.keyRotator = some k) (now : Nat)
    (req : IncomingMessage) :
    Takes k s.credentials (s.handleRequest hosts now req).1 (s.handleRequest hosts now req).2.injected := by
  cases hu : Url.parse hosts req.url with
  | none =>
    obtain ⟨hsame, hanswer⟩ := handleRequest_unparsed hu s now
    rw [hsame]
    exact .inl ⟨hk, injected_refused hanswer⟩
  | some u =>
    have hcharged : (s.charge (s.plainCredential u) now).1.keyRotator = some k := (charge_rotator ..).trans hk
    rw [handleRequest_eq hu]
    split
    · rename_i answer hanswer
      refine .inl ⟨hcharged, injected_refused fun f hf => ?_⟩
      obtain rfl := hf
      rcases Option.or_eq_some_iff.mp hanswer with hcharge | ⟨-, hrules⟩
      · exact charge_answer _ _ now f hcharge
      · obtain ⟨c, -, hc⟩ := Option.bind_eq_some_iff.mp hrules
        exact requestRules_answer hc
    · cases hfound : s.plainCredential u with
      | none =>
        rw [hfound] at hcharged
        refine .inl ⟨hcharged, ?_⟩
        exact or_self_iff.mp (injected_sent _ _ rfl)
      | some c =>
        rw [hfound] at hcharged
        refine takes_one hcharged (List.mem_of_find?_eq_some hfound) rfl ?_
        exact injected_sent _ _ rfl

theorem handleMitmRequest_takes {s : Server} {k : KeyRotator} (hk : s.keyRotator = some k) (tunnel : Tunnel)
    (req : IncomingMessage)
    {credentials : List CredentialRule}
    (hcurrent : ∀ c ∈ selectCredentialByHeaders tunnel.credentials req.headers, c ∈ credentials) :
    Takes k credentials (s.handleMitmRequest tunnel req).1 (s.handleMitmRequest tunnel req).2.injected := by
  unfold Server.handleMitmRequest
  split
  · exact .inl ⟨hk, rfl⟩
  · rename_i c hc
    split
    · exact .inl ⟨hk, rfl⟩
    · refine takes_one hk (hcurrent c hc) rfl ?_
      exact injected_sent _ _ rfl

theorem handleConnect_rotator (s : Server) (now : Nat) (target : JsString) :
    (s.handleConnect now target).1.keyRotator = s.keyRotator := by
  rw [handleConnect_eq]
  have hcharge := charge_rotator s (s.allCredentials (connectHost target)).head? now
  split
  · rfl
  · split
    · rename_i heq
      rw [heq] at hcharge
      exact hcharge
    · rename_i heq
      rw [heq] at hcharge
      exact hcharge

/-! ## Runs of the proxy -/

/-- No counter is full, and a tunnel is used with a rule that is a current one. -/
def Rotating (s : St) (e : Ev) : Prop :=
  (∀ k ∈ s.server.keyRotator, ∀ c ∈ s.server.credentials, k.getCounter c.name < 2 ^ 53) ∧
    match e with
    | .mitmRequest _ i req => ∀ tunnel ∈ s.tunnels[i]?, ∀ c ∈ selectCredentialByHeaders tunnel.credentials req.headers,
      c ∈ s.server.credentials
    | _ => True

/-- The state of the proxy beside a run of requests for its rules. -/
structure Rotated (s : St) (r : KeyRotation.St) : Prop where
  reach : Reach (KeyRotation.rotation s.server.credentials) (KeyRotation.Counted s.server.credentials) r
  rotator : s.server.keyRotator = some r.rotator
  sent : (s.sent.filterMap (·.2.injected)).Sublist
    (r.handed.filterMap fun h => s.server.credentials[h.rule]?.map (·, h.value))

theorem sent_injected (now : Nat) (a : Answer) : (a.sent now).filterMap (·.2.injected) = a.injected.toList := by
  unfold Answer.sent Answer.injected
  cases a.forward? with
  | none => rfl
  | some f => cases hf : f.injected with
    | none => simp [hf]
    | some p => simp [hf]

theorem rotated_fresh {s : St} (hrotator : s.server.keyRotator = some ∅) (hsent : s.sent = []) : ∃ r, Rotated s r := by
  refine ⟨_, .init, hrotator, ?_⟩
  rw [hsent]
  exact List.nil_sublist _

theorem rotated_takes {s t : St} {r : KeyRotation.St} (h : Rotated s r) {now : Nat} {a : Answer}
    (hcounters : ∀ k ∈ s.server.keyRotator, ∀ c ∈ s.server.credentials, k.getCounter c.name < 2 ^ 53)
    (hsame : s.server.Same t.server) (htakes : Takes r.rotator s.server.credentials t.server a.injected)
    (hsent : t.sent = s.sent ++ a.sent now) : ∃ r', Rotated t r' := by
  have hlog : t.sent.filterMap (·.2.injected) = s.sent.filterMap (·.2.injected) ++ a.injected.toList := by
    rw [hsent, List.filterMap_append, sent_injected]
  rcases htakes with ⟨hrotator, hnone⟩ | ⟨c, hmem, hrotator, hinjected⟩
  · refine ⟨r, ?_, hrotator, ?_⟩
    · rw [hsame.credentials]
      exact h.reach
    · rw [hlog, hnone, hsame.credentials, Option.toList_none, List.append_nil]
      exact h.sent
  · obtain ⟨i, hc⟩ := List.getElem?_of_mem hmem
    refine ⟨r.request i c, ?_, hrotator, ?_⟩
    · rw [hsame.credentials]
      exact KeyRotation.reach_request hc h.reach (KeyRotation.counted_request hc (hcounters _ h.rotator c hmem))
    · have hhanded : (r.request i c).handed.filterMap (fun g => s.server.credentials[g.rule]?.map (·, g.value)) =
          r.handed.filterMap (fun g => s.server.credentials[g.rule]?.map (·, g.value)) ++
              [(c, (r.rotator.getNextValue c).2)] := by
        simp [KeyRotation.St.request, hc]
      rw [hlog, hsame.credentials, hhanded]
      refine h.sent.append ?_
      rcases hinjected with hinjected | hinjected
      · rw [hinjected]
        exact List.nil_sublist _
      · rw [hinjected]
        exact List.Sublist.refl _

theorem rotated_step {hosts : Url.HostParser} {s t : St} {e : Ev} (h : ∃ r, Rotated s r) (hrotating : Rotating s e)
    (hs : step hosts s e = some t) : ∃ r, Rotated t r := by
  obtain ⟨-, -, hmoved⟩ := step_moved hs
  obtain ⟨r, hr⟩ := h
  cases e with
  | request now req =>
    obtain ⟨hserver, -, hsent⟩ := hmoved
    exact rotated_takes hr hrotating.1 (hserver ▸ handleRequest_same ..)
      (hserver ▸ handleRequest_takes hosts hr.rotator now req) hsent
  | connect now target =>
    obtain ⟨hserver, -, hsent⟩ := hmoved
    have hsame := handleConnect_same s.server now target
    rw [← hserver] at hsame
    refine ⟨r, ?_, ?_, ?_⟩
    · rw [hsame.credentials]
      exact hr.reach
    · rw [hserver, handleConnect_rotator]
      exact hr.rotator
    · rw [hsent, hsame.credentials]
      exact hr.sent
  | mitmRequest now i req =>
    obtain ⟨tunnel, htunnel, hserver, -, hsent⟩ := hmoved
    exact rotated_takes hr hrotating.1 (hserver ▸ handleMitmRequest_same ..)
      (hserver ▸ handleMitmRequest_takes hr.rotator tunnel req (hrotating.2 tunnel htunnel)) hsent
  | sighup now newRules =>
    obtain ⟨hserver, -, hsent⟩ := hmoved
    exact rotated_fresh (by rw [hserver]; rfl) hsent

/-- The proxy's requests are requests for its current rules. -/
theorem proxy_rotates {hosts : Url.HostParser} {ca : Bool} {activeCredentialMethod : Option CredentialMethod}
    {rules : CredentialRules} {s : St} (h : Reach (proxy hosts ca activeCredentialMethod rules) Rotating s) : ∃ r, Rotated s r :=
  h.inv (rotated_fresh rfl rfl) fun _ _ _ _ hi hc hs => rotated_step hi hc hs

/-- Rules with counters of their own get what they send handed out fairly. -/
theorem keys_sent_fairly {hosts : Url.HostParser} {ca : Bool} {activeCredentialMethod : Option CredentialMethod}
    {rules : CredentialRules} {s : St} (h : Reach (proxy hosts ca activeCredentialMethod rules) Rotating s)
    (halone : ∀ i, ∀ c ∈ s.server.credentials[i]?, 2 ≤ c.keys.length → KeyRotation.Alone s.server.credentials i c) :
    ∃ r, Rotated s r ∧ KeyRotation.EntriesFair s.server.credentials r := by
  obtain ⟨r, hr⟩ := proxy_rotates h
  exact ⟨r, hr, KeyRotation.entriesFair_of_alone halone hr.reach⟩

/-! ## A rule with two keys -/

/-- A rule that rotates through keys. -/
def pooledRule (first second : String) (valid : ofString first ≠ [] ∧ ofString second ≠ []) : CredentialRule where
  name := ofString "Anthropic"
  hostPattern := ofString "api.anthropic.com"
  header := ofString "x-api-key"
  value := ofString first
  values := some [ofString first, ofString second]
  rateLimit := none
  rules := none
  expiresAt := none
  credentialMethod := none
  valid := by
    refine ⟨by decide, by decide, by decide, by decide, by decide, valid.1, fun vs hvs => ?_⟩
    obtain rfl := Option.some.inj hvs
    refine ⟨List.cons_ne_nil _ _, fun v hv => ?_⟩
    rcases List.mem_pair.mp hv with rfl | rfl
    · exact valid.1
    · exact valid.2

def pooledProxy : System St Ev := proxy Url.asciiHosts true none ⟨[pooledRule "sk-1" "sk-2" (by decide)], [], []⟩

/-- The values that have gone upstream. -/
def sentValues (s : St) : List (Option JsString) := s.sent.map fun x => x.2.injected.map (·.2)

instance decidableRotating : ∀ s e, Decidable (Rotating s e)
  | _, .mitmRequest .. => inferInstanceAs (Decidable (_ ∧ ∀ _ ∈ _, ∀ _ ∈ _, _ ∈ _))
  | _, .request .. | _, .connect .. | _, .sighup .. => inferInstanceAs (Decidable (_ ∧ True))

theorem plain_requests_take_turns : ∃ s, sentValues s = [some (ofString "sk-1"), some (ofString "sk-2")] ∧
    ∃ r, Rotated s r ∧ KeyRotation.EntriesFair s.server.credentials r := by
  have hrun : ∃ s, Reach pooledProxy Rotating s ∧ decide (sentValues s = [some (ofString "sk-1"), some (ofString "sk-2")] ∧
      s.server.credentials.length = 1) = true :=
    reach_any (M := pooledProxy) [.request 0 getMessages, .request 1 getMessages] (by decide +kernel) (by decide +kernel)
  obtain ⟨s, hs, hstate⟩ := hrun
  obtain ⟨hsent, hone⟩ := of_decide_eq_true hstate
  refine ⟨s, hsent, keys_sent_fairly hs fun i c hc _ j hij d hd => ?_⟩
  have hi := (List.getElem?_eq_some_iff.mp hc).1
  have hj := (List.getElem?_eq_some_iff.mp hd).1
  omega

/-- The keys are replaced, and each file has the name once. -/
theorem an_old_tunnel_takes_a_turn : ∃ s, Reach pooledProxy Free s ∧
    s.server.credentials = [pooledRule "sk-3" "sk-4" (by decide)] ∧
      sentValues s = [some (ofString "sk-3"), some (ofString "sk-2"), some (ofString "sk-3")] := by
  have hrun : ∃ s, Reach pooledProxy Free s ∧ decide (s.server.credentials = [pooledRule "sk-3" "sk-4" (by decide)] ∧
      sentValues s = [some (ofString "sk-3"), some (ofString "sk-2"), some (ofString "sk-3")]) = true :=
    reach_any (M := pooledProxy) (C := Free)
      [.connect 0 (ofString "api.anthropic.com:443"), .sighup 1 ⟨[pooledRule "sk-3" "sk-4" (by decide)], [], []⟩,
        .request 2 getMessages, .mitmRequest 3 0 getInTunnel, .request 4 getMessages]
      (meets_free ..) (by decide +kernel)
  obtain ⟨s, hs, hstate⟩ := hrun
  exact ⟨s, hs, of_decide_eq_true hstate⟩

end FlowHelm.Proxy
