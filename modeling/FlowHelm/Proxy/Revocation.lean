/-
  FlowHelm.Proxy.Revocation — which values go upstream after a reload.

  A reload replaces the server's rules, limiter, rotator counts and bypass set. A tunnel keeps
  the rules it was opened with.

  - `sends_current_values`: since the last reload only values of the current rules have gone
    upstream, in runs where a tunnel is used with a rule only while its values still occur
    in them.
  - `a_tunnel_keeps_a_revoked_value`: a tunnel opened before the rule was removed.
-/
import FlowHelm.Proxy.RateBound

namespace FlowHelm.Proxy

open Js Runs

/-- The values that occur in rules. -/
def valuesIn (credentials : List CredentialRule) : List JsString := credentials.flatMap fun c => c.value :: c.values.getD []

/-- What has been sent since the reload carries values of the current rules. -/
def OnlyCurrent (s : St) : Prop :=
  ∀ x ∈ s.sent, ∀ c value, x.2.injected = some (c, value) → value ∈ valuesIn s.server.credentials

/-- A tunnel is used with a rule whose values still occur in the current ones. -/
def Standing (s : St) : Ev → Prop
  | .mitmRequest _ i req => ∀ tunnel ∈ s.tunnels[i]?, ∀ c ∈ selectCredentialByHeaders tunnel.credentials req.headers,
    s.server.LetsThroughTunnel c req → toLowerCase c.header ≠ ofString "__proto__" →
      s.server.valuesOf c ⊆ valuesIn s.server.credentials
  | _ => True

theorem valuesOf_subset {s : Server} {c : CredentialRule} (h : c ∈ s.credentials) {value : JsString}
    (hvalue : value ∈ s.valuesOf c) :
    value ∈ valuesIn s.credentials := by
  refine List.mem_flatMap.mpr ⟨c, h, ?_⟩
  unfold Server.valuesOf CredentialRule.rotated at hvalue
  split at hvalue
  · split at hvalue
    · rw [List.mem_singleton.mp hvalue]
      exact List.mem_cons_self ..
    · rw [List.mem_singleton.mp hvalue]
      exact List.mem_cons_self ..
    · rename_i values _ hvalues
      rw [hvalues]
      exact List.mem_cons_of_mem _ hvalue
  · rw [List.mem_singleton.mp hvalue]
    exact List.mem_cons_self ..

/-- A plain request carries a value of the current rules. -/
theorem plain_current {hosts : Url.HostParser} {s : Server} {now : Nat} {req : IncomingMessage} {f : Forward} {c : CredentialRule}
    {value : JsString} (h : (s.handleRequest hosts now req).2.forward? = some f) (hc : f.injected = some (c, value)) :
    value ∈ valuesIn s.credentials := by
  obtain ⟨u, -, -, hfound, -, hvalue⟩ := plain_injected h hc
  exact valuesOf_subset (List.mem_of_find?_eq_some hfound) hvalue

theorem onlyCurrent_sent {s t : St} {a : Answer} {now : Nat} (h : OnlyCurrent s) (hsame : s.server.Same t.server)
    (hsent : t.sent = s.sent ++ a.sent now)
    (ha : ∀ f c value, a.forward? = some f → f.injected = some (c, value) → value ∈ valuesIn s.server.credentials) :
    OnlyCurrent t := by
  intro x hx c value hc
  rw [hsame.credentials]
  rw [hsent] at hx
  rcases List.mem_append.mp hx with hx | hx
  · exact h x hx c value hc
  · obtain ⟨-, hf⟩ := mem_sent (t := x.1) (f := x.2) hx
    exact ha x.2 c value hf hc

theorem onlyCurrent_step {hosts : Url.HostParser} {s t : St} {e : Ev} (h : OnlyCurrent s) (hc : Standing s e)
    (hs : step hosts s e = some t) : OnlyCurrent t := by
  obtain ⟨-, -, hmoved⟩ := step_moved hs
  cases e with
  | request now req =>
    obtain ⟨hserver, -, hsent⟩ := hmoved
    exact onlyCurrent_sent h (hserver ▸ handleRequest_same ..) hsent fun f c value => plain_current
  | connect now target =>
    obtain ⟨hserver, -, hsent⟩ := hmoved
    intro x hx c value hinjected
    rw [hsent] at hx
    rw [hserver, (handleConnect_same ..).credentials]
    exact h x hx c value hinjected
  | mitmRequest now i req =>
    obtain ⟨tunnel, htunnel, hserver, -, hsent⟩ := hmoved
    refine onlyCurrent_sent h (hserver ▸ handleMitmRequest_same ..) hsent fun f c value hf hinjected => ?_
    obtain ⟨hselected, hlets, hproto, -⟩ := mitm_lets_through hf hinjected
    exact hc tunnel htunnel c hselected hlets hproto (mitm_injected hf hinjected).2
  | sighup now newRules =>
    obtain ⟨-, -, hsent⟩ := hmoved
    intro x hx
    rw [hsent] at hx
    cases hx

/-- Where tunnels are used only with rules that still stand, only current values are sent. -/
theorem sends_current_values {hosts : Url.HostParser} {ca : Bool} {activeCredentialMethod : Option CredentialMethod}
    {rules : CredentialRules} {s : St} (h : Reach (proxy hosts ca activeCredentialMethod rules) Standing s) : OnlyCurrent s :=
  h.inv (List.forall_mem_nil _) fun _ _ _ _ hi hc hs => onlyCurrent_step hi hc hs

/-! ## A tunnel from before the reload -/

instance (s : St) : (e : Ev) → Decidable (Standing s e)
  | .mitmRequest .. => inferInstanceAs (Decidable (∀ _ ∈ _, ∀ _ ∈ _, _ → _ → (_ : List JsString) ⊆ _))
  | .request .. | .connect .. | .sighup .. => inferInstanceAs (Decidable True)

/-- The rule is kept, and the tunnel is used on. -/
theorem a_kept_rule_is_sent : ∃ s, s.sent.length = 1 ∧ OnlyCurrent s := by
  have hrun : ∃ s, Reach limitedProxy Standing s ∧ decide (s.sent.length = 1) = true :=
    reach_any (M := limitedProxy) (C := Standing)
      [.connect 0 (ofString "api.anthropic.com:443"), .sighup 1 ⟨[limitedRule], [], []⟩, .mitmRequest 2 0 getInTunnel]
      (by decide) (by decide)
  obtain ⟨s, hs, hsent⟩ := hrun
  exact ⟨s, of_decide_eq_true hsent, sends_current_values hs⟩

theorem a_tunnel_keeps_a_revoked_value : ∃ s, Reach limitedProxy Free s ∧ ¬OnlyCurrent s := by
  have hrun : ∃ s, Reach limitedProxy Free s ∧
      decide (s.sent.map (·.2.injected) = [some (limitedRule, ofString "sk-ant")] ∧ s.server.credentials = []) = true :=
    reach_any (M := limitedProxy) (C := Free)
      [.connect 0 (ofString "api.anthropic.com:443"), .sighup 1 .empty, .mitmRequest 2 0 getInTunnel]
      (meets_free ..) (by decide)
  obtain ⟨s, hs, hstate⟩ := hrun
  obtain ⟨hsent, hcredentials⟩ := of_decide_eq_true hstate
  refine ⟨s, hs, fun h => ?_⟩
  have hmem : some (limitedRule, ofString "sk-ant") ∈ s.sent.map (·.2.injected) := by
    rw [hsent]
    exact List.mem_singleton_self _
  obtain ⟨x, hx, hinjected⟩ := List.mem_map.mp hmem
  have hvalue := h x hx limitedRule (ofString "sk-ant") hinjected
  rw [hcredentials] at hvalue
  cases hvalue

end FlowHelm.Proxy
