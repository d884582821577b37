/-
  FlowHelm.Proxy.RateBound — how many requests go upstream with one credential.

  A plain request is charged to the rule it is served with. A tunnel is charged once, when it is
  opened, to the first rule of its host; a request in it is not.

  - `sends_within_limit`: between two reloads no window has more requests with a credential
    than its limit, in runs where none goes through a tunnel with a limited credential, and
    no rule of a name is registered over a stricter one.
  - `a_tunnel_exceeds_the_limit`: two requests in a tunnel, where one a minute is allowed.
-/
import FlowHelm.Proxy.BodySize
import FlowHelm.Proxy.Main

namespace FlowHelm.Proxy

open Js Runs SlidingWindow

/-! ## What is sent with a credential -/

def Forward.credential (f : Forward) : Option CredentialRule := f.injected.map (·.1)

/-- When requests went upstream with a credential. -/
def timesOf (c : CredentialRule) (sent : List (Nat × Forward)) : List Nat :=
  (sent.filter fun x => x.2.credential = some c).map (·.1)

/-- When requests went upstream with a limited credential of a name. -/
def limitedTimes (name : JsString) (sent : List (Nat × Forward)) : List Nat :=
  (sent.filter fun x => x.2.credential.any fun c => c.name = name ∧ c.rateLimit.isSome).map (·.1)

/-- In no window more requests with a credential than its limit allows. -/
def WithinLimits (s : St) : Prop :=
  ∀ c r, c.rateLimit = some r → Paced r.requests r.windowMs (timesOf c s.sent)

/-- No looser a limit. -/
def RateLimitRule.Within (r r' : RateLimitRule) : Prop := r.requests ≤ r'.requests ∧ r'.windowSeconds ≤ r.windowSeconds

instance (r r' : RateLimitRule) : Decidable (r.Within r') := inferInstanceAs (Decidable (_ ∧ _))

/-- What goes upstream with a limited credential is charged, and to a limit no looser. -/
def Charged (hosts : Url.HostParser) (s : St) : Ev → Prop
  | .request now req => ∀ u ∈ Url.parse hosts req.url, s.server.LetsThrough now req u → ∀ c ∈ s.server.plainCredential u,
    toLowerCase c.header ≠ ofString "__proto__" → ∀ r ∈ c.rateLimit, ∃ r' ∈ limitFor s.server.credentials c.name, r'.Within r
  | .mitmRequest _ i req => ∀ tunnel ∈ s.tunnels[i]?, ∀ c ∈ selectCredentialByHeaders tunnel.credentials req.headers,
    s.server.LetsThroughTunnel c req → toLowerCase c.header ≠ ofString "__proto__" → c.rateLimit = none
  | _ => True

/-! ## The limiter over time -/

/-- An entry has what was sent of late, and it is paced. -/
def Counts (l : RateLimiter) (now : Nat) (name : JsString) (times : List Nat) : Prop :=
  ∀ entry, AList.lookup name l = some entry →
    (recent entry.rule.windowMs now times).Sublist entry.timestamps ∧ Paced entry.rule.requests entry.rule.windowMs times

theorem windowMs_pos (r : RateLimitRule) : 0 < r.windowMs := by
  have hvalid := r.valid.2
  unfold RateLimitRule.windowMs
  omega

theorem Counts.later {l : RateLimiter} {now now' : Nat} {name : JsString} {times : List Nat} (h : Counts l now name times)
    (hnow : now ≤ now') : Counts l now' name times := by
  intro entry hentry
  obtain ⟨hkept, hpaced⟩ := h entry hentry
  exact ⟨(recent_sublist hnow hkept).trans List.filter_sublist, hpaced⟩

/-- `consume` drops nothing that is recent. -/
theorem consumed_sublist {entry : WindowEntry} {earlier now : Nat} {times : List Nat} (hnow : earlier ≤ now)
    (h : (recent entry.rule.windowMs earlier times).Sublist entry.timestamps) :
    (recent entry.rule.windowMs now times).Sublist (entry.consumed now).timestamps := by
  have hkept := recent_sublist hnow h
  unfold WindowEntry.consumed
  dsimp only
  split
  · exact hkept
  · exact hkept.trans (List.sublist_append_left ..)

theorem Counts.consume {l : RateLimiter} {earlier now : Nat} {name : JsString} {times : List Nat}
    (h : Counts l earlier name times)
    (hnow : earlier ≤ now) (other : JsString) : Counts (l.consume other now).1 now name times := by
  cases hlookup : AList.lookup other l with
  | none =>
    rw [consume_none hlookup now]
    exact h.later hnow
  | some entry =>
    obtain ⟨-, hsame, hothers⟩ := consume_spec hlookup now
    intro new hnew
    by_cases hname : name = other
    · rw [hname, hsame] at hnew
      obtain rfl := Option.some.inj hnew
      obtain ⟨hkept, hpaced⟩ := h entry (hname ▸ hlookup)
      exact ⟨consumed_sublist hnow hkept, hpaced⟩
    · rw [hothers name hname] at hnew
      exact h.later hnow new hnew

/-- A request that the limit allowed may be sent. -/
theorem Counts.sent {l : RateLimiter} {earlier now : Nat} {name : JsString} {times : List Nat} (h : Counts l earlier name times)
    (hnow : earlier ≤ now) (hallowed : (l.consume name now).2.allowed = true) :
    Counts (l.consume name now).1 now name (times ++ [now]) := by
  cases hlookup : AList.lookup name l with
  | none =>
    intro new hnew
    rw [consume_none hlookup now, hlookup] at hnew
    cases hnew
  | some entry =>
    obtain ⟨hspec, hsame, -⟩ := consume_spec hlookup now
    obtain ⟨hkept, hpaced⟩ := h entry hlookup
    have hrecent := recent_sublist hnow hkept
    have hroom : (recent entry.rule.windowMs now entry.timestamps).length < entry.rule.requests :=
      of_decide_eq_true (hspec.symm.trans hallowed)
    intro new hnew
    rw [hsame] at hnew
    obtain rfl := Option.some.inj hnew
    refine ⟨?_, hpaced.push (Nat.lt_of_le_of_lt hrecent.length_le hroom)⟩
    show (recent entry.rule.windowMs now (times ++ [now])).Sublist (entry.consumed now).timestamps
    rw [recent_append, recent_self (windowMs_pos entry.rule)]
    unfold WindowEntry.consumed
    dsimp only
    rw [if_neg (by omega)]
    exact hrecent.append_right [now]

theorem consume_rule (l : RateLimiter) (name other : JsString) (now : Nat) :
    (AList.lookup name (l.consume other now).1).map (·.rule) = (AList.lookup name l).map (·.rule) := by
  cases hlookup : AList.lookup other l with
  | none => rw [consume_none hlookup now]
  | some entry =>
    obtain ⟨-, hsame, hothers⟩ := consume_spec hlookup now
    by_cases hname : name = other
    · rw [hname, hsame, hlookup]
      rfl
    · rw [hothers name hname]

/-! ## Runs -/

structure Inv (s : St) : Prop where
  /-- The limits are those of the rules. -/
  limits : ∀ name, (AList.lookup name s.server.rateLimiter).map (·.rule) = limitFor s.server.credentials name
  counts : ∀ name, Counts s.server.rateLimiter s.now name (limitedTimes name s.sent)
  registered : ∀ x ∈ s.sent, ∀ c ∈ x.2.credential, ∀ r ∈ c.rateLimit, ∃ r' ∈ limitFor s.server.credentials c.name, r'.Within r

theorem limitedTimes_append (name : JsString) (sent more : List (Nat × Forward)) :
    limitedTimes name (sent ++ more) = limitedTimes name sent ++ limitedTimes name more := by
  unfold limitedTimes
  rw [List.filter_append, List.map_append]

theorem timesOf_sublist {c : CredentialRule} (h : c.rateLimit.isSome = true) (sent : List (Nat × Forward)) :
    (timesOf c sent).Sublist (limitedTimes c.name sent) := by
  refine (List.monotone_filter_right sent fun x hx => ?_).map _
  rw [of_decide_eq_true hx]
  exact decide_eq_true ⟨rfl, h⟩

theorem withinLimits_of_inv {s : St} (h : Inv s) : WithinLimits s := by
  intro c r hr
  cases hsent : timesOf c s.sent with
  | nil => exact paced_nil _ _
  | cons t times =>
    -- the limit under whose name it was sent
    have hmem : t ∈ timesOf c s.sent := by
      rw [hsent]
      exact List.mem_cons_self ..
    obtain ⟨x, hx, -⟩ := List.mem_map.mp hmem
    obtain ⟨hx, hc⟩ := List.mem_filter.mp hx
    obtain ⟨r', hr', hrequests, hwindow⟩ := h.registered x hx c (of_decide_eq_true hc) r hr
    have hlimit := h.limits c.name
    rw [Option.mem_def.mp hr'] at hlimit
    obtain ⟨entry, hentry, rfl⟩ := Option.map_eq_some_iff.mp hlimit
    have hpaced := (h.counts c.name entry hentry).2
    rw [← hsent]
    refine (hpaced.sublist (timesOf_sublist (by rw [hr]; rfl) s.sent)).weaken hrequests ?_
    unfold RateLimitRule.windowMs
    omega

theorem inv_fresh (s : Server) (credentials : List CredentialRule) (hcredentials : s.credentials = credentials)
    (hlimiter : s.rateLimiter = buildRateLimiter credentials) (tunnels : List Tunnel) (now : Nat) :
    Inv ⟨s, tunnels, now, []⟩ where
  limits name := by
    show (AList.lookup name s.rateLimiter).map (·.rule) = limitFor s.credentials name
    rw [hlimiter, lookup_buildRateLimiter, hcredentials, Option.map_map]
    exact Option.map_id'
  counts name entry _ := ⟨List.nil_sublist _, paced_nil _ _⟩
  registered := List.forall_mem_nil _

/-- Nothing that counts is sent. -/
theorem inv_quiet {s t : St} (h : Inv s) (hnow : s.now ≤ t.now) (hsame : s.server.Same t.server)
    (hlimiter : t.server.rateLimiter = s.server.rateLimiter ∨
      ∃ name, t.server.rateLimiter = (s.server.rateLimiter.consume name t.now).1)
    {more : List (Nat × Forward)} (hsent : t.sent = s.sent ++ more)
    (hmore : ∀ x ∈ more, ∀ c ∈ x.2.credential, c.rateLimit = none) : Inv t := by
  have hnone : ∀ name, limitedTimes name t.sent = limitedTimes name s.sent := by
    intro name
    have hfilter : limitedTimes name more = [] := by
      refine List.map_eq_nil_iff.mpr (List.filter_eq_nil_iff.mpr fun x hx hlimited => ?_)
      obtain ⟨c, hc, hname⟩ := (Option.any_eq_true _ _).mp hlimited
      have hsome := (of_decide_eq_true hname).2
      rw [hmore x hx c hc] at hsome
      cases hsome
    rw [hsent, limitedTimes_append, hfilter, List.append_nil]
  refine ⟨fun name => ?_, fun name => ?_, fun x hx c hc r hr => ?_⟩
  · rw [hsame.credentials, ← h.limits name]
    rcases hlimiter with heq | ⟨other, heq⟩
    · rw [heq]
    · rw [heq, consume_rule]
  · rw [hnone name]
    rcases hlimiter with heq | ⟨other, heq⟩
    · rw [heq]
      exact (h.counts name).later hnow
    · rw [heq]
      exact (h.counts name).consume hnow other
  · rw [hsame.credentials]
    rw [hsent] at hx
    rcases List.mem_append.mp hx with hx | hx
    · exact h.registered x hx c hc r hr
    · have hlimit := hmore x hx c hc
      rw [hlimit] at hr
      cases hr

/-- A plain request is sent with a limited credential. -/
theorem inv_sent {s t : St} {c : CredentialRule} {f : Forward} (h : Inv s) (hnow : s.now ≤ t.now) (hsame : s.server.Same t.server)
    (hlimiter : t.server.rateLimiter = (s.server.rateLimiter.consume c.name t.now).1)
    (hallowed : (s.server.rateLimiter.consume c.name t.now).2.allowed = true) (hsent : t.sent = s.sent ++ [(t.now, f)])
    (hf : f.credential = some c)
    (hregistered : ∀ r ∈ c.rateLimit, ∃ r' ∈ limitFor s.server.credentials c.name, r'.Within r)
    (hlimited : c.rateLimit.isSome = true) :
    Inv t := by
  refine ⟨fun name => ?_, fun name => ?_, fun x hx c' hc r hr => ?_⟩
  · rw [hsame.credentials, ← h.limits name, hlimiter, consume_rule]
  · rw [hsent, limitedTimes_append, hlimiter]
    by_cases hname : c.name = name
    · have hlast : limitedTimes name [(t.now, f)] = [t.now] := by
        simp [limitedTimes, hf, hname, hlimited]
      rw [hlast, ← hname]
      exact (h.counts c.name).sent hnow hallowed
    · have hlast : limitedTimes name [(t.now, f)] = [] := by
        simp [limitedTimes, hf, hname]
      rw [hlast, List.append_nil]
      exact (h.counts name).consume hnow c.name
  · rw [hsame.credentials]
    rw [hsent] at hx
    rcases List.mem_append.mp hx with hx | hx
    · exact h.registered x hx c' hc r hr
    · rw [List.mem_singleton.mp hx] at hc
      obtain rfl := Option.some.inj (hf.symm.trans hc)
      exact hregistered r hr

theorem credential_some {f : Forward} {c : CredentialRule} (h : f.credential = some c) :
    ∃ value, f.injected = some (c, value) := by
  obtain ⟨⟨c', value⟩, hinjected, rfl⟩ := Option.map_eq_some_iff.mp h
  exact ⟨value, hinjected⟩

theorem inv_request {hosts : Url.HostParser} {s t : St} {now : Nat} {req : IncomingMessage} (h : Inv s)
    (hc : Charged hosts s (.request now req)) (htime : s.now ≤ now) (hnow : t.now = now)
    (hserver : t.server = (s.server.handleRequest hosts now req).1)
    (hsent : t.sent = s.sent ++ (s.server.handleRequest hosts now req).2.sent now) : Inv t := by
  obtain rfl := hnow
  have hsame := hserver ▸ handleRequest_same hosts s.server t.now req
  by_cases hlimited : ∃ f c, (s.server.handleRequest hosts t.now req).2.forward? = some f ∧ f.credential = some c ∧
      c.rateLimit.isSome = true
  · obtain ⟨f, c, hf, hcredential, hlimit⟩ := hlimited
    obtain ⟨value, hinjected⟩ := credential_some hcredential
    obtain ⟨u, hu, hlets, hfound, hproto, -⟩ := plain_injected hf hinjected
    have hcharge := hlets.1
    rw [hfound] at hcharge
    obtain ⟨hlimiter, hallowed⟩ := charge_limited hlimit hcharge
    refine inv_sent h htime hsame ?_ hallowed ?_ hcredential (hc u hu hlets c hfound hproto) hlimit
    · rw [hserver, handleRequest_limiter hu]
      rw [hfound, hlimiter]
    · rw [hsent, Answer.sent, hf]
      rfl
  · refine inv_quiet h htime hsame ?_ hsent fun x hx c hcredential => ?_
    · rw [hserver]
      cases hu : Url.parse hosts req.url with
      | none =>
        rw [(handleRequest_unparsed hu _ _).1]
        exact .inl rfl
      | some u =>
        rw [handleRequest_limiter hu]
        exact charge_cases ..
    · obtain ⟨-, hf⟩ := mem_sent (t := x.1) (f := x.2) hx
      cases hlimit : c.rateLimit with
      | none => rfl
      | some r => exact absurd ⟨x.2, c, hf, hcredential, by rw [hlimit]; rfl⟩ hlimited

theorem inv_step {hosts : Url.HostParser} {s t : St} {e : Ev} (h : Inv s) (hc : Charged hosts s e)
    (hs : step hosts s e = some t) :
    Inv t := by
  obtain ⟨htime, hnow, hmoved⟩ := step_moved hs
  cases e with
  | request now req =>
    obtain ⟨hserver, -, hsent⟩ := hmoved
    exact inv_request h hc htime hnow hserver hsent
  | connect now target =>
    obtain ⟨hserver, -, hsent⟩ := hmoved
    obtain rfl : t.now = now := hnow
    have hnothing : t.sent = s.sent ++ [] := by rw [hsent, List.append_nil]
    refine inv_quiet h htime (hserver ▸ handleConnect_same ..) ?_ hnothing (List.forall_mem_nil _)
    obtain ⟨credential, hlimiter⟩ := handleConnect_limiter s.server t.now target
    rw [hserver, hlimiter]
    exact charge_cases ..
  | mitmRequest now i req =>
    obtain ⟨tunnel, htunnel, hserver, -, hsent⟩ := hmoved
    obtain rfl : t.now = now := hnow
    refine inv_quiet h htime (hserver ▸ handleMitmRequest_same ..) (.inl ?_) hsent fun x hx c hcredential => ?_
    · rw [hserver]
      exact handleMitmRequest_limiter ..
    · obtain ⟨-, hf⟩ := mem_sent (t := x.1) (f := x.2) hx
      obtain ⟨value, hinjected⟩ := credential_some hcredential
      obtain ⟨hselected, hlets, hproto, -⟩ := mitm_lets_through hf hinjected
      exact hc tunnel htunnel c hselected hlets hproto
  | sighup now newRules =>
    obtain ⟨hserver, -, hsent⟩ := hmoved
    have hfresh := inv_fresh t.server newRules.credentials (by rw [hserver]; rfl) (by rw [hserver]; rfl) t.tunnels t.now
    rw [← hsent] at hfresh
    exact hfresh

theorem inv {hosts : Url.HostParser} {ca : Bool} {activeCredentialMethod : Option CredentialMethod} {rules : CredentialRules}
    {s : St} (h : Reach (proxy hosts ca activeCredentialMethod rules) (Charged hosts) s) : Inv s :=
  h.inv (inv_fresh _ rules.credentials rfl rfl [] 0) fun _ _ _ _ hi hc hs => inv_step hi hc hs

/-- Where every request with a limited credential is charged, to a limit no looser, the limits hold. -/
theorem sends_within_limit {hosts : Url.HostParser} {ca : Bool} {activeCredentialMethod : Option CredentialMethod}
    {rules : CredentialRules} {s : St} (h : Reach (proxy hosts ca activeCredentialMethod rules) (Charged hosts) s) :
    WithinLimits s := withinLimits_of_inv (inv h)

/-! ## A tunnel with a limited credential -/

/-- One request a minute. -/
def limitedRule : CredentialRule :=
  ⟨ofString "Anthropic", ofString "api.anthropic.com", ofString "x-api-key", ofString "sk-ant", none,
    some ⟨1, 60, by decide⟩, none, none, none, anthropic_valid⟩

def limitedProxy : System St Ev := proxy Url.asciiHosts true none ⟨[limitedRule], [], []⟩

theorem path_plain : ∀ u ∈ ofString "/v1/messages", 0x20 < u ∧ u ≤ 0xFF := by decide

def getInTunnel : IncomingMessage where
  method := ofString "GET"
  url := ofString "/v1/messages"
  headers := ∅
  body := []
  plain := path_plain
  framed := no_body_framed

instance (hosts : Url.HostParser) (s : St) : (e : Ev) → Decidable (Charged hosts s e)
  | .request .. => inferInstanceAs (Decidable (∀ _ ∈ _, _ → ∀ _ ∈ _, _ → ∀ _ ∈ _, ∃ _ ∈ _, _))
  | .mitmRequest .. => inferInstanceAs (Decidable (∀ _ ∈ _, ∀ _ ∈ _, _ → _ → _))
  | .connect .. | .sighup .. => inferInstanceAs (Decidable True)

/-- Of two plain requests in a minute one is let through; after it a third is. -/
theorem plain_sends_within_limit : ∃ s, s.sent.length = 2 ∧ WithinLimits s := by
  have hrun : ∃ s, Reach limitedProxy (Charged Url.asciiHosts) s ∧ decide (s.sent.length = 2) = true :=
    reach_any (M := limitedProxy) [.request 0 getMessages, .request 1 getMessages, .request 60000 getMessages]
      (by decide) (by decide)
  obtain ⟨s, hs, hsent⟩ := hrun
  exact ⟨s, of_decide_eq_true hsent, sends_within_limit hs⟩

theorem a_tunnel_exceeds_the_limit : ∃ s, Reach limitedProxy Free s ∧ ¬WithinLimits s := by
  have hrun : ∃ s, Reach limitedProxy Free s ∧ decide (timesOf limitedRule s.sent = [0, 1]) = true :=
    reach_any (M := limitedProxy) (C := Free)
      [.connect 0 (ofString "api.anthropic.com:443"), .mitmRequest 0 0 getInTunnel, .mitmRequest 1 0 getInTunnel]
      (meets_free ..) (by decide)
  obtain ⟨s, hs, htimes⟩ := hrun
  refine ⟨s, hs, fun h => ?_⟩
  have hpaced := h limitedRule ⟨1, 60, by decide⟩ rfl 0
  rw [of_decide_eq_true htimes] at hpaced
  exact absurd hpaced (by decide)

end FlowHelm.Proxy
