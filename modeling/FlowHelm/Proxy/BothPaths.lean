/-
  FlowHelm.Proxy.BothPaths — the request rules on a parsed URL and on a raw target.

  A plain request is judged by the path of its URL, with dots resolved; in a tunnel the target
  is judged as it was written, and sent so. The upstream resolves what it gets.

  - `same_rules`: the two agree just if the prefixes find the raw target and the resolved path
    alike, and a path that is not the web's is not resolved further.
  - `dots_leave_the_prefix`: `/v1/../admin` where `/v1/` is allowed.
-/
import FlowHelm.Proxy.BodySize

namespace FlowHelm.Proxy

open Js

/-- A target in absolute form is the URL; in origin form it is what follows the host. -/
inductive SameTarget : JsString → JsString → Prop
  | absoluteForm (url : JsString) : SameTarget url url
  | originForm {authority target : JsString} : Url.Authority authority → target.head? = some Url.slash →
      SameTarget (Url.absolute authority target) target

/-- A request sent as a plain one and in a tunnel. -/
structure SentTwice (hosts : Url.HostParser) where
  plain : IncomingMessage
  inTunnel : IncomingMessage
  targetUrl : Url.Parsed
  parsed : Url.parse hosts plain.url = some targetUrl
  method : inTunnel.method = plain.method
  headers : inTunnel.headers = plain.headers
  target : SameTarget plain.url inTunnel.url

/-- The path the upstream finds in a target. -/
def upstreamPath (hosts : Url.HostParser) (target : JsString) : JsString := match Url.parse hosts target with
  | some u => u.pathname
  | none => Url.resolve target

def CredentialRule.allowsPath (c : CredentialRule) (path : JsString) : Bool := c.rules.all (·.allowsPath path)

/-- The decisions are the same, and what is forwarded has an allowed path upstream. -/
structure SameRules {hosts : Url.HostParser} (c : CredentialRule) (r : SentTwice hosts) : Prop where
  decision : (requestRules c r.plain r.targetUrl.pathname).bind Answer.status =
    enforceRules c r.inTunnel.method r.inTunnel.url r.inTunnel.contentLength
  plain : requestRules c r.plain r.targetUrl.pathname = none →
    c.allowsPath (upstreamPath hosts (r.targetUrl.pathname ++ r.targetUrl.search)) = true
  inTunnel : enforceRules c r.inTunnel.method r.inTunnel.url r.inTunnel.contentLength = none →
    c.allowsPath (upstreamPath hosts r.inTunnel.url) = true

/-- The prefixes find the target as they find the path, which stays what it is. -/
def Alike {hosts : Url.HostParser} (c : CredentialRule) (r : SentTwice hosts) : Prop :=
  ∀ rules, c.rules = some rules → rules.allowsMethod r.plain.method = true →
    rules.allowsPath r.inTunnel.url = rules.allowsPath r.targetUrl.pathname ∧
      (r.targetUrl.kind.isSpecial = true ∨ (rules.allowsPath r.targetUrl.pathname = true →
        rules.allowsSize r.plain.contentLength = true →
        rules.allowsPath (upstreamPath hosts (r.targetUrl.pathname ++ r.targetUrl.search)) = true))

/-! ## What the upstream finds -/

theorem upstreamPath_slash (hosts : Url.HostParser) {target : JsString} (h : target.head? = some Url.slash) :
    upstreamPath hosts target = Url.resolve target := by
  unfold upstreamPath
  rw [Url.parse_slash hosts h]

theorem upstreamPath_target {hosts : Url.HostParser} (r : SentTwice hosts) :
    upstreamPath hosts r.inTunnel.url = r.targetUrl.pathname := by
  have hparsed := r.parsed
  have htarget := r.target
  have hunits := r.inTunnel.plain
  generalize r.plain.url = url at hparsed htarget
  generalize r.inTunnel.url = target at htarget hunits
  cases htarget with
  | absoluteForm =>
    unfold upstreamPath
    rw [hparsed]
  | originForm ha ht =>
    rw [upstreamPath_slash hosts ht]
    exact (Url.parse_absolute ha ht (fun u hu => (hunits u hu).1) hparsed).2.2.symm

theorem upstreamPath_special {hosts : Url.HostParser} (r : SentTwice hosts) (hk : r.targetUrl.kind.isSpecial = true) :
    upstreamPath hosts (r.targetUrl.pathname ++ r.targetUrl.search) = r.targetUrl.pathname := by
  have hhead : (r.targetUrl.pathname ++ r.targetUrl.search).head? = some Url.slash := by
    rw [List.head?_append, Url.head_pathname r.parsed hk]
    rfl
  rw [upstreamPath_slash hosts hhead]
  exact Url.resolve_pathname r.parsed hk

/-! ## The two decisions -/

theorem decision_plain (c : CredentialRule) (req : IncomingMessage) (path : JsString) :
    (requestRules c req path).bind Answer.status = enforceRules c req.method path req.contentLength := by
  have hstatus := requestRules_status c req path
  cases hanswer : requestRules c req path with
  | none =>
    rw [hanswer] at hstatus
    exact (Option.map_eq_none_iff.mp hstatus.symm).symm
  | some answer =>
    rw [hanswer] at hstatus
    obtain ⟨status, hstatus, heq⟩ := Option.map_eq_some_iff.mp hstatus.symm
    rw [hstatus]
    exact heq.symm

theorem contentLength_twice {hosts : Url.HostParser} (r : SentTwice hosts) :
    r.inTunnel.contentLength = r.plain.contentLength := by
  unfold IncomingMessage.contentLength
  rw [r.headers]

theorem enforceRules_none {c : CredentialRule} {method path : JsString} {contentLength : Rat} {rules : RequestRules}
    (hrules : c.rules = some rules) (h : enforceRules c method path contentLength = none) :
    rules.allowsMethod method = true ∧ rules.allowsPath path = true ∧ rules.allowsSize contentLength = true := by
  rw [enforceRules_eq, hrules, Option.bind_some] at h
  split at h
  · rename_i hallowed
    split at h
    · exact ⟨hallowed.1, hallowed.2, ‹_›⟩
    · cases h
  · cases h

/-- With one verdict on the path, there is one on the request. -/
theorem enforceRules_congr {c : CredentialRule} {method path path' : JsString} {contentLength : Rat}
    (h : ∀ rules, c.rules = some rules → rules.allowsMethod method = true → rules.allowsPath path' = rules.allowsPath path) :
    enforceRules c method path' contentLength = enforceRules c method path contentLength := by
  rw [enforceRules_eq, enforceRules_eq]
  cases hrules : c.rules with
  | none => rfl
  | some rules =>
    dsimp only [Option.bind_some]
    by_cases hmethod : rules.allowsMethod method = true
    · rw [h rules hrules hmethod]
    · rw [if_neg fun hall => hmethod hall.1, if_neg fun hall => hmethod hall.1]

theorem allowsPath_of_enforceRules {c : CredentialRule} {method path : JsString} {contentLength : Rat}
    (h : enforceRules c method path contentLength = none) : c.allowsPath path = true := by
  unfold CredentialRule.allowsPath
  cases hrules : c.rules with
  | none => rfl
  | some rules => exact (enforceRules_none hrules h).2.1

theorem sameRules_of_alike {hosts : Url.HostParser} {c : CredentialRule} {r : SentTwice hosts} (h : Alike c r) :
    SameRules c r := by
  have hsame : enforceRules c r.inTunnel.method r.inTunnel.url r.inTunnel.contentLength =
      enforceRules c r.plain.method r.targetUrl.pathname r.plain.contentLength := by
    rw [r.method, contentLength_twice r]
    exact enforceRules_congr fun rules hrules hmethod => (h rules hrules hmethod).1
  refine ⟨(decision_plain ..).trans hsame.symm, fun hnone => ?_, fun hnone => ?_⟩
  · have henforce := requestRules_eq_none.mp hnone
    unfold CredentialRule.allowsPath
    cases hrules : c.rules with
    | none => rfl
    | some rules =>
      obtain ⟨hmethod, hpath, hsize⟩ := enforceRules_none hrules henforce
      rcases (h rules hrules hmethod).2 with hk | hresolved
      · rw [upstreamPath_special r hk]
        exact hpath
      · exact hresolved hpath hsize
  · rw [upstreamPath_target r]
    exact allowsPath_of_enforceRules (hsame.symm.trans hnone)

theorem alike_of_sameRules {hosts : Url.HostParser} {c : CredentialRule} {r : SentTwice hosts} (h : SameRules c r) :
    Alike c r := by
  intro rules hrules hmethod
  have hdecision := h.decision
  rw [decision_plain, r.method, contentLength_twice r, enforceRules_eq, enforceRules_eq, hrules] at hdecision
  dsimp only [Option.bind_some] at hdecision
  refine ⟨?_, ?_⟩
  · -- a refusal of the path is no refusal of the size
    cases hplain : rules.allowsPath r.targetUrl.pathname <;> cases htarget : rules.allowsPath r.inTunnel.url
    · rfl
    · rw [hplain, htarget, if_neg fun hall => Bool.false_ne_true hall.2, if_pos ⟨hmethod, rfl⟩] at hdecision
      split at hdecision
      · cases hdecision
      · exact absurd hdecision (by decide)
    · have hrefused : ¬(rules.allowsMethod r.plain.method = true ∧ false = true) := fun hall => Bool.false_ne_true hall.2
      rw [hplain, htarget, if_pos ⟨hmethod, rfl⟩, if_neg hrefused] at hdecision
      split at hdecision
      · cases hdecision
      · exact absurd hdecision (by decide)
    · rfl
  · refine .inr fun hpath hsize => ?_
    have hnone : requestRules c r.plain r.targetUrl.pathname = none := by
      rw [requestRules_eq_none, enforceRules_eq, hrules, Option.bind_some, if_pos ⟨hmethod, hpath⟩, if_pos hsize]
    have hallowed := h.plain hnone
    unfold CredentialRule.allowsPath at hallowed
    rw [hrules] at hallowed
    exact hallowed

/-- The two paths agree on a request just if the prefixes find it alike. -/
theorem same_rules (hosts : Url.HostParser) (c : CredentialRule) (r : SentTwice hosts) : SameRules c r ↔ Alike c r :=
  ⟨alike_of_sameRules, sameRules_of_alike⟩

/-! ## Dots behind a prefix -/

/-- `/v1/` is allowed. -/
def prefixRule : CredentialRule :=
  ⟨ofString "Anthropic", ofString "api.anthropic.com", ofString "x-api-key", ofString "sk-ant", none, none,
    some ⟨none, some [ofString "/v1/"], none⟩, none, none, anthropic_valid⟩

def getRequest (url : String) (h : ∀ u ∈ ofString url, 0x20 < u ∧ u ≤ 0xFF) : IncomingMessage where
  method := ofString "GET"
  url := ofString url
  headers := ∅
  body := []
  plain := h
  framed := no_body_framed

def dottedTwice : SentTwice Url.asciiHosts where
  plain := getRequest "http://api.anthropic.com/v1/../admin" (by decide)
  inTunnel := getRequest "/v1/../admin" (by decide)
  targetUrl := ⟨.special, ofString "api.anthropic.com", ofString "/admin", []⟩
  parsed := by decide
  method := rfl
  headers := rfl
  target := by
    have hurl : ofString "http://api.anthropic.com/v1/../admin" =
        Url.absolute (ofString "api.anthropic.com") (ofString "/v1/../admin") := by decide
    show SameTarget (ofString "http://api.anthropic.com/v1/../admin") _
    rw [hurl]
    exact .originForm ⟨by decide, by decide⟩ (by decide)

/-- The tunnel forwards what the plain path refuses. -/
theorem dots_leave_the_prefix : ¬SameRules prefixRule dottedTwice := by
  intro h
  have hdecision := h.decision
  rw [decision_plain] at hdecision
  have hplain : enforceRules prefixRule dottedTwice.plain.method dottedTwice.targetUrl.pathname
      dottedTwice.plain.contentLength = some 403 := by decide
  have htunnel : enforceRules prefixRule dottedTwice.inTunnel.method dottedTwice.inTunnel.url
      dottedTwice.inTunnel.contentLength = none := by decide
  rw [hplain, htunnel] at hdecision
  cases hdecision

end FlowHelm.Proxy
