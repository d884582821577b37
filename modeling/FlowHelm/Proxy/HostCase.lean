/-
  FlowHelm.Proxy.HostCase — ASCII case in a hostname, a pattern and a bypass entry.

  A pattern keeps the case it was stored in and is compared as it is. The hostname of a plain
  request comes out of the URL parser, that of a CONNECT as it was written.

  - `blind_to_case`: case decides nothing just if no rule matches through letters, and no
    bypass entry is the hostname with letters, up to case.
  - `capitals_match_nothing`: a pattern stored with a capital, on both paths.
-/
import FlowHelm.Lib.UrlCase
import FlowHelm.Proxy.BillingMethod

namespace FlowHelm.Proxy

open Js Url

/-! ## Patterns in another case -/

theorem blind_alnum : Blind isAlnum := by
  refine .of_letters true fun u hu => ?_
  unfold isAlpha at hu
  unfold isAlnum
  rw [Bool.or_assoc, hu, Bool.or_true]

theorem isLabel_lower (s : JsString) : isLabel (asciiLower s) = isLabel s := by
  have hlast : (asciiLower s).getLast?.any isAlnum = s.getLast?.any isAlnum := by
    rw [asciiLower_eq, List.getLast?_map]
    cases s.getLast? with
    | none => rfl
    | some u => exact blind_alnum u
  unfold isLabel
  rw [blind_alnum.head, hlast, (blind_alnum.or (.eq (by decide))).all]

theorem wildcard_lower (s : JsString) : wildcard.isPrefixOf (asciiLower s) = wildcard.isPrefixOf s := by
  have hstar : ∀ u, ((0x2A : UInt16) == lowerUnit u) = (0x2A == u) :=
    Blind.of_letters false fun u hu => beq_false_of_ne (letter_ne hu (by decide)).symm
  have hdot : ∀ u, ((0x2E : UInt16) == lowerUnit u) = (0x2E == u) :=
    Blind.of_letters false fun u hu => beq_false_of_ne (letter_ne hu (by decide)).symm
  match s with
  | [] => rfl
  | [a] =>
    show ((0x2A : UInt16) == lowerUnit a && false) = (0x2A == a && false)
    rw [Bool.and_false, Bool.and_false]
  | a :: b :: rest =>
    show ((0x2A : UInt16) == lowerUnit a && ((0x2E : UInt16) == lowerUnit b && true)) = (0x2A == a && (0x2E == b && true))
    rw [hstar a, hdot b]

/-- What the schema asks of a pattern does not depend on case. -/
theorem isHostPattern_case {a b : JsString} (h : asciiLower a = asciiLower b) : isHostPattern a = isHostPattern b := by
  have hlower : ∀ s, isHostPattern (asciiLower s) = isHostPattern s := by
    intro s
    have hrest : (if wildcard.isPrefixOf s then (asciiLower s).drop 2 else asciiLower s) =
        asciiLower (if wildcard.isPrefixOf s then s.drop 2 else s) := by
      split
      · exact asciiLower_drop 2 s
      · rfl
    unfold isHostPattern
    rw [wildcard_lower, hrest, List.splitOn_eq_splitOnP, List.splitOn_eq_splitOnP, splitOnP_lower (.eq (by decide)), List.all_map]
    exact congrArg (List.all _) (funext isLabel_lower)
  rw [← hlower a, h, hlower b]

/-- The pattern written in another case. -/
def CredentialRule.recase (c : CredentialRule) (pattern : JsString) (h : asciiLower pattern = asciiLower c.hostPattern) :
    CredentialRule :=
  { c with hostPattern := pattern, valid := ⟨c.valid.1, c.valid.2.1, (isHostPattern_case h).trans c.valid.2.2.1, c.valid.2.2.2⟩ }

/-- The same rule, its pattern in whatever case. -/
inductive Recased (c : CredentialRule) : CredentialRule → Prop
  | intro (pattern : JsString) (h : asciiLower pattern = asciiLower c.hostPattern) : Recased c (c.recase pattern h)

/-! ## One pattern -/

/-- Up to case the pattern matches, and it has letters. -/
def MatchesLetters (hostname pattern : JsString) : Prop :=
  matchesHostPattern (asciiLower hostname) (asciiLower pattern) = true ∧ hasLetter pattern = true

theorem matches_wildcard {hostname pattern : JsString} (h : wildcard.isPrefixOf pattern = true) :
    matchesHostPattern hostname pattern = true ↔
      pattern.drop 1 <:+ hostname ∧ (pattern.drop 1).length < hostname.length := by
  unfold matchesHostPattern
  rw [if_pos h]
  dsimp only
  rw [Bool.and_eq_true, List.isSuffixOf_iff_suffix, decide_eq_true_eq]

theorem matches_exact {hostname pattern : JsString} (h : wildcard.isPrefixOf pattern = false) :
    matchesHostPattern hostname pattern = true ↔ hostname = pattern := by
  unfold matchesHostPattern
  rw [if_neg (by rw [h]; exact Bool.false_ne_true), beq_iff_eq]

theorem wildcard_case {p p' : JsString} (h : asciiLower p' = asciiLower p) : wildcard.isPrefixOf p' = wildcard.isPrefixOf p := by
  rw [← wildcard_lower p', h, wildcard_lower p]

theorem star_of_wildcard {pattern : JsString} (h : wildcard.isPrefixOf pattern = true) : pattern = 0x2A :: pattern.drop 1 := by
  cases pattern with
  | nil => cases h
  | cons u rest =>
    have hstar := ((Bool.and_eq_true ..).mp (show ((0x2A : UInt16) == u && _) = true from h)).1
    rw [← eq_of_beq hstar]
    rfl

/-- What matches as it is matches up to case. -/
theorem matches_lower {hostname pattern : JsString} (h : matchesHostPattern hostname pattern = true) :
    matchesHostPattern (asciiLower hostname) (asciiLower pattern) = true := by
  cases hwild : wildcard.isPrefixOf pattern with
  | true =>
    obtain ⟨⟨before, hsuffix⟩, hlength⟩ := (matches_wildcard hwild).mp h
    rw [matches_wildcard ((wildcard_lower pattern).trans hwild), asciiLower_drop, length_asciiLower, length_asciiLower]
    exact ⟨⟨asciiLower before, by rw [← asciiLower_append, hsuffix]⟩, hlength⟩
  | false =>
    rw [matches_exact ((wildcard_lower pattern).trans hwild), (matches_exact hwild).mp h]

/-- A pattern that matches up to case matches when it is written as the hostname has it. -/
theorem exists_match {hostname pattern : JsString} (h : matchesHostPattern (asciiLower hostname) (asciiLower pattern) = true) :
    ∃ pattern', asciiLower pattern' = asciiLower pattern ∧ matchesHostPattern hostname pattern' = true := by
  cases hwild : wildcard.isPrefixOf pattern with
  | true =>
    obtain ⟨⟨before, hsuffix⟩, hlength⟩ := (matches_wildcard ((wildcard_lower pattern).trans hwild)).mp h
    rw [asciiLower_drop] at hsuffix hlength
    rw [length_asciiLower, length_asciiLower] at hlength
    have hlower : asciiLower (hostname.drop before.length) = asciiLower (pattern.drop 1) := by
      rw [← asciiLower_drop, ← hsuffix, List.drop_left]
    have hcase : asciiLower (0x2A :: hostname.drop before.length) = asciiLower pattern := by
      rw [star_of_wildcard hwild]
      exact congrArg (lowerUnit 0x2A :: ·) hlower
    refine ⟨0x2A :: hostname.drop before.length, hcase, ?_⟩
    rw [matches_wildcard ((wildcard_case hcase).trans hwild)]
    refine ⟨List.drop_suffix before.length hostname, ?_⟩
    show (hostname.drop before.length).length < hostname.length
    rw [← length_asciiLower, hlower, length_asciiLower]
    exact hlength
  | false =>
    refine ⟨hostname, (matches_exact ((wildcard_lower pattern).trans hwild)).mp h, ?_⟩
    have hcase := (matches_exact ((wildcard_lower pattern).trans hwild)).mp h
    exact (matches_exact ((wildcard_case hcase).trans hwild)).mpr rfl

/-- A hostname is matched by one way to write a pattern at most. -/
theorem matches_unique {hostname p p' : JsString} (hcase : asciiLower p' = asciiLower p)
    (h : matchesHostPattern hostname p = true)
    (h' : matchesHostPattern hostname p' = true) : p' = p := by
  cases hwild : wildcard.isPrefixOf p with
  | true =>
    obtain ⟨hsuffix, -⟩ := (matches_wildcard hwild).mp h
    obtain ⟨hsuffix', -⟩ := (matches_wildcard ((wildcard_case hcase).trans hwild)).mp h'
    have hlength : p'.length = p.length := by rw [← length_asciiLower, hcase, length_asciiLower]
    have hdrop : p'.drop 1 = p.drop 1 := by
      refine List.IsSuffix.eq_of_length (List.suffix_of_suffix_length_le hsuffix' hsuffix ?_) ?_
      · rw [List.length_drop, List.length_drop, hlength]
      · rw [List.length_drop, List.length_drop, hlength]
    rw [star_of_wildcard hwild, star_of_wildcard ((wildcard_case hcase).trans hwild), hdrop]
  | false =>
    rw [← (matches_exact hwild).mp h]
    exact ((matches_exact ((wildcard_case hcase).trans hwild)).mp h').symm

/-- Case decides nothing about a pattern that does not match through letters. -/
theorem matches_case {hostname hostname' pattern pattern' : JsString} (h : ¬MatchesLetters hostname pattern)
    (hhost : asciiLower hostname' = asciiLower hostname) (hpattern : asciiLower pattern' = asciiLower pattern) :
    matchesHostPattern hostname' pattern' = matchesHostPattern hostname pattern := by
  by_cases hmatch : matchesHostPattern (asciiLower hostname) (asciiLower pattern) = true
  · have hletters : hasLetter pattern = false := by
      rw [← Bool.not_eq_true]
      exact fun hletters => h ⟨hmatch, hletters⟩
    -- there is one way to write it
    have hsame : ∀ p, asciiLower p = asciiLower pattern → p = pattern := fun p hp => eq_of_no_letter hp hletters
    have hmatch' : matchesHostPattern (asciiLower hostname') (asciiLower pattern) = true := by rw [hhost, hmatch]
    obtain ⟨p, hp, hm⟩ := exists_match hmatch
    obtain ⟨p', hp', hm'⟩ := exists_match hmatch'
    rw [hsame p hp] at hm
    rw [hsame p' hp'] at hm'
    rw [hsame pattern' hpattern, hm, hm']
  · have hno : matchesHostPattern hostname pattern = false := by
      rw [← Bool.not_eq_true]
      exact fun hm => hmatch (matches_lower hm)
    have hno' : matchesHostPattern hostname' pattern' = false := by
      rw [← Bool.not_eq_true]
      intro hm
      have hlower := matches_lower hm
      rw [hhost, hpattern] at hlower
      exact hmatch hlower
    rw [hno, hno']

/-- One that does decides by how it is written. -/
theorem exists_recased {hostname pattern : JsString} (h : MatchesLetters hostname pattern) : ∃ pattern',
    asciiLower pattern' = asciiLower pattern ∧ matchesHostPattern hostname pattern' ≠ matchesHostPattern hostname pattern := by
  by_cases hmatch : matchesHostPattern hostname pattern = true
  · obtain ⟨other, hother, hne⟩ := exists_other h.2
    exact ⟨other, hother, fun heq => hne (matches_unique hother hmatch (heq.trans hmatch))⟩
  · obtain ⟨other, hother, hm⟩ := exists_match h.1
    exact ⟨other, hother, fun heq => hmatch (heq.symm.trans hm)⟩

/-! ## Rules -/

/-- No rule matches through letters. -/
def CaseFree (rules : List CredentialRule) (hostname : JsString) : Prop := ∀ c ∈ rules, ¬MatchesLetters hostname c.hostPattern

/-- Which of the rules match. -/
def matching (rules : List CredentialRule) (hostname : JsString) : List Bool := rules.map (·.matches hostname)

theorem matching_case {rules rules' : List CredentialRule} {hostname hostname' : JsString} (h : CaseFree rules hostname)
    (hrules : List.Forall₂ Recased rules rules') (hhost : asciiLower hostname' = asciiLower hostname) :
    matching rules' hostname' = matching rules hostname := by
  induction hrules with
  | nil => rfl
  | cons hc _ ih =>
    obtain ⟨pattern, hpattern⟩ := hc
    have hhead := matches_case (h _ (List.mem_cons_self ..)) hhost hpattern
    have htail := ih fun c hc => h c (List.mem_cons_of_mem _ hc)
    exact congrArg₂ List.cons hhead htail

theorem recased_refl (c : CredentialRule) : Recased c c := .intro c.hostPattern rfl

theorem caseFree_of_matching {rules : List CredentialRule} {hostname : JsString}
    (h : ∀ rules', List.Forall₂ Recased rules rules' → matching rules' hostname = matching rules hostname) :
    CaseFree rules hostname := by
  intro c hc hletters
  obtain ⟨pattern, hpattern, hne⟩ := exists_recased hletters
  let recase (d : CredentialRule) : CredentialRule := if heq : d = c then d.recase pattern (heq ▸ hpattern) else d
  have hrecased : List.Forall₂ Recased rules (rules.map recase) := by
    refine List.forall₂_map_right_iff.mpr (List.forall₂_same.mpr fun d _ => ?_)
    show Recased d (if heq : d = c then d.recase pattern (heq ▸ hpattern) else d)
    split
    · exact .intro pattern _
    · exact recased_refl d
  have hsame := h _ hrecased
  unfold matching at hsame
  rw [List.map_map] at hsame
  have hmatches : (recase c).matches hostname = c.matches hostname := List.map_inj_left.mp hsame c hc
  rw [show recase c = c.recase pattern hpattern from dif_pos rfl] at hmatches
  exact hne hmatches

theorem recased_filter {rules rules' : List CredentialRule} {p q : CredentialRule → Bool} (h : List.Forall₂ Recased rules rules')
    (hpq : ∀ c ∈ rules, ∀ c', Recased c c' → q c' = p c) : List.Forall₂ Recased (rules.filter p) (rules'.filter q) := by
  induction h with
  | nil => exact .nil
  | cons hc _ ih =>
    have hrest := ih fun c hc => hpq c (List.mem_cons_of_mem _ hc)
    rw [List.filter_cons, List.filter_cons, hpq _ (List.mem_cons_self ..) _ hc]
    split
    · exact .cons hc hrest
    · exact hrest

theorem findAll_case {rules rules' : List CredentialRule} {hostname hostname' : JsString} (h : CaseFree rules hostname)
    (hrules : List.Forall₂ Recased rules rules') (hhost : asciiLower hostname' = asciiLower hostname) :
    List.Forall₂ Recased (findAllCredentialsForHost hostname rules) (findAllCredentialsForHost hostname' rules') := by
  refine recased_filter hrules fun c hc c' hc' => ?_
  obtain ⟨pattern, hpattern⟩ := hc'
  exact matches_case (h c hc) hhost hpattern

theorem filter_case {rules rules' : List CredentialRule} (h : List.Forall₂ Recased rules rules')
    (activeMethod : Option CredentialMethod) :
    List.Forall₂ Recased (filterByCredentialMethod rules activeMethod) (filterByCredentialMethod rules' activeMethod) := by
  cases activeMethod with
  | none => exact h
  | some m =>
    refine recased_filter h fun c _ c' hc => ?_
    obtain ⟨pattern, hpattern⟩ := hc
    rfl

/-! ## The plain path -/

/-- On the plain path, which rules match is the same in whatever case URL and patterns are written. -/
def PlainBlind (hosts : HostParser) (s : Server) (url : JsString) : Prop :=
  ∀ url' rules', asciiLower url' = asciiLower url → List.Forall₂ Recased s.credentials rules' →
    (parse hosts url').map (fun u => matching rules' u.hostname) =
    (parse hosts url).map fun u => matching s.credentials u.hostname

theorem plainBlind_iff (hosts : HostParser) (s : Server) (url : JsString) :
    PlainBlind hosts s url ↔ ∀ u, parse hosts url = some u → CaseFree s.credentials u.hostname := by
  constructor
  · intro h u hu
    refine caseFree_of_matching fun rules' hrules => ?_
    have hsame := h url rules' rfl hrules
    rw [hu] at hsame
    exact Option.some.inj hsame
  · intro h url' rules' hurl hrules
    have hhosts := parse_case hosts hurl
    cases hu : parse hosts url with
    | none =>
      rw [hu] at hhosts
      rw [Option.map_eq_none_iff.mp hhosts]
      rfl
    | some u =>
      rw [hu] at hhosts
      obtain ⟨u', hu', hhost⟩ := Option.map_eq_some_iff.mp hhosts
      rw [hu', Option.map_some, Option.map_some, matching_case (h u hu) hrules hhost]

/-! ## CONNECT -/

/-- Whether it is intercepted or passed through, where it is not refused. -/
def Connected.intercepted : Connected → Option Bool
  | mitm _ => some true
  | passthrough .. => some false
  | badRequest | tooManyRequests => none

/-- The same server, its rules and bypass entries in another case. -/
def Server.recase (s : Server) (credentials : List CredentialRule) (pinningBypass : List JsString) : Server :=
  { s with credentials := credentials, pinningBypassSet := pinningBypass }

/-- On CONNECT, which rules match, and whether it is intercepted, is the same in whatever case
    the target, the patterns and the bypass entries are written. -/
def ConnectBlind (s : Server) (now : Nat) (target : JsString) : Prop :=
  ∀ target' rules' bypass', asciiLower target' = asciiLower target → List.Forall₂ Recased s.credentials rules' →
    List.Forall₂ (fun entry entry' => asciiLower entry' = asciiLower entry) s.pinningBypassSet bypass' →
    matching rules' (connectHost target') = matching s.credentials (connectHost target) ∧
      ((s.recase rules' bypass').handleConnect now target').2.intercepted = (s.handleConnect now target).2.intercepted

/-- No bypass entry is the hostname up to case, where that has letters. -/
def BypassFree (bypass : List JsString) (hostname : JsString) : Prop :=
  hasLetter hostname = true → ∀ entry ∈ bypass, asciiLower entry ≠ asciiLower hostname

theorem connectHost_eq (target : JsString) : connectHost target = target.takeWhile (· != colon) := by
  unfold connectHost
  rw [List.splitOn_eq_splitOnP]
  exact headD_splitOnP _ target

theorem connectHost_case {target target' : JsString} (h : asciiLower target' = asciiLower target) :
    asciiLower (connectHost target') = asciiLower (connectHost target) := by
  rw [connectHost_eq, connectHost_eq, ← blind_colon.takeWhile, ← blind_colon.takeWhile, h]

theorem charge_case {s s' : Server} {all all' : List CredentialRule} (hlimiter : s'.rateLimiter = s.rateLimiter)
    (h : List.Forall₂ Recased all all') (now : Nat) : (s'.charge all'.head? now).2 = (s.charge all.head? now).2 := by
  cases h with
  | nil => rfl
  | cons hc hrest =>
    rename_i c c' rest rest'
    obtain ⟨pattern, hpattern⟩ := hc
    unfold Server.charge
    show (if c.rateLimit.isSome = true then _ else _ : Server × Option Answer).2 = _
    dsimp only [List.head?_cons]
    split
    · show (if (s'.rateLimiter.consume c.name now).2.allowed = true then none else _) = _
      rw [hlimiter]
      rfl
    · rfl

theorem intercepted_eq (s : Server) (now : Nat) (target : JsString) : (s.handleConnect now target).2.intercepted =
    if connectHost target = [] ∨ (s.charge (s.allCredentials (connectHost target)).head? now).2.isSome = true then none
    else some (decide (s.allCredentials (connectHost target) ≠ [] ∧ s.mitmEnabled = true ∧
      connectHost target ∉ s.pinningBypassSet)) := by
  rw [handleConnect_eq]
  by_cases hhost : connectHost target = []
  · rw [if_pos hhost, if_pos (.inl hhost)]
    rfl
  · rw [if_neg hhost]
    obtain ⟨t, answer⟩ := s.charge (s.allCredentials (connectHost target)).head? now
    cases answer with
    | some answer => exact (if_pos (.inr rfl)).symm
    | none =>
      have hkept : ¬(connectHost target = [] ∨ (none : Option Answer).isSome = true) := by
        rintro (hnil | hnone)
        · exact hhost hnil
        · cases hnone
      rw [if_neg hkept]
      dsimp only
      split
      · rename_i hmitm
        rw [decide_eq_true hmitm]
        rfl
      · rename_i hpass
        rw [decide_eq_false hpass]
        rfl

/-- With no rule matching through letters, a CONNECT in another case is judged by its bypass entries. -/
theorem intercepted_case {s : Server} {now : Nat} {target target' : JsString} {rules' : List CredentialRule}
    {bypass' : List JsString} (h : CaseFree s.credentials (connectHost target))
    (htarget : asciiLower target' = asciiLower target) (hrules : List.Forall₂ Recased s.credentials rules') :
    ((s.recase rules' bypass').handleConnect now target').2.intercepted =
      if connectHost target = [] ∨ (s.charge (s.allCredentials (connectHost target)).head? now).2.isSome = true then none
      else some (decide (s.allCredentials (connectHost target) ≠ [] ∧ s.mitmEnabled = true ∧ connectHost target' ∉ bypass')) := by
  have hhost := connectHost_case htarget
  have hempty : connectHost target' = [] ↔ connectHost target = [] := by
    rw [← asciiLower_nil, hhost, asciiLower_nil]
  have hall : List.Forall₂ Recased (s.allCredentials (connectHost target)) ((s.recase rules' bypass').allCredentials
      (connectHost target')) := filter_case (findAll_case h hrules hhost) s.activeCredentialMethod
  have hnil : (s.recase rules' bypass').allCredentials (connectHost target') ≠ [] ↔
      s.allCredentials (connectHost target) ≠ [] := by
    rw [← List.length_pos_iff, ← List.length_pos_iff, hall.length_eq]
  have hlimiter : (s.recase rules' bypass').rateLimiter = s.rateLimiter := rfl
  have hcharge : ((s.recase rules' bypass').charge ((s.recase rules' bypass').allCredentials (connectHost target')).head? now).2 =
      (s.charge (s.allCredentials (connectHost target)).head? now).2 := charge_case hlimiter hall now
  rw [intercepted_eq, hcharge]
  simp only [hempty, hnil]
  rfl

/-! ## The bypass set -/

theorem bypass_case {bypass bypass' : List JsString} {hostname hostname' : JsString} (h : BypassFree bypass hostname)
    (hbypass : List.Forall₂ (fun entry entry' => asciiLower entry' = asciiLower entry) bypass bypass')
    (hhost : asciiLower hostname' = asciiLower hostname) : hostname' ∈ bypass' ↔ hostname ∈ bypass := by
  have hentry : ∀ entry ∈ bypass, ∀ entry', asciiLower entry' = asciiLower entry → (hostname' = entry' ↔ hostname = entry) := by
    intro entry hmem entry' hcase
    cases hletter : hasLetter hostname with
    | true =>
      have hne := h hletter entry hmem
      constructor
      · rintro rfl
        exact absurd (hcase.symm.trans hhost) hne
      · rintro rfl
        exact absurd rfl hne
    | false =>
      obtain rfl := eq_of_no_letter hhost hletter
      constructor
      · rintro rfl
        exact (eq_of_no_letter hcase.symm hletter).symm
      · rintro rfl
        exact (eq_of_no_letter hcase hletter).symm
  clear h
  induction hbypass with
  | nil => exact iff_of_false List.not_mem_nil List.not_mem_nil
  | cons hcase _ ih =>
    rw [List.mem_cons, List.mem_cons]
    exact or_congr (hentry _ (List.mem_cons_self ..) _ hcase) (ih fun entry hmem => hentry entry (List.mem_cons_of_mem _ hmem))

/-- A bypass entry and a hostname with letters can be written alike, and not. -/
theorem exists_bypass {bypass : List JsString} {hostname : JsString} (h : ¬BypassFree bypass hostname) :
    ∃ bypass' other, List.Forall₂ (fun entry entry' => asciiLower entry' = asciiLower entry) bypass bypass' ∧
      asciiLower other = asciiLower hostname ∧ hostname ∈ bypass' ∧ other ∉ bypass' := by
  unfold BypassFree at h
  push Not at h
  obtain ⟨hletter, entry, hentry, hcase⟩ := h
  obtain ⟨other, hother, hne⟩ := exists_other hletter
  -- entries like the hostname are written as it is
  let rewrite (e : JsString) : JsString := if asciiLower e = asciiLower hostname then hostname else e
  refine ⟨bypass.map rewrite, other, ?_, hother, List.mem_map.mpr ⟨entry, hentry, if_pos hcase⟩, fun hmem => ?_⟩
  · refine List.forall₂_map_right_iff.mpr (List.forall₂_same.mpr fun e _ => ?_)
    show asciiLower (if asciiLower e = asciiLower hostname then hostname else e) = asciiLower e
    split
    · rename_i heq
      exact heq.symm
    · rfl
  · obtain ⟨e, -, he⟩ := List.mem_map.mp hmem
    have he : (if asciiLower e = asciiLower hostname then hostname else e) = other := he
    split at he
    · exact hne he.symm
    · rename_i hdifferent
      rw [he] at hdifferent
      exact hdifferent hother

/-- A target with another hostname in it. -/
theorem exists_target {target other : JsString} (h : asciiLower other = asciiLower (connectHost target)) :
    ∃ target', asciiLower target' = asciiLower target ∧ connectHost target' = other := by
  rw [connectHost_eq] at h
  have hplain : ∀ u ∈ other, (u != colon) = true := by
    have hall : other.all (· != colon) = (target.takeWhile (· != colon)).all (· != colon) := by
      rw [← blind_colon.all other, h, blind_colon.all]
    rw [List.all_takeWhile] at hall
    exact List.all_eq_true.mp hall
  refine ⟨other ++ target.dropWhile (· != colon), ?_, ?_⟩
  · rw [asciiLower_append, h, ← asciiLower_append, List.takeWhile_append_dropWhile]
  · rw [connectHost_eq, List.takeWhile_append_of_pos hplain]
    have hhead := List.head?_dropWhile_not (· != colon) target
    cases hrest : target.dropWhile (· != colon) with
    | nil => exact List.append_nil other
    | cons u rest =>
      rw [hrest] at hhead
      rw [List.takeWhile_cons, if_neg (by rw [hhead]; exact Bool.false_ne_true), List.append_nil]

theorem connectBlind_iff (s : Server) (now : Nat) (target : JsString) : ConnectBlind s now target ↔
    CaseFree s.credentials (connectHost target) ∧
      (s.mitmEnabled = true → s.allCredentials (connectHost target) ≠ [] →
        (s.charge (s.allCredentials (connectHost target)).head? now).2 = none →
        BypassFree s.pinningBypassSet (connectHost target)) := by
  have hsame : ∀ credentials : List CredentialRule, List.Forall₂ Recased credentials credentials :=
    fun _ => List.forall₂_same.mpr fun c _ => recased_refl c
  constructor
  · intro h
    have hfree : CaseFree s.credentials (connectHost target) := by
      refine caseFree_of_matching fun rules' hrules => ?_
      exact (h target rules' s.pinningBypassSet rfl hrules (List.forall₂_same.mpr fun _ _ => rfl)).1
    refine ⟨hfree, fun hmitm hall hcharge => ?_⟩
    by_contra hbypass
    obtain ⟨bypass', other, hentries, hother, hin, hout⟩ := exists_bypass hbypass
    obtain ⟨target', htarget, hhost⟩ := exists_target hother
    have hnamed : connectHost target ≠ [] := by
      intro hnil
      rw [hnil] at hbypass
      exact hbypass fun hletter => absurd hletter Bool.false_ne_true
    have hgoes : ¬(connectHost target = [] ∨ (s.charge (s.allCredentials (connectHost target)).head? now).2.isSome = true) := by
      rw [hcharge]
      rintro (hnil | hsome)
      · exact hnamed hnil
      · cases hsome
    -- as the entry is written it is passed through, in another case intercepted
    have hpassed := (h target s.credentials bypass' rfl (hsame _) hentries).2
    have hcaught := (h target' s.credentials bypass' htarget (hsame _) hentries).2
    rw [intercepted_case hfree rfl (hsame _), if_neg hgoes, decide_eq_false fun hboth => hboth.2.2 hin] at hpassed
    rw [intercepted_case hfree htarget (hsame _), if_neg hgoes, hhost, decide_eq_true ⟨hall, hmitm, hout⟩] at hcaught
    cases hpassed.trans hcaught.symm
  · rintro ⟨hfree, hbypass⟩ target' rules' bypass' htarget hrules hentries
    have hhost := connectHost_case htarget
    refine ⟨matching_case hfree hrules hhost, ?_⟩
    rw [intercepted_case hfree htarget hrules, intercepted_eq]
    split
    · rfl
    · rename_i hgoes
      have hcharge : (s.charge (s.allCredentials (connectHost target)).head? now).2 = none :=
        Option.not_isSome_iff_eq_none.mp fun hsome => hgoes (.inr hsome)
      by_cases hserved : s.mitmEnabled = true ∧ s.allCredentials (connectHost target) ≠ []
      · have hmem := bypass_case (hbypass hserved.1 hserved.2 hcharge) hentries hhost
        simp only [hmem]
      · rw [decide_eq_false fun hboth => hserved ⟨hboth.2.1, hboth.1⟩, decide_eq_false fun hboth => hserved ⟨hboth.2.1, hboth.1⟩]

/-- Case decides nothing about a plain request and a CONNECT just if no rule matches through
    letters, and no bypass entry that is looked up is the hostname with letters. -/
theorem blind_to_case (hosts : HostParser) (s : Server) (now : Nat) (url target : JsString) :
    (PlainBlind hosts s url ↔ ∀ u, parse hosts url = some u → CaseFree s.credentials u.hostname) ∧
    (ConnectBlind s now target ↔ CaseFree s.credentials (connectHost target) ∧
      (s.mitmEnabled = true → s.allCredentials (connectHost target) ≠ [] →
        (s.charge (s.allCredentials (connectHost target)).head? now).2 = none →
        BypassFree s.pinningBypassSet (connectHost target))) :=
  ⟨plainBlind_iff hosts s url, connectBlind_iff s now target⟩

/-! ## A pattern with capitals -/

def withCapitals : CredentialRule := apiKeyRule.recase (ofString "API.anthropic.com") (by decide)

theorem capitals_match_nothing :
    ¬PlainBlind asciiHosts (serving [apiKeyRule]) (ofString "http://api.anthropic.com/v1/messages") ∧
    ¬ConnectBlind (serving [apiKeyRule]) 0 (ofString "api.anthropic.com:443") := by
  have hrecased : List.Forall₂ Recased [apiKeyRule] [withCapitals] := .cons (.intro _ _) .nil
  constructor
  · intro h
    exact absurd (h _ [withCapitals] rfl hrecased) (by decide)
  · intro h
    exact absurd (h _ [withCapitals] [] rfl hrecased .nil).1 (by decide)

end FlowHelm.Proxy
