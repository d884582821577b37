/-
  FlowHelm.Proxy.KeyRotation — key-rotator.ts over time: which of its keys a rule has been handed
  since the last reset, for any rules and any order of requests for them.

  A rule takes its keys by turns, but what says whose turn it is belongs to the rule's name. The
  rules of one name move each other's turn; nothing makes the names of a file differ. Fairness
  is told twice: of the entries of `values`, and of the texts in it, which can repeat.

  - `fair_with_own_counter`: every order of requests is fair, as long as no counter is full, just
    for the rules where one that has two keys shares its name with no other one that has keys.
  - `two_rules_of_one_name`: one rule gets its first key twice and its second never.
  - `fair_for_ever_iff`: a full counter hands out one key for good.
-/
import FlowHelm.Lib.RoundRobin
import FlowHelm.Lib.Runs
import FlowHelm.Proxy.RateLimiter

namespace FlowHelm.Proxy.KeyRotation

open Js Runs RoundRobin

/-! ## Requests and resets -/

/-- A value handed out. -/
structure Handout where
  /-- Where the rule is in the file. -/
  rule : Nat
  /-- Where the value is in the rule's `values`. -/
  idx : Nat
  value : JsString
  deriving DecidableEq, Repr

structure St where
  rotator : KeyRotator
  /-- Since the last reset. -/
  handed : List Handout

inductive Ev where
  | request (rule : Nat)
  | reset
  deriving DecidableEq, Repr

/-- A request for a rule, which is the one at `i`. -/
def St.request (s : St) (i : Nat) (c : CredentialRule) : St :=
  let r := s.rotator.getNextValue c
  ⟨r.1, s.handed ++ [⟨i, s.rotator.idx c, r.2⟩]⟩

def St.reset (s : St) : St := ⟨s.rotator.reset, []⟩

def step (credentials : List CredentialRule) (s : St) : Ev → Option St
  | .request i => credentials[i]?.map (s.request i)
  | .reset => some s.reset

def rotation (credentials : List CredentialRule) : System St Ev := ⟨⟨∅, []⟩, step credentials⟩

/-- The places in `values` of what rule `i` was handed. -/
def St.entries (s : St) (i : Nat) : List Nat := (s.handed.filter (·.rule = i)).map (·.idx)

/-- What rule `i` was handed. -/
def St.values (s : St) (i : Nat) : List JsString := (s.handed.filter (·.rule = i)).map (·.value)

/-! ## Fairness -/

/-- Of no two entries of a rule's `values` one was handed out more than one time more. -/
def EntriesFair (credentials : List CredentialRule) (s : St) : Prop :=
  ∀ i, ∀ c ∈ credentials[i]?, Balanced (List.range c.keys.length) (s.entries i)

/-- The same of two texts in `values`. -/
def TextsFair (credentials : List CredentialRule) (s : St) : Prop :=
  ∀ i, ∀ c ∈ credentials[i]?, Balanced c.keys (s.values i)

/-- No other rule that has keys has the name. -/
def Alone (credentials : List CredentialRule) (i : Nat) (c : CredentialRule) : Prop :=
  ∀ j, j ≠ i → ∀ d ∈ credentials[j]?, d.keys ≠ [] → d.name ≠ c.name

/-- The counter that says which of several keys is next is not full. -/
def Counted (credentials : List CredentialRule) (s : St) : Ev → Prop
  | .request i => ∀ c ∈ credentials[i]?, 2 ≤ c.keys.length → s.rotator.getCounter c.name < 2 ^ 53
  | .reset => True

/-- The rules of a file, as they are in memory: an array has fewer than 2^32 elements. -/
structure RuleSet extends CredentialRules where
  bounded : ∀ c ∈ credentials, c.keys.length < 2 ^ 32

/-! ## One request -/

section
variable (s : St) {i j : Nat} (c : CredentialRule)

theorem entries_request_self : (s.request i c).entries i = s.entries i ++ [s.rotator.idx c] := by
  simp [St.entries, St.request]

theorem values_request_self : (s.request i c).values i = s.values i ++ [(s.rotator.getNextValue c).2] := by
  simp [St.values, St.request]

theorem entries_request_ne (h : j ≠ i) : (s.request j c).entries i = s.entries i := by
  simp [St.entries, St.request, h]

theorem values_request_ne (h : j ≠ i) : (s.request j c).values i = s.values i := by
  simp [St.values, St.request, h]

end

theorem counter_request {s : St} {i : Nat} {c : CredentialRule} (hkeys : c.keys ≠ [])
    (hcount : s.rotator.getCounter c.name < 2 ^ 53) :
    (s.request i c).rotator.getCounter c.name = s.rotator.getCounter c.name + 1 := by
  show (s.rotator.getNextValue c).1.getCounter c.name = _
  rw [getCounter_next hkeys, if_pos rfl, nextCount_of_lt hcount]

/-- The value handed out is the key whose turn it is. -/
theorem getNextValue_turn {c : CredentialRule} (hkeys : c.keys ≠ []) (k : KeyRotator) :
    turn c.keys (k.getCounter c.name) = some (k.getNextValue c).2 := by
  have hlt : k.getCounter c.name % c.keys.length < c.keys.length := Nat.mod_lt _ (List.length_pos_iff.mpr hkeys)
  rw [getNextValue_keys hkeys, turn, KeyRotator.idx, List.getElem?_eq_getElem hlt]
  rfl

/-- Rule `i` has been handed its keys by turns, and its counter has counted these. -/
structure InTurn (s : St) (i : Nat) (c : CredentialRule) : Prop where
  entries : s.entries i = turns (List.range c.keys.length) (s.rotator.getCounter c.name)
  values : s.values i = turns c.keys (s.rotator.getCounter c.name)

theorem inTurn_init (credentials : List CredentialRule) (i : Nat) (c : CredentialRule) : InTurn (rotation credentials).init i c :=
  ⟨rfl, rfl⟩

theorem inTurn_reset (s : St) (i : Nat) (c : CredentialRule) : InTurn s.reset i c := ⟨rfl, rfl⟩

theorem InTurn.request {s : St} {i : Nat} {c : CredentialRule} (h : InTurn s i c) (hkeys : c.keys ≠ [])
    (hcount : s.rotator.getCounter c.name < 2 ^ 53) : InTurn (s.request i c) i c where
  entries := by
    rw [counter_request hkeys hcount, turns_succ, turn_range (List.length_pos_iff.mpr hkeys), entries_request_self, h.entries]
    rfl
  values := by
    rw [counter_request hkeys hcount, turns_succ, getNextValue_turn hkeys, values_request_self, h.values]
    rfl

/-- A request for a rule of another name, or one that has no keys. -/
theorem InTurn.other {s : St} {i j : Nat} {c d : CredentialRule} (h : InTurn s i c) (hne : j ≠ i)
    (hname : d.keys ≠ [] → d.name ≠ c.name) : InTurn (s.request j d) i c := by
  have hcounter : (s.request j d).rotator.getCounter c.name = s.rotator.getCounter c.name := by
    show (s.rotator.getNextValue d).1.getCounter c.name = _
    by_cases hkeys : d.keys = []
    · rw [getNextValue_keyless hkeys]
    · rw [getCounter_next hkeys, if_neg fun heq => hname hkeys heq.symm]
  refine ⟨?_, ?_⟩
  · rw [hcounter, entries_request_ne s d hne, h.entries]
  · rw [hcounter, values_request_ne s d hne, h.values]

/-! ## A rule with a counter of its own -/

theorem step_cases {credentials : List CredentialRule} {s t : St} {e : Ev} (h : step credentials s e = some t) :
    (∃ i c, e = .request i ∧ credentials[i]? = some c ∧ t = s.request i c) ∨ (e = .reset ∧ t = s.reset) := by
  cases e with
  | request i =>
    obtain ⟨c, hc, rfl⟩ := Option.map_eq_some_iff.mp h
    exact .inl ⟨i, c, rfl, hc, rfl⟩
  | reset =>
    obtain rfl := Option.some.inj h
    exact .inr ⟨rfl, rfl⟩

theorem inTurn_step {credentials : List CredentialRule} {s t : St} {e : Ev} {i : Nat} {c : CredentialRule}
    (hc : credentials[i]? = some c) (htwo : 2 ≤ c.keys.length) (halone : Alone credentials i c) (h : InTurn s i c)
    (hcounted : Counted credentials s e) (hs : step credentials s e = some t) : InTurn t i c := by
  obtain ⟨j, d, rfl, hd, rfl⟩ | ⟨rfl, rfl⟩ := step_cases hs
  · by_cases hij : j = i
    · obtain rfl := hij
      obtain rfl : c = d := Option.some.inj (hc.symm.trans hd)
      have hkeys : c.keys ≠ [] := List.length_pos_iff.mp (by omega)
      exact h.request hkeys (hcounted c hc htwo)
    · exact h.other hij fun hkeys => halone j hij d hd hkeys
  · exact inTurn_reset s i c

theorem inTurn_of_alone {credentials : List CredentialRule} {s : St} (h : Reach (rotation credentials) (Counted credentials) s)
    {i : Nat} {c : CredentialRule} (hc : credentials[i]? = some c) (htwo : 2 ≤ c.keys.length) (halone : Alone credentials i c) :
    InTurn s i c :=
  h.inv (inTurn_init credentials i c) fun _ _ _ _ hi hcounted hs => inTurn_step hc htwo halone hi hcounted hs

/-! ## Requests for one rule -/

section
variable {credentials : List CredentialRule} {i : Nat} {c : CredentialRule}

theorem reach_request {C : St → Ev → Prop} {s : St} (hc : credentials[i]? = some c) (hs : Reach (rotation credentials) C s)
    (hC : C s (.request i)) : Reach (rotation credentials) C (s.request i c) := by
  refine .step (.request i) hs hC ?_
  show credentials[i]?.map (s.request i) = some (s.request i c)
  rw [hc]
  rfl

theorem counted_request {s : St} (hc : credentials[i]? = some c) (hcount : s.rotator.getCounter c.name < 2 ^ 53) :
    Counted credentials s (.request i) := by
  intro d hd _
  obtain rfl : c = d := Option.some.inj (hc.symm.trans hd)
  exact hcount

/-- Requests for one rule only. -/
theorem reach_inTurn (hc : credentials[i]? = some c) (hkeys : c.keys ≠ []) (n : Nat) (hn : n ≤ 2 ^ 53) :
    ∃ s, Reach (rotation credentials) (Counted credentials) s ∧ InTurn s i c ∧ s.rotator.getCounter c.name = n := by
  induction n with
  | zero => exact ⟨_, .init, inTurn_init credentials i c, rfl⟩
  | succ n ih =>
    obtain ⟨s, hs, hturn, hcounter⟩ := ih (by omega)
    have hcount : s.rotator.getCounter c.name < 2 ^ 53 := by omega
    refine ⟨s.request i c, reach_request hc hs (counted_request hc hcount), hturn.request hkeys hcount, ?_⟩
    rw [counter_request hkeys hcount, hcounter]

/-- Requests for another rule turn the counter of the name. -/
theorem reach_others {s : St} {j : Nat} {d : CredentialRule} (hd : credentials[j]? = some d) (hkeys : d.keys ≠ []) (hij : j ≠ i)
    (hs : Reach (rotation credentials) (Counted credentials) s) (n : Nat) (hn : s.rotator.getCounter d.name + n ≤ 2 ^ 53) :
    ∃ t, Reach (rotation credentials) (Counted credentials) t ∧ t.entries i = s.entries i ∧ t.values i = s.values i ∧
      t.rotator.getCounter d.name = s.rotator.getCounter d.name + n := by
  induction n with
  | zero => exact ⟨s, hs, rfl, rfl, rfl⟩
  | succ n ih =>
    obtain ⟨t, ht, hentries, hvalues, hcounter⟩ := ih (by omega)
    have hcount : t.rotator.getCounter d.name < 2 ^ 53 := by omega
    refine ⟨t.request j d, reach_request hd ht (counted_request hd hcount), ?_, ?_, ?_⟩
    · rw [entries_request_ne t d hij, hentries]
    · rw [values_request_ne t d hij, hvalues]
    · rw [counter_request hkeys hcount, hcounter, Nat.add_assoc]

/-- Where the name is shared a rule can be handed its first key twice in a row. -/
theorem reach_first_twice {j : Nat} {d : CredentialRule} {first : JsString} (hc : credentials[i]? = some c)
    (hbounded : c.keys.length < 2 ^ 32) (hfirst : c.keys[0]? = some first) (hij : j ≠ i) (hd : credentials[j]? = some d)
    (hkeys : d.keys ≠ []) (hname : d.name = c.name) :
    ∃ s, Reach (rotation credentials) (Counted credentials) s ∧ s.entries i = [0, 0] ∧ s.values i = [first, first] := by
  have hpos : 0 < c.keys.length := (List.getElem?_eq_some_iff.mp hfirst).1
  have hsome : c.keys ≠ [] := List.length_pos_iff.mp hpos
  obtain ⟨s, hs, hturn, hone⟩ := reach_inTurn hc hsome 1 (by omega)
  -- the others take the rest of the round
  obtain ⟨t, ht, hentries, hvalues, hcounter⟩ := reach_others hd hkeys hij hs (c.keys.length - 1) (by rw [hname]; omega)
  rw [hname, hone] at hcounter
  have hround : t.rotator.getCounter c.name = c.keys.length := by omega
  have hturned : turn c.keys 0 = some first := by rw [turn, Nat.zero_mod, hfirst]
  refine ⟨t.request i c, reach_request hc ht (counted_request hc (by omega)), ?_, ?_⟩
  · rw [entries_request_self, hentries, hturn.entries, hone, turns_succ, turn_range hpos, KeyRotator.idx, hround, Nat.zero_mod,
      Nat.mod_self]
    rfl
  · have hagain : some first = some (t.rotator.getNextValue c).2 := by
      rw [← getNextValue_turn hsome, hround, ← hturned, turn, turn, Nat.zero_mod, Nat.mod_self]
    rw [values_request_self, hvalues, hturn.values, hone, turns_succ, hturned, ← Option.some.inj hagain]
    rfl

end

/-! ## Which rules are served fairly -/

theorem entriesFair_of_alone {credentials : List CredentialRule}
    (halone : ∀ i, ∀ c ∈ credentials[i]?, 2 ≤ c.keys.length → Alone credentials i c) {s : St}
    (hs : Reach (rotation credentials) (Counted credentials) s) : EntriesFair credentials s := by
  intro i c hc
  by_cases htwo : 2 ≤ c.keys.length
  · rw [(inTurn_of_alone hs hc htwo (halone i c hc htwo)).entries]
    exact balanced_turns (evenlyListed_of_nodup List.nodup_range) _
  · exact balanced_of_length_le_one (by rw [List.length_range]; omega)

theorem entries_fair_iff (rules : RuleSet) :
    (∀ s, Reach (rotation rules.credentials) (Counted rules.credentials) s → EntriesFair rules.credentials s) ↔
      ∀ i, ∀ c ∈ rules.credentials[i]?, 2 ≤ c.keys.length → Alone rules.credentials i c := by
  constructor
  · intro hfair i c hc htwo j hij d hd hkeys hname
    have hfirst : c.keys[0]? = some c.keys[0] := List.getElem?_eq_getElem _
    obtain ⟨s, hs, hentries, -⟩ :=
      reach_first_twice hc (rules.bounded c (List.mem_of_getElem? hc)) hfirst hij hd hkeys hname
    have hbalanced := hfair s hs i c hc 0 (List.mem_range.mpr (by omega)) 1 (List.mem_range.mpr (by omega))
    rw [hentries] at hbalanced
    exact absurd hbalanced (by decide)
  · intro halone s hs
    exact entriesFair_of_alone halone hs

theorem texts_fair_iff (rules : RuleSet) :
    (∀ s, Reach (rotation rules.credentials) (Counted rules.credentials) s → TextsFair rules.credentials s) ↔
      ∀ i, ∀ c ∈ rules.credentials[i]?, EvenlyListed c.keys ∧
        ((∃ a ∈ c.keys, ∃ b ∈ c.keys, a ≠ b) → Alone rules.credentials i c) := by
  constructor
  · intro hfair i c hc
    have hbounded := rules.bounded c (List.mem_of_getElem? hc)
    refine ⟨evenlyListed_of_turns fun n hn => ?_, ?_⟩
    · -- requests for this rule alone
      by_cases hkeys : c.keys = []
      · rw [hkeys]
        exact List.forall_mem_nil _
      · obtain ⟨s, hs, hturn, hcounter⟩ := reach_inTurn hc hkeys n (by omega)
        have hbalanced := hfair s hs i c hc
        rwa [hturn.values, hcounter] at hbalanced
    · rintro ⟨a, ha, b, hb, hab⟩ j hij d hd hkeys hname
      have hpos : 0 < c.keys.length := List.length_pos_of_mem ha
      have hfirst : c.keys[0]? = some c.keys[0] := List.getElem?_eq_getElem hpos
      obtain ⟨s, hs, -, hvalues⟩ := reach_first_twice hc hbounded hfirst hij hd hkeys hname
      obtain ⟨other, hother, hne⟩ : ∃ other ∈ c.keys, c.keys[0] ≠ other := by
        by_cases heq : c.keys[0] = a
        · exact ⟨b, hb, heq ▸ hab⟩
        · exact ⟨a, ha, heq⟩
      have hbalanced := hfair s hs i c hc c.keys[0] (List.getElem_mem hpos) other hother
      rw [hvalues] at hbalanced
      simp [hne] at hbalanced
  · intro h s hs i c hc
    obtain ⟨heven, halone⟩ := h i c hc
    by_cases htwo : ∃ a ∈ c.keys, ∃ b ∈ c.keys, a ≠ b
    · have hlength : 2 ≤ c.keys.length := by
        obtain ⟨a, ha, b, hb, hab⟩ := htwo
        by_contra hshort
        exact hab (eq_of_length_le_one (by omega) ha hb)
      rw [(inTurn_of_alone hs hc hlength (halone htwo)).values]
      exact balanced_turns heven _
    · refine balanced_of_eq fun a ha b hb => ?_
      by_contra hab
      exact htwo ⟨a, ha, b, hb, hab⟩

/-- Every order of requests that fills no counter is fair just for the rules with counters of their own. -/
theorem fair_with_own_counter (rules : RuleSet) :
    ((∀ s, Reach (rotation rules.credentials) (Counted rules.credentials) s → EntriesFair rules.credentials s) ↔
      ∀ i, ∀ c ∈ rules.credentials[i]?, 2 ≤ c.keys.length → Alone rules.credentials i c) ∧
    ((∀ s, Reach (rotation rules.credentials) (Counted rules.credentials) s → TextsFair rules.credentials s) ↔
      ∀ i, ∀ c ∈ rules.credentials[i]?, EvenlyListed c.keys ∧
        ((∃ a ∈ c.keys, ∃ b ∈ c.keys, a ≠ b) → Alone rules.credentials i c)) :=
  ⟨entries_fair_iff rules, texts_fair_iff rules⟩

/-! ## Two rules of one name -/

def googleRule (hostPattern first second : String) : Json :=
  .obj [(ofString "name", .text "Google"), (ofString "hostPattern", .text hostPattern),
    (ofString "header", .text "Authorization"),
    (ofString "value", .text first), (ofString "values", .arr [.text first, .text second])]

/-- Keys for two hosts, both called by the name of the provider. -/
def googleFile : Json :=
  .obj [(ofString "credentials", .arr [googleRule "gmail.googleapis.com" "Bearer m1" "Bearer m2",
    googleRule "calendar.googleapis.com" "Bearer c1" "Bearer c2"])]

/-- The two are asked for in alternation. -/
theorem two_rules_of_one_name : ∃ rules, parseCredentialRules googleFile = some rules ∧
    ∃ s, Reach (rotation rules.credentials) Free s ∧ s.values 0 = [ofString "Bearer m1", ofString "Bearer m1"] ∧
      ¬EntriesFair rules.credentials s ∧ ¬TextsFair rules.credentials s := by
  have hrun : (parseCredentialRules googleFile).any (fun rules =>
      decide (rules.credentials[0]?.map (·.keys) = some [ofString "Bearer m1", ofString "Bearer m2"]) &&
        (exec (rotation rules.credentials) (rotation rules.credentials).init [.request 0, .request 1, .request 0]).any fun s =>
          decide (s.entries 0 = [0, 0] ∧ s.values 0 = [ofString "Bearer m1", ofString "Bearer m1"])) = true := by
    decide +kernel
  obtain ⟨rules, hrules, hrun⟩ := (Option.any_eq_true _ _).mp hrun
  obtain ⟨hkeys, hrun⟩ := Bool.and_eq_true_iff.mp hrun
  obtain ⟨c, hc, hkeys⟩ := Option.map_eq_some_iff.mp (of_decide_eq_true hkeys)
  obtain ⟨s, hs, hstate⟩ := reach_any (M := rotation rules.credentials) (C := Free) _ (meets_free ..) hrun
  obtain ⟨hentries, hvalues⟩ := of_decide_eq_true hstate
  refine ⟨rules, hrules, s, hs, hvalues, fun h => ?_, fun h => ?_⟩
  · have hbalanced := h 0 c hc
    rw [hkeys, hentries] at hbalanced
    exact absurd hbalanced (by decide)
  · have hbalanced := h 0 c hc
    rw [hkeys, hvalues] at hbalanced
    exact absurd hbalanced (by decide)

/-! ## A full counter -/

theorem counter_full {s : St} {i : Nat} {c : CredentialRule} (hkeys : c.keys ≠ [])
    (hfull : s.rotator.getCounter c.name = 2 ^ 53) :
    (s.request i c).rotator.getCounter c.name = 2 ^ 53 := by
  show (s.rotator.getNextValue c).1.getCounter c.name = _
  rw [getCounter_next hkeys, if_pos rfl, hfull, nextCount_full]

/-- The place it stopped at is handed out every time. -/
theorem reach_stuck {credentials : List CredentialRule} {i : Nat} {c : CredentialRule} (hc : credentials[i]? = some c)
    (hkeys : c.keys ≠ []) (n : Nat) : ∃ s, Reach (rotation credentials) Free s ∧ s.rotator.getCounter c.name = 2 ^ 53 ∧
      s.entries i = turns (List.range c.keys.length) (2 ^ 53) ++ List.replicate n (2 ^ 53 % c.keys.length) := by
  induction n with
  | zero =>
    obtain ⟨s, hs, hturn, hfull⟩ := reach_inTurn hc hkeys (2 ^ 53) (Nat.le_refl _)
    refine ⟨s, hs.mono fun _ _ _ => trivial, hfull, ?_⟩
    rw [hturn.entries, hfull, List.replicate_zero, List.append_nil]
  | succ n ih =>
    obtain ⟨s, hs, hfull, hentries⟩ := ih
    refine ⟨s.request i c, reach_request hc hs trivial, counter_full hkeys hfull, ?_⟩
    rw [entries_request_self, hentries, KeyRotator.idx, hfull, List.replicate_succ', List.append_assoc]

/-- Without a bound on the requests between two resets, only rules with one key are served fairly. -/
theorem fair_for_ever_iff (credentials : List CredentialRule) :
    (∀ s, Reach (rotation credentials) Free s → EntriesFair credentials s) ↔ ∀ c ∈ credentials, c.keys.length ≤ 1 := by
  constructor
  · intro hfair c hmem
    by_contra htwo
    obtain ⟨i, hc⟩ := List.getElem?_of_mem hmem
    have hpos : 0 < c.keys.length := by omega
    obtain ⟨s, hs, -, hentries⟩ := reach_stuck hc (List.length_pos_iff.mp hpos) 3
    obtain ⟨k, hk, hne⟩ : ∃ k < c.keys.length, 2 ^ 53 % c.keys.length ≠ k := by
      by_cases hzero : 2 ^ 53 % c.keys.length = 0
      · exact ⟨1, by omega, by omega⟩
      · exact ⟨0, hpos, hzero⟩
    have hstuck := List.mem_range.mpr (Nat.mod_lt (2 ^ 53) hpos)
    have hbalanced := hfair s hs i c hc _ hstuck k (List.mem_range.mpr hk)
    have hbefore := balanced_turns (evenlyListed_of_nodup (List.nodup_range (n := c.keys.length))) (2 ^ 53) k
      (List.mem_range.mpr hk)
      _ hstuck
    rw [hentries, List.count_append, List.count_append, List.count_replicate_self, List.count_replicate,
      if_neg (by simpa using hne)] at hbalanced
    omega
  · intro hone s _ i c hc
    refine balanced_of_length_le_one ?_
    rw [List.length_range]
    exact hone c (List.mem_of_getElem? hc)

end FlowHelm.Proxy.KeyRotation
