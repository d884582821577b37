/-
  FlowHelm.AuthBridge.Agreement — the two session stores, given the same calls at the same times.

  The Node store keeps a session up to and at `expiresAt`. KV drops its entry at that time, and
  after a submission at the end of the last full second before it; it takes no put for less than
  a minute.

  - `stores_agree`: the results are the same just if no call comes where the two differ.
  - `a_late_submission_is_rejected`: a submission in the last minute of a session.
-/
import FlowHelm.AuthBridge.KvStore

namespace FlowHelm.AuthBridge

open Js

namespace Agreement

inductive Op where
  | create (token publicKey : JsString)
  | get (token : JsString)
  | submitCredentials (token : JsString) (p : Payload)
  | delete (token : JsString)
  deriving DecidableEq

def Op.isCreate : Op → Bool
  | create .. => true
  | _ => false

/-- What a caller sees; a `delete` tells nothing on Workers. -/
inductive Result where
  | created (ok : Bool)
  | got (session : Option SessionData)
  | submitted (ok : Bool)
  | deleted
  | rejected
  deriving DecidableEq

/-- A call and its time. -/
abbrev Call := Nat × Op

def nodeStep (options : StoreOptions) (sessions : Sessions) : Call → Sessions × Result
  | (now, .create token publicKey) =>
    let r := SessionStore.create options sessions now token publicKey
    (r.1, .created r.2)
  | (now, .get token) =>
    let r := SessionStore.get sessions now token
    (r.1, .got r.2)
  | (now, .submitCredentials token p) =>
    let r := SessionStore.submitCredentials sessions now token p
    (r.1, .submitted r.2)
  | (_, .delete token) => ((SessionStore.delete sessions token).1, .deleted)

/-- `none` of the store is a rejected promise. -/
def settled (f : Bool → Result) : Option Bool → Result
  | some ok => f ok
  | none => .rejected

def workersStep (ttlSeconds : Nat) (kv : KvNamespace) : Call → KvNamespace × Result
  | (now, .create token publicKey) =>
    let r := KVSessionStore.create ttlSeconds kv now token publicKey
    (r.1, settled .created r.2)
  | (now, .get token) =>
    let r := KVSessionStore.get kv now token
    (r.1, .got r.2)
  | (now, .submitCredentials token p) =>
    let r := KVSessionStore.submitCredentials kv now token p
    (r.1, settled .submitted r.2)
  | (_, .delete token) => (KVSessionStore.delete kv token, .deleted)

/-- The results of calls made one after the other. -/
def results {S : Type} (step : S → Call → S × Result) : S → List Call → List Result
  | _, [] => []
  | s, c :: cs => (step s c).2 :: results step (step s c).1 cs

/-- No create finds the Node store full. -/
def BelowCapacity (options : StoreOptions) : Sessions → List Call → Prop
  | _, [] => True
  | sessions, c :: cs => (c.2.isCreate = true → SessionStore.size sessions < options.maxSessions) ∧
    BelowCapacity options (nodeStep options sessions c).1 cs

/-- KV has the session's entry still. -/
def Held (kv : KvNamespace) (now : Nat) (token : JsString) : Prop :=
  ∃ e, kv.lookup (KVSessionStore.sessionKey token) = some e ∧ now < e.dropsAt

/-- The call does not come where the stores differ: a session is created for a minute at
    least, KV still has what is asked for, and there is a minute left for what is submitted. -/
def Apart (ttlSeconds : Nat) (sessions : Sessions) (kv : KvNamespace) : Call → Prop
  | (_, .create ..) => KvNamespace.minTtl ≤ ttlSeconds
  | (now, .get token) => ∀ d, SessionStore.live sessions now token = some d → Held kv now token
  | (now, .submitCredentials token _) => ∀ d, SessionStore.live sessions now token = some d → d.submitted = false →
    Held kv now token ∧ KvNamespace.minTtl ≤ (d.expiresAt - now) / 1000
  | (_, .delete _) => True

def AllApart (options : StoreOptions) (ttlSeconds : Nat) : Sessions → KvNamespace → List Call → Prop
  | _, _, [] => True
  | sessions, kv, c :: cs => Apart ttlSeconds sessions kv c ∧
    AllApart options ttlSeconds (nodeStep options sessions c).1 (workersStep ttlSeconds kv c).1 cs

instance decidableBelowCapacity (options : StoreOptions) : ∀ sessions calls, Decidable (BelowCapacity options sessions calls)
  | _, [] => inferInstanceAs (Decidable True)
  | sessions, c :: cs =>
    have := decidableBelowCapacity options (nodeStep options sessions c).1 cs
    inferInstanceAs (Decidable ((c.2.isCreate = true → SessionStore.size sessions < options.maxSessions) ∧ _))

instance (kv : KvNamespace) (now : Nat) (token : JsString) : Decidable (Held kv now token) :=
  decidable_of_iff (∃ e ∈ kv.lookup (KVSessionStore.sessionKey token), now < e.dropsAt) Iff.rfl

instance (ttlSeconds : Nat) (sessions : Sessions) (kv : KvNamespace) : ∀ c, Decidable (Apart ttlSeconds sessions kv c)
  | (_, .create ..) => inferInstanceAs (Decidable (_ ≤ _))
  | (now, .get token) => inferInstanceAs (Decidable (∀ d ∈ SessionStore.live sessions now token, Held kv now token))
  | (now, .submitCredentials token _) => inferInstanceAs (Decidable (∀ d ∈ SessionStore.live sessions now token,
      d.submitted = false → Held kv now token ∧ KvNamespace.minTtl ≤ (d.expiresAt - now) / 1000))
  | (_, .delete _) => inferInstanceAs (Decidable True)

instance decidableAllApart (options : StoreOptions) (ttlSeconds : Nat) : ∀ sessions kv calls,
    Decidable (AllApart options ttlSeconds sessions kv calls)
  | _, _, [] => inferInstanceAs (Decidable True)
  | sessions, kv, c :: cs =>
    have := decidableAllApart options ttlSeconds (nodeStep options sessions c).1 (workersStep ttlSeconds kv c).1 cs
    inferInstanceAs (Decidable (Apart ttlSeconds sessions kv c ∧ _))

/-! ## What the two stores hold -/

/-- What KV has is in the Node store, and what is live there was put to KV. -/
structure Related (now : Nat) (sessions : Sessions) (kv : KvNamespace) : Prop where
  held : ∀ token e, kv.lookup (KVSessionStore.sessionKey token) = some e → now < e.dropsAt →
    sessions.lookup token = some e.value ∧ e.dropsAt ≤ e.value.expiresAt
  kept : ∀ token d, sessions.lookup token = some d → now ≤ d.expiresAt →
    ∃ e, kv.lookup (KVSessionStore.sessionKey token) = some e ∧ e.value = d

theorem Related.later {now later : Nat} {sessions : Sessions} {kv : KvNamespace} (h : Related now sessions kv)
    (hle : now ≤ later) : Related later sessions kv :=
  ⟨fun token e he hlive => h.held token e he (by omega), fun token d hd hlive => h.kept token d hd (by omega)⟩

variable {now ttlSeconds : Nat} {options : StoreOptions} {sessions : Sessions} {kv : KvNamespace} {token : JsString}

theorem Related.unheld (h : Related now sessions kv) (hnone : SessionStore.live sessions now token = none) :
    kv.get now (KVSessionStore.sessionKey token) = none := by
  by_contra hsome
  obtain ⟨d, hd⟩ := Option.ne_none_iff_exists'.mp hsome
  obtain ⟨e, he, hlive, rfl⟩ := KvNamespace.get_some.mp hd
  obtain ⟨hlookup, hdrops⟩ := h.held token e he hlive
  rw [SessionStore.live_some.mpr ⟨hlookup, by omega⟩] at hnone
  cases hnone

theorem Related.got (h : Related now sessions kv) {d : SessionData} (hd : SessionStore.live sessions now token = some d)
    (hheld : Held kv now token) : KVSessionStore.get kv now token = (kv, some d) := by
  obtain ⟨hlookup, htime⟩ := SessionStore.live_some.mp hd
  obtain ⟨e, he, hlive⟩ := hheld
  obtain ⟨hvalue, -⟩ := h.held token e he hlive
  rw [hlookup] at hvalue
  obtain rfl := Option.some.inj hvalue
  exact KVSessionStore.get_check (KVSessionStore.check_found.mpr ⟨KvNamespace.get_some.mpr ⟨e, he, hlive, rfl⟩, htime⟩)

theorem get_unheld (h : ¬Held kv now token) : KVSessionStore.get kv now token = (kv, none) := by
  refine KVSessionStore.get_missing ?_
  by_contra hsome
  obtain ⟨d, hd⟩ := Option.ne_none_iff_exists'.mp hsome
  obtain ⟨e, he, hlive, -⟩ := KvNamespace.get_some.mp hd
  exact h ⟨e, he, hlive⟩

/-- Dropping what is over changes nothing of it. -/
theorem Related.drops (h : Related now sessions kv) {left : Sessions} (hdrops : SessionStore.Drops sessions left now) :
    Related now left kv := by
  refine ⟨fun token e he hlive => ?_, fun token d hd hlive => h.kept token d (hdrops.old token d hd) hlive⟩
  obtain ⟨hlookup, hexp⟩ := h.held token e he hlive
  exact ⟨hdrops.kept token e.value hlookup (by omega), hexp⟩

/-- The same session is written to both. -/
theorem Related.insert (h : Related now sessions kv) {d : SessionData} {ttl : Nat} (httl : now + ttl * 1000 ≤ d.expiresAt) :
    Related now (sessions.insert token d) (kv.insert (KVSessionStore.sessionKey token) ⟨d, now + ttl * 1000⟩) := by
  refine ⟨fun other e he hlive => ?_, fun other d' hd' hlive => ?_⟩
  · by_cases heq : other = token
    · subst heq
      rw [AList.lookup_insert] at he ⊢
      obtain rfl := Option.some.inj he
      exact ⟨rfl, httl⟩
    · rw [AList.lookup_insert_ne (mt KVSessionStore.sessionKey_inj.mp heq)] at he
      rw [AList.lookup_insert_ne heq]
      exact h.held other e he hlive
  · by_cases heq : other = token
    · subst heq
      rw [AList.lookup_insert] at hd' ⊢
      obtain rfl := Option.some.inj hd'
      exact ⟨_, rfl, rfl⟩
    · rw [AList.lookup_insert_ne heq] at hd'
      rw [AList.lookup_insert_ne (mt KVSessionStore.sessionKey_inj.mp heq)]
      exact h.kept other d' hd' hlive

theorem Related.erase (h : Related now sessions kv) (token : JsString) :
    Related now (sessions.erase token) (kv.erase (KVSessionStore.sessionKey token)) := by
  refine ⟨fun other e he hlive => ?_, fun other d hd hlive => ?_⟩
  · by_cases heq : other = token
    · rw [heq, AList.lookup_erase] at he
      cases he
    · rw [AList.lookup_erase_ne (mt KVSessionStore.sessionKey_inj.mp heq)] at he
      rw [AList.lookup_erase_ne heq]
      exact h.held other e he hlive
  · by_cases heq : other = token
    · rw [heq, AList.lookup_erase] at hd
      cases hd
    · rw [AList.lookup_erase_ne heq] at hd
      rw [AList.lookup_erase_ne (mt KVSessionStore.sessionKey_inj.mp heq)]
      exact h.kept other d hd hlive

/-! ## One call -/

/-- What one call shows of the stores, and leaves of them. -/
def Compared (options : StoreOptions) (ttlSeconds : Nat) (sessions : Sessions) (kv : KvNamespace) (c : Call) : Prop :=
  (Apart ttlSeconds sessions kv c → (nodeStep options sessions c).2 = (workersStep ttlSeconds kv c).2 ∧
      Related c.1 (nodeStep options sessions c).1 (workersStep ttlSeconds kv c).1) ∧
    (¬Apart ttlSeconds sessions kv c → (nodeStep options sessions c).2 ≠ (workersStep ttlSeconds kv c).2)

theorem compared_create (h : Related now sessions kv) (httl : options.ttlMs = ttlSeconds * 1000)
    (hroom : SessionStore.size sessions < options.maxSessions) (publicKey : JsString) :
    Compared options ttlSeconds sessions kv (now, .create token publicKey) := by
  have hnode : nodeStep options sessions (now, .create token publicKey) =
      (sessions.insert token (.opened publicKey (now + options.ttlMs)), .created true) := by
    simp only [nodeStep, SessionStore.create, if_neg (not_le.mpr hroom)]
  unfold Compared
  rw [hnode]
  constructor
  · intro hmin
    have hmin : ¬ttlSeconds < KvNamespace.minTtl := not_lt.mpr hmin
    have hworkers : workersStep ttlSeconds kv (now, .create token publicKey) =
        (kv.insert (KVSessionStore.sessionKey token) ⟨.opened publicKey (now + ttlSeconds * 1000), now + ttlSeconds * 1000⟩,
          .created true) := by
      simp only [workersStep, KVSessionStore.create, KvNamespace.put, if_neg hmin, settled]
    rw [hworkers, httl]
    exact ⟨rfl, h.insert (le_refl _)⟩
  · intro hmin
    have hmin : ttlSeconds < KvNamespace.minTtl := not_le.mp hmin
    simp [workersStep, KVSessionStore.create, KvNamespace.put, hmin, settled]

theorem compared_get (h : Related now sessions kv) : Compared options ttlSeconds sessions kv (now, .get token) := by
  have hvalue := SessionStore.get_value sessions now token
  constructor
  · intro hapart
    have hdrops := SessionStore.get_drops sessions now token
    cases hlive : SessionStore.live sessions now token with
    | none =>
      have hworkers := KVSessionStore.get_missing (h.unheld hlive)
      simp only [nodeStep, workersStep, hworkers, hvalue, hlive, true_and]
      exact h.drops hdrops
    | some d =>
      have hworkers := h.got hlive (hapart d hlive)
      simp only [nodeStep, workersStep, hworkers, hvalue, hlive, true_and]
      exact h.drops hdrops
  · intro hnot
    simp only [Apart, not_forall] at hnot
    obtain ⟨d, hlive, hheld⟩ := hnot
    simp [nodeStep, workersStep, get_unheld hheld, hvalue, hlive]

theorem compared_submit (h : Related now sessions kv) (p : Payload) :
    Compared options ttlSeconds sessions kv (now, .submitCredentials token p) := by
  cases hlive : SessionStore.live sessions now token with
  | none =>
    have hapart : Apart ttlSeconds sessions kv (now, .submitCredentials token p) := by
      intro d hd
      rw [hlive] at hd
      cases hd
    have hrefused : (SessionStore.submitCredentials sessions now token p).2 = false := by
      rw [Bool.eq_false_iff]
      intro htaken
      obtain ⟨d, hd, -⟩ := SessionStore.submitCredentials_true.mp htaken
      rw [hlive] at hd
      cases hd
    have hleft := SessionStore.submitCredentials_refuses hrefused
    refine ⟨fun _ => ?_, fun hnot => absurd hapart hnot⟩
    have hworkers := KVSessionStore.get_missing (h.unheld hlive)
    simp only [nodeStep, workersStep, KVSessionStore.submitCredentials, hworkers, hrefused, hleft, settled, true_and]
    exact h.drops (SessionStore.get_drops ..)
  | some d =>
    cases hd : d.submitted with
    | true =>
      -- both refuse, whether KV has the entry or not
      have hapart : Apart ttlSeconds sessions kv (now, .submitCredentials token p) := by
        intro d' hd' hnew
        rw [hlive] at hd'
        obtain rfl := Option.some.inj hd'
        rw [hd] at hnew
        cases hnew
      have hrefused : (SessionStore.submitCredentials sessions now token p).2 = false := by
        rw [Bool.eq_false_iff]
        intro htaken
        obtain ⟨d', hd', hnew⟩ := SessionStore.submitCredentials_true.mp htaken
        rw [hlive] at hd'
        obtain rfl := Option.some.inj hd'
        rw [hd] at hnew
        cases hnew
      have hleft := SessionStore.submitCredentials_refuses hrefused
      have hworkers : KVSessionStore.submitCredentials kv now token p = (kv, some false) := by
        unfold KVSessionStore.submitCredentials
        by_cases hheld : Held kv now token
        · simp only [h.got hlive hheld, hd, if_true]
        · simp only [get_unheld hheld]
      refine ⟨fun _ => ?_, fun hnot => absurd hapart hnot⟩
      simp only [nodeStep, workersStep, hworkers, hrefused, hleft, settled, true_and]
      exact h.drops (SessionStore.get_drops ..)
    | false =>
      have hnode := SessionStore.submitCredentials_stores (p := p) hlive hd
      constructor
      · intro hapart
        obtain ⟨hheld, hmin⟩ := hapart d hlive hd
        obtain ⟨-, htime⟩ := SessionStore.live_some.mp hlive
        have hrest : KVSessionStore.remainingSeconds d now = (d.expiresAt - now) / 1000 := by
          unfold KVSessionStore.remainingSeconds KvNamespace.minTtl at *
          omega
        have hworkers : KVSessionStore.submitCredentials kv now token p =
            (kv.insert (KVSessionStore.sessionKey token) ⟨d.fill p, now + (d.expiresAt - now) / 1000 * 1000⟩, some true) := by
          unfold KVSessionStore.submitCredentials KvNamespace.put
          simp [h.got hlive hheld, hd, hrest, not_lt.mpr hmin]
        simp only [nodeStep, workersStep, hworkers, hnode, settled, true_and]
        refine h.insert ?_
        rw [fill_expiresAt]
        omega
      · intro hnot hsame
        refine hnot fun d' hd' hnew => ?_
        rw [hlive] at hd'
        obtain rfl := Option.some.inj hd'
        by_cases hheld : Held kv now token
        · refine ⟨hheld, ?_⟩
          by_contra hmin
          have hrest : KVSessionStore.remainingSeconds d now < KvNamespace.minTtl := by
            unfold KVSessionStore.remainingSeconds KvNamespace.minTtl at *
            omega
          simp [nodeStep, workersStep, KVSessionStore.submitCredentials, KvNamespace.put, h.got hlive hheld, hd, hrest,
            hnode, settled] at hsame
        · simp [nodeStep, workersStep, KVSessionStore.submitCredentials, get_unheld hheld, hnode, settled] at hsame

theorem compared (h : Related now sessions kv) (httl : options.ttlMs = ttlSeconds * 1000) (op : Op)
    (hroom : op.isCreate = true → SessionStore.size sessions < options.maxSessions) :
    Compared options ttlSeconds sessions kv (now, op) := by
  cases op with
  | create token publicKey => exact compared_create h httl (hroom rfl) publicKey
  | get token => exact compared_get h
  | submitCredentials token p => exact compared_submit h p
  | delete token => exact ⟨fun _ => ⟨rfl, h.erase token⟩, fun hnot => absurd trivial hnot⟩

/-! ## Sequences of calls -/

theorem results_iff (httl : options.ttlMs = ttlSeconds * 1000) {calls : List Call} (horder : (calls.map (·.1)).Pairwise (· ≤ ·))
    (hfirst : ∀ c ∈ calls, now ≤ c.1) (h : Related now sessions kv) (hroom : BelowCapacity options sessions calls) :
    results (nodeStep options) sessions calls = results (workersStep ttlSeconds) kv calls ↔
      AllApart options ttlSeconds sessions kv calls := by
  induction calls generalizing now sessions kv with
  | nil => exact iff_of_true rfl trivial
  | cons c calls ih =>
    obtain ⟨hroom, hmore⟩ := hroom
    obtain ⟨hnext, horder⟩ := List.pairwise_cons.mp horder
    obtain ⟨hsame, hdiffer⟩ := compared (h.later (hfirst c (.head _))) httl c.2 hroom
    have hlater : ∀ d ∈ calls, c.1 ≤ d.1 := fun d hd => hnext d.1 (List.mem_map_of_mem hd)
    simp only [results, List.cons.injEq, AllApart]
    by_cases hapart : Apart ttlSeconds sessions kv c
    · obtain ⟨heq, hrelated⟩ := hsame hapart
      rw [ih horder hlater hrelated hmore]
      exact and_congr_left fun _ => iff_of_true heq hapart
    · exact iff_of_false (fun hall => hdiffer hapart hall.1) fun hall => hapart hall.1

theorem related_empty (now : Nat) : Related now ∅ ∅ := ⟨nofun, nofun⟩

/-- With equal TTLs and below the Node store's capacity the two stores answer alike just if no
    call comes where they differ. -/
theorem stores_agree (ttlSeconds maxSessions : Nat) (calls : List Call) (horder : (calls.map (·.1)).Pairwise (· ≤ ·))
    (hroom : BelowCapacity ⟨ttlSeconds * 1000, maxSessions⟩ ∅ calls) :
    results (nodeStep ⟨ttlSeconds * 1000, maxSessions⟩) ∅ calls = results (workersStep ttlSeconds) ∅ calls ↔
      AllApart ⟨ttlSeconds * 1000, maxSessions⟩ ttlSeconds ∅ ∅ calls :=
  results_iff rfl horder (fun _ _ => Nat.zero_le _) (related_empty 0) hroom

def aToken : JsString := ofString "a2b3c"

def aPayload : Payload := ⟨ofString "ZW5j", ofString "ZXBo", ofString "bm9uY2U="⟩

/-- A session is created, submitted to, polled and deleted. -/
theorem a_quick_session_agrees :
    results (nodeStep ⟨600 * 1000, 10000⟩) ∅
        [(0, .create aToken (ofString "cHVi")), (30000, .submitCredentials aToken aPayload), (31000, .get aToken),
          (31000, .delete aToken)] =
      results (workersStep 600) ∅
        [(0, .create aToken (ofString "cHVi")), (30000, .submitCredentials aToken aPayload), (31000, .get aToken),
          (31000, .delete aToken)] :=
  (stores_agree 600 10000 _ (by decide) (by decide)).mpr (by decide)

theorem a_late_submission_is_rejected :
    BelowCapacity ⟨600 * 1000, 10000⟩ ∅
        [(0, .create aToken (ofString "cHVi")), (550000, .submitCredentials aToken aPayload)] ∧
      results (nodeStep ⟨600 * 1000, 10000⟩) ∅
          [(0, .create aToken (ofString "cHVi")), (550000, .submitCredentials aToken aPayload)] ≠
        results (workersStep 600) ∅
          [(0, .create aToken (ofString "cHVi")), (550000, .submitCredentials aToken aPayload)] := by
  decide

end Agreement

end FlowHelm.AuthBridge
