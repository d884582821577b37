/-
  FlowHelm.AuthBridge.Workers — the Workers bridge: the requests on one session, each of them one
  KV operation at a time, in any interleaving.

  A request goes on from `await` to `await`; what it does between two is done with the first.
  The requests are those that the rate limiter lets through; the session's token is drawn by one
  create. Noted beside the state are what was accepted, whether the session was deleted, and every
  poll's answer.

  - `inv_step`: what every step keeps, one lemma for each KV operation.
  - `accepts_once`: one submission is accepted at most, it is what polls hand out, and a deleted
    session stays away, as long as no put of a submission comes after the session it read has
    changed, none is empty, and no poll falls between KV's expiry and the session's.
  - `two_submissions_are_accepted`: both read the session before either writes it.
-/
import FlowHelm.AuthBridge.KvStore
import FlowHelm.Lib.Runs

namespace FlowHelm.AuthBridge

open Js Runs KVSessionStore

namespace Workers

/-! ## Requests -/

inductive Request where
  | poll
  | submit (p : Payload)
  | delete
  deriving DecidableEq

inductive Phase where
  | start
  /-- The session was found expired, and `kv.delete` is next. -/
  | dropping
  /-- `kv.put` of the filled session is next. -/
  | putting (got : SessionData) (expirationTtl : Nat)
  | answered (r : Response)
  deriving DecidableEq

structure Flight where
  request : Request
  phase : Phase
  deriving DecidableEq

/-- The create that draws the token. -/
inductive Creation where
  | absent
  | checking (publicKey : JsString)
  | clearing (publicKey : JsString)
  | opening (publicKey : JsString)
  | confirming
  | answered (r : Response)
  deriving DecidableEq

def Request.notFound : Request → Response
  | .submit _ => .notFound "Session not found, expired, or already submitted"
  | _ => .notFound "Session not found or expired"

/-- What a request does with what `store.get` found. -/
def Request.found (r : Request) (now : Nat) (session : SessionData) : Phase := match r with
  | .submit _ => if session.submitted then .answered r.notFound else .putting session (remainingSeconds session now)
  | _ => .answered (pollResponse (some session))

/-- A poll and the session as it was then. -/
structure Poll where
  time : Nat
  accepted : List Payload
  deleted : Bool
  response : Response
  deriving DecidableEq

structure St where
  kv : KvNamespace
  now : Nat
  creation : Creation
  flights : List Flight
  opened : Bool
  expiresAt : Nat
  accepted : List Payload
  deleted : Bool
  polls : List Poll

inductive Ev where
  | create (now : Nat) (publicKey : JsString)
  | creation (now : Nat)
  | arrive (now : Nat) (r : Request)
  | step (now : Nat) (i : Nat)

def Ev.time : Ev → Nat
  | .create now _ => now
  | .creation now => now
  | .arrive now _ => now
  | .step now _ => now

variable (ttlSeconds : Nat) (token : JsString)

/-- The next KV operation of the create. -/
def create (s : St) (now : Nat) : Option St := match s.creation with
  | .absent | .answered _ => none
  | .checking publicKey => some { s with
      now := now
      creation := match check (s.kv.get now (sessionKey token)) now with
        | .missing => .opening publicKey
        | .expired => .clearing publicKey
        -- another token is drawn
        | .found _ => .answered .internalError }
  | .clearing publicKey => some { s with kv := s.kv.delete (sessionKey token), now := now, creation := .opening publicKey }
  | .opening publicKey =>
    match s.kv.put now (sessionKey token) (.opened publicKey (now + ttlSeconds * 1000)) ttlSeconds with
    | none => some { s with now := now, creation := .answered .internalError }
    | some kv => some { s with
        kv := kv
        now := now
        creation := .confirming
        opened := true
        expiresAt := now + ttlSeconds * 1000 }
  | .confirming => some { s with
      now := now
      creation := .answered (match (get s.kv now token).2 with
        | some session => .created token session.expiresAt
        | none => .internalError) }

/-- The flight at `i` comes to `phase`. -/
def St.enter (s : St) (i : Nat) (phase : Phase) : St := match s.flights[i]? with
  | some f =>
    { s with
      flights := s.flights.set i { f with phase := phase }
      polls := match f.request, phase with
        | .poll, .answered r => ⟨s.now, s.accepted, s.deleted, r⟩ :: s.polls
        | _, _ => s.polls }
  | none => s

/-- The next KV operation of a request. -/
def advance (s : St) (now : Nat) (i : Nat) : Option St :=
  let s := { s with now := now }
  s.flights[i]?.bind fun f => match f.request, f.phase with
    | _, .answered _ => none
    | .delete, _ => some ({ s with kv := delete s.kv token, deleted := s.deleted || s.opened }.enter i (.answered .deleted))
    | r, .start => some (s.enter i (match check (s.kv.get now (sessionKey token)) now with
        | .missing => .answered r.notFound
        | .expired => .dropping
        | .found session => r.found now session))
    | r, .dropping => some ({ s with kv := s.kv.delete (sessionKey token) }.enter i (.answered r.notFound))
    | .submit p, .putting got expirationTtl => match s.kv.put now (sessionKey token) (got.fill p) expirationTtl with
      | none => some (s.enter i (.answered .internalError))
      | some kv => some ({ s with kv := kv, accepted := s.accepted ++ [p] }.enter i (.answered .ok))
    | .poll, .putting .. => none

def handle (s : St) : Ev → Option St
  | .create now publicKey => if s.creation = .absent then some { s with now := now, creation := .checking publicKey } else none
  | .creation now => create ttlSeconds token s now
  | .arrive now r => some { s with now := now, flights := s.flights ++ [⟨r, .start⟩] }
  | .step now i => advance token s now i

/-- Times do not decrease. -/
def step (s : St) (e : Ev) : Option St := if s.now ≤ e.time then handle ttlSeconds token s e else none

def bridge : System St Ev := ⟨⟨∅, 0, .absent, [], false, 0, [], false, []⟩, step ttlSeconds token⟩

structure Sound (s : St) : Prop where
  once : s.accepted.length ≤ 1
  polls : ∀ r ∈ s.polls, r.deleted = false → r.time ≤ s.expiresAt → ∀ p ∈ r.accepted,
    r.response = .ready p.encrypted (some p.ephemeralPublicKey) (some p.nonce)
  gone : s.deleted = true → ∀ now, s.kv.get now (sessionKey token) = none
  unseen : ∀ r ∈ s.polls, r.deleted = true → ∃ error, r.response = .notFound error

/-- A put that KV takes finds the session it read, and has something to put; a poll of a
    submitted session that is not over finds it in KV. -/
def Flight.Undisturbed (f : Flight) (kv : KvNamespace) (now : Nat) : Prop := match f.request, f.phase with
  | .submit p, .putting got expirationTtl => KvNamespace.minTtl ≤ expirationTtl →
    (kv.lookup (sessionKey token)).map (·.value) = some got ∧ p.encrypted ≠ []
  | .poll, .start => ∀ e ∈ kv.lookup (sessionKey token), e.value.submitted = true → now ≤ e.value.expiresAt → now < e.dropsAt
  | _, _ => True

def Undisturbed (s : St) : Ev → Prop
  | .step now i => ∀ f ∈ s.flights[i]?, f.Undisturbed token s.kv now
  | _ => True

instance (f : Flight) (kv : KvNamespace) (now : Nat) : Decidable (f.Undisturbed token kv now) := match f with
  | ⟨.submit _, .putting ..⟩ => inferInstanceAs (Decidable (_ → _ ∧ _))
  | ⟨.poll, .start⟩ => inferInstanceAs (Decidable (∀ _ ∈ _, _))
  | ⟨.submit _, .start⟩ | ⟨.submit _, .dropping⟩ | ⟨.submit _, .answered _⟩ | ⟨.poll, .dropping⟩ | ⟨.poll, .putting ..⟩
  | ⟨.poll, .answered _⟩ | ⟨.delete, _⟩ => isTrue trivial

instance (s : St) (e : Ev) : Decidable (Undisturbed token s e) := match e with
  | .step _ _ => inferInstanceAs (Decidable (∀ _ ∈ _, _))
  | .create .. | .creation _ | .arrive .. => isTrue trivial

/-! ## What is kept -/

/-- What is stored: nothing submitted, or what was accepted. -/
def Fits (accepted : List Payload) (d : SessionData) : Prop :=
  (accepted = [] ∧ d.encrypted = none) ∨ ∃ p d₀, accepted = [p] ∧ d = SessionData.fill d₀ p ∧ p.encrypted ≠ []

theorem Fits.new {accepted : List Payload} {d : SessionData} (h : Fits accepted d) (hnew : d.submitted = false) :
    accepted = [] := by
  rcases h with ⟨hnone, -⟩ | ⟨p, d₀, -, rfl, hp⟩
  · exact hnone
  · rw [fill_submitted] at hnew
    exact absurd hp (of_decide_eq_false hnew)

theorem Fits.ready {accepted : List Payload} {d : SessionData} (h : Fits accepted d) {p : Payload} (hp : p ∈ accepted) :
    d.submitted = true ∧ pollResponse (some d) = .ready p.encrypted (some p.ephemeralPublicKey) (some p.nonce) := by
  rcases h with ⟨hnone, -⟩ | ⟨q, d₀, hone, rfl, hq⟩
  · rw [hnone] at hp
    cases hp
  · rw [hone] at hp
    obtain rfl := List.mem_singleton.mp hp
    exact ⟨by rw [fill_submitted]; exact decide_eq_true hq, pollResponse_fill d₀ hq⟩

/-- The create has its session in KV, or gave up. -/
def Creation.settled : Creation → Prop
  | .confirming | .answered _ => True
  | _ => False

def Flying (s : St) : Phase → Prop
  | .dropping => s.opened = true ∧ s.expiresAt < s.now
  | .putting got _ => got.submitted = false
  | _ => True

structure Told (s : St) (r : Poll) : Prop where
  early : s.opened = false → r.accepted = []
  handed : r.deleted = false → r.time ≤ s.expiresAt → ∀ p ∈ r.accepted,
    r.response = .ready p.encrypted (some p.ephemeralPublicKey) (some p.nonce)
  unseen : r.deleted = true → ∃ error, r.response = .notFound error

structure Inv (s : St) : Prop where
  unopened : s.opened = false → s.kv.lookup (sessionKey token) = none ∧ s.accepted = [] ∧ s.deleted = false
  settled : s.opened = true → s.creation.settled
  once : s.accepted.length ≤ 1
  stored : ∀ e, s.kv.lookup (sessionKey token) = some e →
    s.deleted = false ∧ e.value.expiresAt = s.expiresAt ∧ Fits s.accepted e.value
  kept : s.opened = true → s.deleted = false → s.now ≤ s.expiresAt → ∃ e, s.kv.lookup (sessionKey token) = some e
  flying : ∀ f ∈ s.flights, Flying s f.phase
  told : ∀ r ∈ s.polls, Told s r

variable {ttlSeconds token}

theorem Inv.opened_of_lookup {s : St} (h : Inv token s) {e : KvEntry} (he : s.kv.lookup (sessionKey token) = some e) :
    s.opened = true := by
  by_contra hclosed
  rw [(h.unopened (Bool.eq_false_iff.mpr hclosed)).1] at he
  cases he

/-- A create that is under way has no session in KV. -/
theorem Inv.closed {s : St} (h : Inv token s) (hs : ¬s.creation.settled) : s.opened = false :=
  Bool.eq_false_iff.mpr fun hopen => hs (h.settled hopen)

/-- What a poll is judged by. -/
theorem Told.keep {s t : St} {r : Poll} (h : Told s r) (hopened : t.opened = s.opened) (hexpires : t.expiresAt = s.expiresAt) :
    Told t r := by
  refine ⟨fun hclosed => h.early (hopened ▸ hclosed), fun hdel hlive => h.handed hdel ?_, h.unseen⟩
  rw [← hexpires]
  exact hlive

theorem inv_init : Inv token (bridge ttlSeconds token).init :=
  ⟨fun _ => ⟨rfl, rfl, rfl⟩, nofun, Nat.zero_le _, nofun, nofun, nofun, nofun⟩

theorem Inv.sound {s : St} (h : Inv token s) : Sound token s := by
  refine ⟨h.once, fun r hr => (h.told r hr).handed, fun hdel now => ?_, fun r hr => (h.told r hr).unseen⟩
  unfold KvNamespace.get
  cases he : s.kv.lookup (sessionKey token) with
  | none => rfl
  | some e =>
    rw [(h.stored e he).1] at hdel
    cases hdel

/-! ## The KV operations -/

theorem inv_tick {s : St} {now : Nat} (h : Inv token s) (htime : s.now ≤ now) : Inv token { s with now := now } := by
  refine ⟨h.unopened, h.settled, h.once, h.stored, fun hopen hdel hlive => ?_, fun f hf => ?_, fun r hr => ?_⟩
  · exact h.kept hopen hdel (le_trans htime hlive)
  · have hfly := h.flying f hf
    cases hphase : f.phase with
    | dropping =>
      rw [hphase] at hfly
      exact ⟨hfly.1, lt_of_lt_of_le hfly.2 htime⟩
    | putting got n =>
      rw [hphase] at hfly
      exact hfly
    | _ => trivial
  · exact (h.told r hr).keep rfl rfl

/-- The create goes on, with the session not in KV before, or in KV already. -/
theorem inv_creation {s : St} {c : Creation} (h : Inv token s) (hc : s.opened = true → c.settled) :
    Inv token { s with creation := c } :=
  ⟨h.unopened, hc, h.once, h.stored, h.kept, fun f hf => by simpa only [Flying] using h.flying f hf,
    fun r hr => (h.told r hr).keep rfl rfl⟩

theorem lookup_delete (kv : KvNamespace) (key : JsString) : (kv.delete key).lookup key = none := AList.lookup_erase ..

/-- The session leaves KV before it is there, after it is over, or as it is deleted. -/
theorem inv_clear {s : St} {deleted : Bool} (h : Inv token s)
    (hgone : s.opened = true → deleted = true ∨ s.expiresAt < s.now) (hdel : s.opened = false → deleted = false) :
    Inv token { s with kv := s.kv.delete (sessionKey token), deleted := deleted } := by
  have hnone := lookup_delete s.kv (sessionKey token)
  refine ⟨fun hclosed => ?_, h.settled, h.once, fun e he => ?_, fun hopen hkeep hlive => ?_, h.flying, fun r hr => ?_⟩
  · exact ⟨hnone, (h.unopened hclosed).2.1, hdel hclosed⟩
  · rw [hnone] at he
    cases he
  · rcases hgone hopen with hdeleted | hover
    · rw [hdeleted] at hkeep
      cases hkeep
    · exact absurd hlive (not_le.mpr hover)
  · exact (h.told r hr).keep rfl rfl

theorem put_some {kv kv' : KvNamespace} {now ttl : Nat} {key : JsString} {d : SessionData} (h : kv.put now key d ttl = some kv') :
    kv' = kv.insert key ⟨d, now + ttl * 1000⟩ := by
  unfold KvNamespace.put at h
  split at h
  · cases h
  · exact (Option.some.inj h).symm

theorem put_taken {kv kv' : KvNamespace} {now ttl : Nat} {key : JsString} {d : SessionData}
    (h : kv.put now key d ttl = some kv') :
    KvNamespace.minTtl ≤ ttl := by
  unfold KvNamespace.put at h
  split at h
  · cases h
  · omega

theorem inv_open {s : St} {publicKey : JsString} {kv : KvNamespace} (h : Inv token s) (hs : s.creation = .opening publicKey)
    (hput : s.kv.put s.now (sessionKey token) (.opened publicKey (s.now + ttlSeconds * 1000)) ttlSeconds = some kv) :
    Inv token { s with kv := kv, creation := .confirming, opened := true, expiresAt := s.now + ttlSeconds * 1000 } := by
  have hclosed : s.opened = false := h.closed (by rw [hs]; exact id)
  obtain ⟨-, hnone, hdel⟩ := h.unopened hclosed
  have hlookup : kv.lookup (sessionKey token) =
      some ⟨.opened publicKey (s.now + ttlSeconds * 1000), s.now + ttlSeconds * 1000⟩ := by
    rw [put_some hput]
    exact AList.lookup_insert ..
  refine ⟨nofun, fun _ => trivial, h.once, fun e he => ?_, fun _ _ _ => ⟨_, hlookup⟩, fun f hf => ?_, fun r hr => ?_⟩
  · rw [hlookup] at he
    obtain rfl := Option.some.inj he
    exact ⟨hdel, rfl, .inl ⟨hnone, rfl⟩⟩
  · have hfly := h.flying f hf
    cases hphase : f.phase with
    | dropping =>
      rw [hphase, Flying, hclosed] at hfly
      cases hfly.1
    | putting got n =>
      rw [hphase] at hfly
      exact hfly
    | _ => trivial
  · have hearly := (h.told r hr).early hclosed
    refine ⟨nofun, fun _ _ p hp => ?_, (h.told r hr).unseen⟩
    rw [hearly] at hp
    cases hp

/-- A submission is put over the session it read. -/
theorem inv_accept {s : St} {e : KvEntry} {p : Payload} {ttl : Nat} {kv : KvNamespace} (h : Inv token s)
    (he : s.kv.lookup (sessionKey token) = some e) (hnew : e.value.submitted = false) (hp : p.encrypted ≠ [])
    (hput : s.kv.put s.now (sessionKey token) (e.value.fill p) ttl = some kv) :
    Inv token { s with kv := kv, accepted := s.accepted ++ [p] } := by
  obtain ⟨hdel, hexp, hfits⟩ := h.stored e he
  have hopen := h.opened_of_lookup he
  have haccepted : s.accepted ++ [p] = [p] := by rw [hfits.new hnew, List.nil_append]
  have hlookup : kv.lookup (sessionKey token) = some ⟨e.value.fill p, s.now + ttl * 1000⟩ := by
    rw [put_some hput]
    exact AList.lookup_insert ..
  refine ⟨fun hclosed => ?_, h.settled, ?_, fun e' he' => ?_, fun _ _ _ => ⟨_, hlookup⟩, h.flying, fun r hr => ?_⟩
  · rw [hopen] at hclosed
    cases hclosed
  · rw [haccepted]
    exact le_refl 1
  · rw [hlookup] at he'
    obtain rfl := Option.some.inj he'
    exact ⟨hdel, hexp, .inr ⟨p, e.value, haccepted, rfl, hp⟩⟩
  · exact (h.told r hr).keep rfl rfl

/-! ## Flights -/

theorem inv_arrive {s : St} (r : Request) (h : Inv token s) : Inv token { s with flights := s.flights ++ [⟨r, .start⟩] } := by
  refine ⟨h.unopened, h.settled, h.once, h.stored, h.kept, fun f hf => ?_, fun r hr => ?_⟩
  · rcases List.mem_append.mp hf with hf | hf
    · exact h.flying f hf
    · obtain rfl := List.mem_singleton.mp hf
      trivial
  · exact (h.told r hr).keep rfl rfl

theorem inv_enter {s : St} {i : Nat} {f : Flight} {phase : Phase} (h : Inv token s) (hf : s.flights[i]? = some f)
    (hphase : Flying s phase)
    (htold : ∀ r, f.request = .poll → phase = .answered r → Told s ⟨s.now, s.accepted, s.deleted, r⟩) :
    Inv token (s.enter i phase) := by
  unfold St.enter
  rw [hf]
  refine ⟨h.unopened, h.settled, h.once, h.stored, h.kept, fun f' hf' => ?_, fun r hr => ?_⟩
  · rcases List.mem_or_eq_of_mem_set hf' with hold | rfl
    · exact h.flying f' hold
    · exact hphase
  · suffices hr : Told s r from hr.keep rfl rfl
    dsimp only at hr
    split at hr
    · rename_i r' hpoll
      rcases List.mem_cons.mp hr with rfl | hr
      · exact htold r' hpoll rfl
      · exact h.told r hr
    · exact h.told r hr

/-! ## Requests -/

theorem found_flying {r : Request} {now : Nat} {session : SessionData} {s : St} : Flying s (r.found now session) := by
  cases r with
  | submit p =>
    unfold Request.found
    dsimp only
    split
    · trivial
    · rename_i hnew
      exact Bool.eq_false_iff.mpr hnew
  | _ => trivial

theorem Request.found_poll (now : Nat) {session : SessionData} {r : Response}
    (h : Request.poll.found now session = .answered r) : r = pollResponse (some session) := (Phase.answered.inj h).symm

/-- What is in KV, as a request finds it. -/
theorem Inv.check {s : St} (h : Inv token s) : ∀ got, KVSessionStore.check (s.kv.get s.now (sessionKey token)) s.now = got →
    match got with
    | .missing => ∀ e, s.kv.lookup (sessionKey token) = some e → e.dropsAt ≤ s.now
    | .expired => s.opened = true ∧ s.expiresAt < s.now
    | .found session => s.deleted = false ∧ Fits s.accepted session := by
  intro got hgot
  unfold KvNamespace.get at hgot
  cases he : s.kv.lookup (sessionKey token) with
  | none =>
    rw [he] at hgot
    obtain rfl := hgot
    exact nofun
  | some e =>
    rw [he] at hgot
    obtain ⟨hdel, hexp, hfits⟩ := h.stored e he
    by_cases hkept : s.now < e.dropsAt
    · simp only [Option.bind_some, if_pos hkept, KVSessionStore.check, hexp] at hgot
      split at hgot
      · rename_i hlate
        obtain rfl := hgot
        exact ⟨h.opened_of_lookup he, hlate⟩
      · obtain rfl := hgot
        exact ⟨hdel, hfits⟩
    · simp only [Option.bind_some, if_neg hkept, KVSessionStore.check] at hgot
      obtain rfl := hgot
      intro e' he'
      obtain rfl := Option.some.inj he'
      omega

/-- A poll that finds nothing. -/
theorem told_nothing {s : St} (h : Inv token s) (error : String)
    (hnone : s.opened = true → s.deleted = false → s.now ≤ s.expiresAt → s.accepted = []) :
    Told s ⟨s.now, s.accepted, s.deleted, .notFound error⟩ := by
  refine ⟨fun hclosed => (h.unopened hclosed).2.1, fun hdel hlive p hp => ?_, fun _ => ⟨error, rfl⟩⟩
  cases hopen : s.opened with
  | false =>
    rw [(h.unopened hopen).2.1] at hp
    cases hp
  | true =>
    rw [hnone hopen hdel hlive] at hp
    cases hp

/-- What a request makes of the session it found, or of finding none. -/
def Request.enters (r : Request) (now : Nat) : Got → Phase
  | .missing => .answered r.notFound
  | .expired => .dropping
  | .found session => r.found now session

theorem inv_start {s : St} {i : Nat} {f : Flight} (h : Inv token s) (hf : s.flights[i]? = some f)
    (hheld : f.request = .poll → ∀ e ∈ s.kv.lookup (sessionKey token), e.value.submitted = true →
      s.now ≤ e.value.expiresAt → s.now < e.dropsAt) :
    Inv token (s.enter i (f.request.enters s.now (check (s.kv.get s.now (sessionKey token)) s.now))) := by
  have hcheck := h.check _ rfl
  refine inv_enter h hf ?_ fun r hpoll hanswer => ?_
  · cases hgot : check (s.kv.get s.now (sessionKey token)) s.now with
    | missing => trivial
    | expired =>
      rw [hgot] at hcheck
      exact hcheck
    | found session => exact found_flying
  · rw [hpoll] at hanswer
    cases hgot : check (s.kv.get s.now (sessionKey token)) s.now with
    | missing =>
      rw [hgot] at hcheck hanswer
      obtain rfl := Phase.answered.inj hanswer
      refine told_nothing h _ fun hopen hdel hlive => ?_
      obtain ⟨e, he⟩ := h.kept hopen hdel hlive
      obtain ⟨-, hexp, hfits⟩ := h.stored e he
      have hdropped := hcheck e he
      -- a submitted session would have been held
      refine hfits.new (Bool.eq_false_iff.mpr fun hsubmitted => ?_)
      have := hheld hpoll e he hsubmitted (by omega)
      omega
    | expired =>
      rw [hgot] at hanswer
      cases hanswer
    | found session =>
      rw [hgot] at hcheck hanswer
      obtain rfl := Request.found_poll s.now hanswer
      refine ⟨fun hclosed => (h.unopened hclosed).2.1, fun _ _ p hp => (hcheck.2.ready hp).2, fun hdel => ?_⟩
      rw [hcheck.1] at hdel
      cases hdel

theorem inv_drop {s : St} {i : Nat} {f : Flight} (h : Inv token s) (hf : s.flights[i]? = some f) (hphase : f.phase = .dropping) :
    Inv token ({ s with kv := s.kv.delete (sessionKey token) }.enter i (.answered f.request.notFound)) := by
  have hfly := h.flying f (List.mem_of_getElem? hf)
  rw [hphase] at hfly
  have hclear : Inv token { s with kv := s.kv.delete (sessionKey token) } :=
    inv_clear h (fun _ => .inr hfly.2) fun hclosed => (h.unopened hclosed).2.2
  refine inv_enter hclear hf trivial fun r hpoll hanswer => ?_
  obtain rfl := Phase.answered.inj hanswer
  rw [hpoll]
  refine told_nothing hclear _ fun _ _ hlive => ?_
  exact absurd hlive (not_le.mpr hfly.2)

theorem inv_delete {s : St} {i : Nat} {f : Flight} (h : Inv token s) (hf : s.flights[i]? = some f)
    (hrequest : f.request = .delete) :
    Inv token ({ s with kv := delete s.kv token, deleted := s.deleted || s.opened }.enter i (.answered .deleted)) := by
  refine inv_enter (inv_clear h (fun hopen => .inl ?_) fun hclosed => ?_) hf trivial fun r hpoll => ?_
  · rw [hopen, Bool.or_true]
  · rw [hclosed, Bool.or_false]
    exact (h.unopened hclosed).2.2
  · rw [hrequest] at hpoll
    cases hpoll

theorem inv_put {s : St} {i : Nat} {p : Payload} {got : SessionData} {ttl : Nat} {t : St} (h : Inv token s)
    (hf : s.flights[i]? = some ⟨.submit p, .putting got ttl⟩)
    (hc : KvNamespace.minTtl ≤ ttl → (s.kv.lookup (sessionKey token)).map (·.value) = some got ∧ p.encrypted ≠ [])
    (ht : (match s.kv.put s.now (sessionKey token) (got.fill p) ttl with
      | none => some (s.enter i (.answered .internalError))
      | some kv =>
        some ({ s with kv := kv, accepted := s.accepted ++ [p] }.enter i (.answered .ok))) = some t) : Inv token t := by
  have hnew : got.submitted = false := h.flying _ (List.mem_of_getElem? hf)
  split at ht
  · obtain rfl := Option.some.inj ht
    exact inv_enter h hf trivial nofun
  · rename_i kv hput
    obtain rfl := Option.some.inj ht
    obtain ⟨hfresh, hp⟩ := hc (put_taken hput)
    obtain ⟨e, he, rfl⟩ := Option.map_eq_some_iff.mp hfresh
    exact inv_enter (inv_accept h he hnew hp hput) hf trivial nofun

theorem inv_advance {s t : St} {now : Nat} {i : Nat} (h : Inv token s) (htime : s.now ≤ now)
    (hc : Undisturbed token s (.step now i)) (ht : advance token s now i = some t) : Inv token t := by
  replace h := inv_tick h htime
  unfold advance at ht
  obtain ⟨⟨request, phase⟩, hf, ht⟩ := Option.bind_eq_some_iff.mp ht
  replace hc := hc _ hf
  cases phase with
  | answered r => cases request <;> cases ht
  | start =>
    cases request with
    | delete =>
      obtain rfl := Option.some.inj ht
      exact inv_delete h hf rfl
    | poll =>
      obtain rfl := Option.some.inj ht
      exact inv_start h hf fun _ => hc
    | submit p =>
      obtain rfl := Option.some.inj ht
      exact inv_start h hf nofun
  | dropping =>
    cases request with
    | delete =>
      obtain rfl := Option.some.inj ht
      exact inv_delete h hf rfl
    | _ =>
      obtain rfl := Option.some.inj ht
      exact inv_drop h hf rfl
  | putting got ttl =>
    cases request with
    | delete =>
      obtain rfl := Option.some.inj ht
      exact inv_delete h hf rfl
    | poll => cases ht
    | submit p => exact inv_put h hf hc ht

theorem inv_create {s t : St} {now : Nat} (h : Inv token s) (htime : s.now ≤ now)
    (ht : create ttlSeconds token s now = some t) : Inv token t := by
  have hunsettled : ¬s.creation.settled → ¬s.opened = true := fun hs => Bool.eq_false_iff.mp (h.closed hs)
  replace h := inv_tick h htime
  unfold create at ht
  split at ht
  · cases ht
  · cases ht
  · rename_i publicKey hs
    obtain rfl := Option.some.inj ht
    have hclosed := hunsettled (by rw [hs]; exact id)
    exact inv_creation h fun hopen => absurd hopen hclosed
  · rename_i publicKey hs
    obtain rfl := Option.some.inj ht
    have hclosed := hunsettled (by rw [hs]; exact id)
    have hclear := inv_clear h (fun hopen => absurd hopen hclosed) fun hclosed => (h.unopened hclosed).2.2
    exact inv_creation hclear fun hopen => absurd hopen hclosed
  · rename_i publicKey hs
    split at ht
    · obtain rfl := Option.some.inj ht
      exact inv_creation h fun _ => trivial
    · rename_i kv hput
      obtain rfl := Option.some.inj ht
      exact inv_open h hs hput
  · obtain rfl := Option.some.inj ht
    exact inv_creation h fun _ => trivial

theorem inv_step {s t : St} {e : Ev} (h : Inv token s) (hc : Undisturbed token s e)
    (hs : step ttlSeconds token s e = some t) : Inv token t := by
  unfold step at hs
  split at hs
  · rename_i htime
    cases e with
    | create now publicKey =>
      simp only [handle] at hs
      split at hs
      · rename_i habsent
        obtain rfl := Option.some.inj hs
        have hclosed := h.closed (by rw [habsent]; exact id)
        exact inv_creation (inv_tick h htime) fun hopen => absurd hopen (Bool.eq_false_iff.mp hclosed)
      · cases hs
    | creation now => exact inv_create h htime hs
    | arrive now r =>
      obtain rfl := Option.some.inj hs
      exact inv_arrive r (inv_tick h htime)
    | step now i => exact inv_advance h htime hc hs
  · cases hs

/-- One submission is accepted at most and handed to every poll, in every interleaving in which no
    put comes late. -/
theorem accepts_once (ttlSeconds : Nat) (token : JsString) :
    ∀ s, Reach (bridge ttlSeconds token) (Undisturbed token) s → Sound token s := by
  intro s hs
  have hinv : Inv token s := hs.inv inv_init fun _ _ _ _ h hc hstep => inv_step h hc hstep
  exact hinv.sound

def pem : JsString := ofString "cHVi"

def login (encrypted : String) : Payload := ⟨ofString encrypted, ofString "ZXBo", ofString "bm9uY2U="⟩

/-- The create, up to its answer. -/
def opens : List Ev := [.create 0 pem, .creation 0, .creation 0, .creation 0]

theorem a_submission_is_polled : ∃ s, Reach (bridge 600 (ofString "a2b3c")) (Undisturbed (ofString "a2b3c")) s ∧
    s.polls.map (·.accepted) = [[login "ZW5j"]] ∧ Sound (ofString "a2b3c") s := by
  have hrun : ∃ s, Reach (bridge 600 (ofString "a2b3c")) (Undisturbed (ofString "a2b3c")) s ∧
      decide (s.polls.map (·.accepted) = [[login "ZW5j"]]) = true :=
    reach_any (opens ++ [.arrive 1 (.submit (login "ZW5j")), .step 1 0, .step 2 0, .arrive 3 .poll, .step 3 1])
      (by decide) (by decide)
  obtain ⟨s, hs, hpolled⟩ := hrun
  exact ⟨s, hs, of_decide_eq_true hpolled, accepts_once 600 (ofString "a2b3c") s hs⟩

theorem two_submissions_are_accepted : ∃ s, Reach (bridge 600 (ofString "a2b3c")) Free s ∧ ¬Sound (ofString "a2b3c") s := by
  have hrun : ∃ s, Reach (bridge 600 (ofString "a2b3c")) Free s ∧ decide (s.accepted = [login "ZW5j", login "ZXZp"]) = true :=
    reach_any (opens ++ [.arrive 1 (.submit (login "ZW5j")), .arrive 1 (.submit (login "ZXZp")), .step 2 0, .step 2 1,
      .step 3 0, .step 3 1]) (meets_free ..) (by decide)
  obtain ⟨s, hs, htwo⟩ := hrun
  refine ⟨s, hs, fun h => ?_⟩
  have honce := h.once
  rw [of_decide_eq_true htwo] at honce
  exact absurd honce (by decide)

end Workers

end FlowHelm.AuthBridge
