/-
  FlowHelm.AuthBridge.Relay — the auth bridge on Node over its whole life: requests one after the
  other, and what each session was answered.

  The life of a session begins with the create that made its token and is noted under the token,
  the newest first; a token may be drawn again. What was accepted for it is noted with it, and
  beside every poll the life it was a poll of.

  - `change`: everything one request can do to the sessions and their lives.
  - `relays_once`: at most one submission is accepted for a session, polls hand out exactly
    that, and the capacity is kept, as long as no accepted submission has an empty `encrypted`.
  - `an_empty_blob_is_submitted_twice`: the blob is tested by its truthiness.
-/
import FlowHelm.AuthBridge.Store
import FlowHelm.Lib.Runs

namespace FlowHelm.AuthBridge

open Js Runs SessionStore

namespace Relay

/-! ## Runs -/

structure Life where
  expiresAt : Nat
  /-- What was submitted and answered with ok. -/
  accepted : List Payload
  deleted : Bool
  deriving DecidableEq, Repr

/-- A poll that the limiter let through, with the life of its token. -/
structure Poll where
  time : Nat
  life : Option Life
  response : Response
  deriving DecidableEq, Repr

structure St where
  sessions : Sessions
  now : Nat
  lives : JsString → List Life
  polled : List Poll

inductive Ev where
  | create (now : Nat) (allowed : Bool) (body : Option Json) (draws : List JsString)
  | poll (now : Nat) (allowed : Bool) (token : JsString)
  | submit (now : Nat) (allowed : Bool) (token : JsString) (body : Option Json)
  | delete (now : Nat) (token : JsString)
  /-- The QR code, the page and the redirect look a session up. -/
  | look (now : Nat) (token : JsString)
  | cleanup (now : Nat)

def Ev.time : Ev → Nat
  | .create now .. => now
  | .poll now .. => now
  | .submit now .. => now
  | .delete now _ => now
  | .look now _ => now
  | .cleanup now => now

def upd (lives : JsString → List Life) (token : JsString) (ls : List Life) : JsString → List Life :=
  fun other => if other = token then ls else lives other

@[simp] theorem upd_same (lives : JsString → List Life) (token : JsString) (ls : List Life) : upd lives token ls token = ls :=
  if_pos rfl

theorem upd_ne (lives : JsString → List Life) {token other : JsString} (ls : List Life) (h : other ≠ token) :
    upd lives token ls other = lives other := if_neg h

/-- The newest life under a token, changed. -/
def changeHead (f : Life → Life) : List Life → List Life
  | [] => [f ⟨0, [], true⟩]
  | life :: older => f life :: older

def Life.accept (p : Payload) (life : Life) : Life := { life with accepted := life.accepted ++ [p] }

def Life.delete (life : Life) : Life := { life with deleted := true }

/-- What a create notes. -/
def noteCreated (lives : JsString → List Life) : Response → JsString → List Life
  | .created token expiresAt => upd lives token (⟨expiresAt, [], false⟩ :: lives token)
  | _ => lives

/-- What a submission notes. -/
def noteSubmitted (lives : JsString → List Life) (token : JsString) (p : Option Payload) : Response → JsString → List Life
  | .ok => match p with
    | some p => upd lives token (changeHead (.accept p) (lives token))
    | none => lives
  | _ => lives

variable (options : StoreOptions)

/-- The payload of a body that the submit route takes. -/
def payload? (body : Option Json) : Option Payload := (body.filter Json.truthy).bind Payload.read

def run (s : St) : Ev → St
  | .create now allowed body draws =>
    let r := createRoute options s.sessions now allowed body draws
    { s with sessions := r.1, now := now, lives := noteCreated s.lives r.2 }
  | .poll now allowed token =>
    let r := pollRoute s.sessions now allowed token
    { s with
      sessions := r.1
      now := now
      polled := if allowed then ⟨now, (s.lives token).head?, r.2⟩ :: s.polled else s.polled }
  | .submit now allowed token body =>
    let r := submitRoute s.sessions now allowed token body
    { s with sessions := r.1, now := now, lives := noteSubmitted s.lives token (payload? body) r.2 }
  | .delete now token =>
    { s with
      sessions := (deleteRoute s.sessions token).1
      now := now
      lives := upd s.lives token (changeHead .delete (s.lives token)) }
  | .look now token => { s with sessions := (get s.sessions now token).1, now := now }
  | .cleanup now => { s with sessions := (cleanup s.sessions now).1, now := now }

/-- Times do not decrease. -/
def step (s : St) (e : Ev) : Option St := if s.now ≤ e.time then some (run options s e) else none

def bridge : System St Ev := ⟨⟨∅, 0, fun _ => [], []⟩, step options⟩

structure Sound (s : St) : Prop where
  once : ∀ token, ∀ life ∈ s.lives token, life.accepted.length ≤ 1
  polls : ∀ r ∈ s.polled, ∀ life, r.life = some life → life.deleted = false → r.time ≤ life.expiresAt →
    ∀ p ∈ life.accepted, r.response = .ready p.encrypted (some p.ephemeralPublicKey) (some p.nonce)
  bounded : size s.sessions ≤ options.maxSessions

/-- A submission that will be accepted has something in it. -/
def Filled (s : St) : Ev → Prop
  | .submit now allowed token body => allowed = true → ∀ p, payload? body = some p →
    ∀ d, live s.sessions now token = some d → d.submitted = false → p.encrypted ≠ []
  | _ => True

/-! ## What one request does -/

inductive Change (s : St) (e : Ev) (t : St) : Prop
  | drops (hs : Drops s.sessions t.sessions t.now) (hl : t.lives = s.lives)
  | created (token publicKey : JsString) (mid : Sessions) (hs : Drops s.sessions mid t.now) (hfree : mid.lookup token = none)
      (hroom : size mid < options.maxSessions)
      (ht : t.sessions = mid.insert token (.opened publicKey (t.now + options.ttlMs)))
      (hl : t.lives = upd s.lives token (⟨t.now + options.ttlMs, [], false⟩ :: s.lives token))
  | submitted (token : JsString) (p : Payload) (d : SessionData) (hd : live s.sessions t.now token = some d)
      (hnew : d.submitted = false) (hfilled : Filled s e → p.encrypted ≠ [])
      (ht : t.sessions = s.sessions.insert token (d.fill p))
      (hl : t.lives = upd s.lives token (changeHead (.accept p) (s.lives token)))
  | deleted (token : JsString) (ht : t.sessions = s.sessions.erase token)
      (hl : t.lives = upd s.lives token (changeHead .delete (s.lives token)))

theorem generateUniqueToken_spec {sessions mid : Sessions} {now : Nat} {draws : List JsString} {found : Option JsString}
    (h : generateUniqueToken sessions now draws = (mid, found)) :
    Drops sessions mid now ∧ ∀ token, found = some token → mid.lookup token = none := by
  induction draws generalizing sessions with
  | nil =>
    obtain ⟨rfl, rfl⟩ := Prod.mk.inj h
    exact ⟨.refl .., nofun⟩
  | cons draw draws ih =>
    have hdrops := get_drops sessions now draw
    simp only [generateUniqueToken, has] at h
    cases hget : (get sessions now draw).2 with
    | some d =>
      rw [hget] at h
      obtain ⟨hmore, hfree⟩ := ih h
      exact ⟨hdrops.trans hmore, hfree⟩
    | none =>
      rw [hget] at h
      obtain ⟨rfl, rfl⟩ := Prod.mk.inj h
      refine ⟨hdrops, fun token htoken => ?_⟩
      obtain rfl := Option.some.inj htoken
      cases hlookup : (get sessions now draw).1.lookup draw with
      | none => rfl
      | some d =>
        -- what `get` leaves of the draw is live, and would have been found
        exfalso
        have hlive : live sessions now draw = none := by rw [← get_value, hget]
        have hold := hdrops.old draw d hlookup
        unfold SessionStore.get at hlookup
        rw [hold] at hlookup
        dsimp only at hlookup
        split at hlookup
        · rw [AList.lookup_erase] at hlookup
          cases hlookup
        · rename_i htime
          rw [live_some.mpr ⟨hold, by omega⟩] at hlive
          cases hlive

/-- A create makes nothing, or a session under a token that is free. -/
theorem createRoute_cases {sessions left : Sessions} {now : Nat} {allowed : Bool} {body : Option Json} {draws : List JsString}
    {response : Response} (h : createRoute options sessions now allowed body draws = (left, response)) :
    (Drops sessions left now ∧ ∀ token n, response ≠ .created token n) ∨
      ∃ token publicKey mid, Drops sessions mid now ∧ mid.lookup token = none ∧ size mid < options.maxSessions ∧
        left = mid.insert token (.opened publicKey (now + options.ttlMs)) ∧ response = .created token (now + options.ttlMs) := by
  unfold createRoute at h
  split at h
  · obtain ⟨rfl, rfl⟩ := Prod.mk.inj h
    exact .inl ⟨.refl .., nofun⟩
  split at h
  · obtain ⟨rfl, rfl⟩ := Prod.mk.inj h
    exact .inl ⟨.refl .., nofun⟩
  · obtain ⟨rfl, rfl⟩ := Prod.mk.inj h
    exact .inl ⟨.refl .., nofun⟩
  · rename_i publicKey _ _
    split at h
    · rename_i mid hdraw
      obtain ⟨rfl, rfl⟩ := Prod.mk.inj h
      exact .inl ⟨(generateUniqueToken_spec hdraw).1, nofun⟩
    · rename_i mid token hdraw
      obtain ⟨hdrops, hfree⟩ := generateUniqueToken_spec hdraw
      unfold SessionStore.create at h
      by_cases hfull : options.maxSessions ≤ size mid
      · rw [if_pos hfull] at h
        obtain ⟨rfl, rfl⟩ := Prod.mk.inj h
        exact .inl ⟨hdrops, nofun⟩
      · rw [if_neg hfull] at h
        obtain ⟨rfl, rfl⟩ := Prod.mk.inj h
        exact .inr ⟨token, publicKey, mid, hdrops, hfree token rfl, by omega, rfl, rfl⟩

theorem change_create (s : St) (now : Nat) (allowed : Bool) (body : Option Json) (draws : List JsString) :
    Change options s (.create now allowed body draws) (run options s (.create now allowed body draws)) := by
  cases hr : createRoute options s.sessions now allowed body draws with
  | mk left response =>
    have hrun : run options s (.create now allowed body draws) =
        { s with sessions := left, now := now, lives := noteCreated s.lives response } := by
      simp only [run, hr]
    rw [hrun]
    rcases createRoute_cases options hr with ⟨hdrops, hother⟩ | ⟨token, publicKey, mid, hdrops, hfree, hroom, rfl, rfl⟩
    · refine .drops hdrops ?_
      cases response with
      | created token n => exact absurd rfl (hother token n)
      | _ => rfl
    · exact .created token publicKey mid hdrops hfree hroom rfl rfl

theorem change_submit (s : St) (now : Nat) (allowed : Bool) (token : JsString) (body : Option Json) :
    Change options s (.submit now allowed token body) (run options s (.submit now allowed token body)) := by
  cases hr : submitRoute s.sessions now allowed token body with
  | mk left response =>
    have hrun : run options s (.submit now allowed token body) =
        { s with sessions := left, now := now, lives := noteSubmitted s.lives token (payload? body) response } := by
      simp only [run, hr]
    rw [hrun]
    unfold submitRoute at hr
    by_cases hallowed : allowed = true
    · simp only [hallowed, Bool.not_true, Bool.false_eq_true, if_false] at hr
      split at hr
      · obtain ⟨rfl, rfl⟩ := Prod.mk.inj hr
        exact .drops (.refl ..) rfl
      · rename_i p hp
        split at hr
        · rename_i mid hrefused
          obtain ⟨rfl, rfl⟩ := Prod.mk.inj hr
          have hmid : mid = (SessionStore.get s.sessions now token).1 := by
            rw [← submitCredentials_refuses (congrArg Prod.snd hrefused), hrefused]
          refine .drops ?_ rfl
          rw [hmid]
          exact get_drops ..
        · rename_i mid htaken
          obtain ⟨rfl, rfl⟩ := Prod.mk.inj hr
          obtain ⟨d, hd, hnew⟩ := submitCredentials_true.mp (congrArg Prod.snd htaken)
          rw [submitCredentials_stores hd hnew] at htaken
          refine .submitted token p d hd hnew (fun hfilled => hfilled hallowed p hp d hd hnew) ?_ ?_
          · exact (Prod.mk.inj htaken).1.symm
          · simp only [noteSubmitted, payload?, hp]
    · simp only [hallowed, Bool.not_false, if_true] at hr
      obtain ⟨rfl, rfl⟩ := Prod.mk.inj hr
      exact .drops (.refl ..) rfl

theorem change_poll (s : St) (now : Nat) (allowed : Bool) (token : JsString) :
    Change options s (.poll now allowed token) (run options s (.poll now allowed token)) := by
  refine .drops ?_ rfl
  show Drops s.sessions (pollRoute s.sessions now allowed token).1 now
  unfold pollRoute
  split
  · exact .refl ..
  · exact get_drops ..

variable {options}

/-- What a request does. -/
theorem change {s t : St} {e : Ev} (h : step options s e = some t) : s.now ≤ t.now ∧ t.now = e.time ∧ Change options s e t := by
  unfold step at h
  split at h
  · rename_i htime
    obtain rfl := Option.some.inj h
    cases e with
    | create now allowed body draws => exact ⟨htime, rfl, change_create ..⟩
    | poll now allowed token => exact ⟨htime, rfl, change_poll ..⟩
    | submit now allowed token body => exact ⟨htime, rfl, change_submit ..⟩
    | delete now token => exact ⟨htime, rfl, .deleted token rfl rfl⟩
    | look now token => exact ⟨htime, rfl, .drops (get_drops ..) rfl⟩
    | cleanup now => exact ⟨htime, rfl, .drops (cleanup_drops ..) rfl⟩
  · cases h

/-- What is noted of polls. -/
theorem polled_step {s t : St} {e : Ev} (h : step options s e = some t) : t.polled = s.polled ∨
    ∃ token, t.polled = ⟨t.now, (s.lives token).head?, pollResponse (live s.sessions t.now token)⟩ :: s.polled := by
  unfold step at h
  split at h
  · obtain rfl := Option.some.inj h
    cases e with
    | poll now allowed token =>
      cases allowed with
      | false => exact .inl rfl
      | true =>
        refine .inr ⟨token, ?_⟩
        rw [← get_value]
        rfl
    | _ => exact .inl rfl
  · cases h

/-! ## Sessions and their lives -/

/-- What is stored is the newest life of its token, and that is stored until it is over. -/
structure Linked (options : StoreOptions) (s : St) : Prop where
  stored : ∀ token d, s.sessions.lookup token = some d →
    ∃ life older, s.lives token = life :: older ∧ life.deleted = false ∧ life.expiresAt = d.expiresAt
  kept : ∀ token life older, s.lives token = life :: older → life.deleted = false → s.now ≤ life.expiresAt →
    ∃ d, s.sessions.lookup token = some d
  bounded : size s.sessions ≤ options.maxSessions

theorem linked_step {s t : St} {e : Ev} (h : Linked options s) (hs : step options s e = some t) : Linked options t := by
  obtain ⟨htime, -, hchange⟩ := change hs
  cases hchange with
  | drops hdrops hl =>
    refine ⟨fun token d hd => ?_, fun token life older hlife hdel hlive => ?_, le_trans hdrops.size h.bounded⟩
    · rw [hl]
      exact h.stored token d (hdrops.old token d hd)
    · rw [hl] at hlife
      obtain ⟨d, hd⟩ := h.kept token life older hlife hdel (by omega)
      obtain ⟨life', older', hlife', -, hexp⟩ := h.stored token d hd
      rw [hlife] at hlife'
      obtain ⟨rfl, -⟩ := List.cons.inj hlife'
      exact ⟨d, hdrops.kept token d hd (by omega)⟩
  | created token publicKey mid hdrops hfree hroom ht hl =>
    refine ⟨fun other d hd => ?_, fun other life older hlife hdel hlive => ?_, ?_⟩
    · rw [ht] at hd
      rw [hl]
      by_cases heq : other = token
      · subst heq
        rw [AList.lookup_insert] at hd
        obtain rfl := Option.some.inj hd
        exact ⟨_, _, upd_same .., rfl, rfl⟩
      · rw [AList.lookup_insert_ne heq] at hd
        rw [upd_ne _ _ heq]
        exact h.stored other d (hdrops.old other d hd)
    · rw [ht]
      rw [hl] at hlife
      by_cases heq : other = token
      · subst heq
        exact ⟨_, AList.lookup_insert ..⟩
      · rw [upd_ne _ _ heq] at hlife
        obtain ⟨d, hd⟩ := h.kept other life older hlife hdel (by omega)
        obtain ⟨life', older', hlife', -, hexp⟩ := h.stored other d hd
        rw [hlife] at hlife'
        obtain ⟨rfl, -⟩ := List.cons.inj hlife'
        rw [AList.lookup_insert_ne heq]
        exact ⟨d, hdrops.kept other d hd (by omega)⟩
    · rw [ht]
      have hsize := size_insert mid token (.opened publicKey (t.now + options.ttlMs))
      omega
  | submitted token p d hd hnew hfilled ht hl =>
    obtain ⟨hlookup, hexp⟩ := live_some.mp hd
    obtain ⟨life, older, hlife, hdel, hsame⟩ := h.stored token d hlookup
    refine ⟨fun other d' hd' => ?_, fun other life' older' hlife' hdel' hlive => ?_, ?_⟩
    · rw [ht] at hd'
      rw [hl]
      by_cases heq : other = token
      · subst heq
        rw [AList.lookup_insert] at hd'
        obtain rfl := Option.some.inj hd'
        rw [upd_same, hlife]
        exact ⟨_, _, rfl, hdel, hsame⟩
      · rw [AList.lookup_insert_ne heq] at hd'
        rw [upd_ne _ _ heq]
        exact h.stored other d' hd'
    · rw [ht]
      by_cases heq : other = token
      · subst heq
        exact ⟨_, AList.lookup_insert ..⟩
      · rw [hl, upd_ne _ _ heq] at hlife'
        rw [AList.lookup_insert_ne heq]
        exact h.kept other life' older' hlife' hdel' (by omega)
    · rw [ht, size_update _ (AList.lookup_isSome.mp (by rw [hlookup]; rfl))]
      exact h.bounded
  | deleted token ht hl =>
    refine ⟨fun other d hd => ?_, fun other life older hlife hdel hlive => ?_, ?_⟩
    · rw [ht] at hd
      rw [hl]
      by_cases heq : other = token
      · rw [heq, AList.lookup_erase] at hd
        cases hd
      · rw [AList.lookup_erase_ne heq] at hd
        rw [upd_ne _ _ heq]
        exact h.stored other d hd
    · rw [ht]
      rw [hl] at hlife
      by_cases heq : other = token
      · subst heq
        rw [upd_same] at hlife
        cases hold : s.lives other with
        | nil =>
          rw [hold] at hlife
          obtain ⟨rfl, -⟩ := List.cons.inj hlife
          cases hdel
        | cons life' older' =>
          rw [hold] at hlife
          obtain ⟨rfl, -⟩ := List.cons.inj hlife
          cases hdel
      · rw [upd_ne _ _ heq] at hlife
        rw [AList.lookup_erase_ne heq]
        exact h.kept other life older hlife hdel (by omega)
    · rw [ht]
      exact le_trans (size_erase ..) h.bounded

/-! ## What a session was answered -/

/-- What is stored for a life: nothing submitted, or what was accepted. -/
def Fits (life : Life) (d : SessionData) : Prop :=
  (life.accepted = [] ∧ d.encrypted = none) ∨
    ∃ p d₀, life.accepted = [p] ∧ d = SessionData.fill d₀ p ∧ p.encrypted ≠ []

theorem Fits.new {life : Life} {d : SessionData} (h : Fits life d) (hnew : d.submitted = false) : life.accepted = [] := by
  rcases h with ⟨hnone, -⟩ | ⟨p, d₀, -, rfl, hp⟩
  · exact hnone
  · rw [fill_submitted] at hnew
    exact absurd hp (of_decide_eq_false hnew)

theorem Fits.response {life : Life} {d : SessionData} (h : Fits life d) {p : Payload} (hp : p ∈ life.accepted) :
    pollResponse (some d) = .ready p.encrypted (some p.ephemeralPublicKey) (some p.nonce) := by
  rcases h with ⟨hnone, -⟩ | ⟨q, d₀, hone, rfl, hq⟩
  · rw [hnone] at hp
    cases hp
  · rw [hone] at hp
    obtain rfl := List.mem_singleton.mp hp
    exact pollResponse_fill d₀ hq

structure Inv (options : StoreOptions) (s : St) : Prop where
  linked : Linked options s
  fits : ∀ token d life older, s.sessions.lookup token = some d → s.lives token = life :: older → Fits life d
  sound : Sound options s

theorem inv_init : Inv options (bridge options).init :=
  ⟨⟨nofun, nofun, Nat.zero_le _⟩, nofun, ⟨nofun, nofun, Nat.zero_le _⟩⟩

theorem fits_step {s t : St} {e : Ev} (h : Inv options s) (hf : Filled s e) (hs : step options s e = some t) :
    ∀ token d life older, t.sessions.lookup token = some d → t.lives token = life :: older → Fits life d := by
  obtain ⟨-, -, hchange⟩ := change hs
  intro other d' life older hd' hlife
  cases hchange with
  | drops hdrops hl =>
    rw [hl] at hlife
    exact h.fits other d' life older (hdrops.old other d' hd') hlife
  | created token publicKey mid hdrops hfree hroom ht hl =>
    rw [ht] at hd'
    rw [hl] at hlife
    by_cases heq : other = token
    · subst heq
      rw [AList.lookup_insert] at hd'
      rw [upd_same] at hlife
      obtain rfl := Option.some.inj hd'
      obtain ⟨rfl, -⟩ := List.cons.inj hlife
      exact .inl ⟨rfl, rfl⟩
    · rw [AList.lookup_insert_ne heq] at hd'
      rw [upd_ne _ _ heq] at hlife
      exact h.fits other d' life older (hdrops.old other d' hd') hlife
  | submitted token p d hd hnew hfilled ht hl =>
    rw [ht] at hd'
    rw [hl] at hlife
    by_cases heq : other = token
    · subst heq
      rw [AList.lookup_insert] at hd'
      obtain rfl := Option.some.inj hd'
      obtain ⟨life₀, older₀, hlife₀, -⟩ := h.linked.stored other d (live_some.mp hd).1
      have hnone := (h.fits other d life₀ older₀ (live_some.mp hd).1 hlife₀).new hnew
      rw [upd_same, hlife₀] at hlife
      obtain ⟨rfl, -⟩ := List.cons.inj hlife
      exact .inr ⟨p, d, by simp [Life.accept, hnone], rfl, hfilled hf⟩
    · rw [AList.lookup_insert_ne heq] at hd'
      rw [upd_ne _ _ heq] at hlife
      exact h.fits other d' life older hd' hlife
  | deleted token ht hl =>
    rw [ht] at hd'
    rw [hl] at hlife
    by_cases heq : other = token
    · rw [heq, AList.lookup_erase] at hd'
      cases hd'
    · rw [AList.lookup_erase_ne heq] at hd'
      rw [upd_ne _ _ heq] at hlife
      exact h.fits other d' life older hd' hlife

theorem mem_changeHead {f : Life → Life} {life life' : Life} {older : List Life} (h : life' ∈ changeHead f (life :: older)) :
    life' = f life ∨ life' ∈ older := List.mem_cons.mp h

theorem once_step {s t : St} {e : Ev} (h : Inv options s) (hs : step options s e = some t) :
    ∀ token, ∀ life ∈ t.lives token, life.accepted.length ≤ 1 := by
  obtain ⟨-, -, hchange⟩ := change hs
  intro other life hlife
  cases hchange with
  | drops hdrops hl =>
    rw [hl] at hlife
    exact h.sound.once other life hlife
  | created token publicKey mid hdrops hfree hroom ht hl =>
    rw [hl] at hlife
    by_cases heq : other = token
    · subst heq
      rw [upd_same] at hlife
      rcases List.mem_cons.mp hlife with rfl | hlife
      · exact Nat.zero_le _
      · exact h.sound.once other life hlife
    · rw [upd_ne _ _ heq] at hlife
      exact h.sound.once other life hlife
  | submitted token p d hd hnew hfilled ht hl =>
    rw [hl] at hlife
    by_cases heq : other = token
    · subst heq
      obtain ⟨life₀, older₀, hlife₀, -⟩ := h.linked.stored other d (live_some.mp hd).1
      have hnone := (h.fits other d life₀ older₀ (live_some.mp hd).1 hlife₀).new hnew
      rw [upd_same, hlife₀] at hlife
      rcases mem_changeHead hlife with rfl | hlife
      · simp [Life.accept, hnone]
      · exact h.sound.once other life (hlife₀ ▸ List.mem_cons_of_mem _ hlife)
    · rw [upd_ne _ _ heq] at hlife
      exact h.sound.once other life hlife
  | deleted token ht hl =>
    rw [hl] at hlife
    by_cases heq : other = token
    · subst heq
      rw [upd_same] at hlife
      cases hold : s.lives other with
      | nil =>
        rw [hold] at hlife
        obtain rfl := List.mem_singleton.mp hlife
        exact Nat.zero_le _
      | cons life₀ older₀ =>
        rw [hold] at hlife
        rcases mem_changeHead hlife with rfl | hlife
        · exact h.sound.once other life₀ (hold ▸ List.mem_cons_self ..)
        · exact h.sound.once other life (hold ▸ List.mem_cons_of_mem _ hlife)
    · rw [upd_ne _ _ heq] at hlife
      exact h.sound.once other life hlife

theorem polls_step {s t : St} {e : Ev} (h : Inv options s) (hs : step options s e = some t) :
    ∀ r ∈ t.polled, ∀ life, r.life = some life → life.deleted = false → r.time ≤ life.expiresAt →
      ∀ p ∈ life.accepted, r.response = .ready p.encrypted (some p.ephemeralPublicKey) (some p.nonce) := by
  obtain ⟨htime, -, -⟩ := change hs
  intro r hr life hlife hdel hlive p hp
  rcases polled_step hs with hsame | ⟨token, hmore⟩
  · rw [hsame] at hr
    exact h.sound.polls r hr life hlife hdel hlive p hp
  · rw [hmore] at hr
    rcases List.mem_cons.mp hr with rfl | hr
    · cases hhead : s.lives token with
      | nil =>
        simp [hhead] at hlife
      | cons life₀ older₀ =>
        obtain rfl : life₀ = life := by simpa [hhead] using hlife
        have hnow : t.now ≤ life₀.expiresAt := hlive
        obtain ⟨d, hd⟩ := h.linked.kept token life₀ older₀ hhead hdel (by omega)
        obtain ⟨life₁, older₁, hlife₁, -, hexp⟩ := h.linked.stored token d hd
        rw [hhead] at hlife₁
        obtain ⟨rfl, -⟩ := List.cons.inj hlife₁
        show pollResponse (live s.sessions t.now token) = _
        rw [live_some.mpr ⟨hd, by omega⟩]
        exact (h.fits token d life₀ older₀ hd hhead).response hp
    · exact h.sound.polls r hr life hlife hdel hlive p hp

theorem inv_step {s t : St} {e : Ev} (h : Inv options s) (hf : Filled s e) (hs : step options s e = some t) : Inv options t := by
  have hlinked := linked_step h.linked hs
  exact ⟨hlinked, fits_step h hf hs, once_step h hs, polls_step h hs, hlinked.bounded⟩

/-- A poll right after an empty submission was accepted hands out nothing. -/
theorem empty_is_pending {s t : St} {e : Ev} (h : Linked options s) (hf : ¬Filled s e) (hs : step options s e = some t) :
    ∃ token u, step options t (.poll t.now true token) = some u ∧ ¬Sound options u := by
  cases e with
  | submit now allowed token body =>
    simp only [Filled, not_forall] at hf
    obtain ⟨hallowed, p, hp, d, hd, hnew, hempty⟩ := hf
    have hempty : p.encrypted = [] := not_not.mp hempty
    obtain ⟨hlookup, hexp⟩ := live_some.mp hd
    obtain ⟨life, older, hlife, hdel, hsame⟩ := h.stored token d hlookup
    have ht : t = run options s (.submit now allowed token body) := by
      unfold step at hs
      split at hs
      · exact (Option.some.inj hs).symm
      · cases hs
    have hroute : submitRoute s.sessions now allowed token body = (s.sessions.insert token (d.fill p), .ok) := by
      unfold submitRoute
      rw [show ((body.filter Json.truthy).bind Payload.read) = some p from hp]
      simp [hallowed, submitCredentials_stores hd hnew]
    have ht : t = { s with
        sessions := s.sessions.insert token (d.fill p)
        now := now
        lives := upd s.lives token (changeHead (.accept p) (s.lives token)) } := by
      rw [ht]
      simp only [run, hroute, noteSubmitted, hp]
    refine ⟨token, run options t (.poll t.now true token), if_pos (le_refl _), fun hsound => ?_⟩
    have hpoll := hsound.polls ⟨t.now, (t.lives token).head?, pollResponse (live t.sessions t.now token)⟩ ?_
      (life.accept p) ?_ hdel ?_ p ?_
    · have hlive : live t.sessions t.now token = some (d.fill p) := by
        rw [ht]
        exact live_some.mpr ⟨AList.lookup_insert .., hexp⟩
      dsimp only at hpoll
      rw [hlive, pollResponse, SessionData.fill, hempty] at hpoll
      cases hpoll
    · rw [← get_value]
      exact List.mem_cons_self ..
    · simp [ht, hlife, changeHead]
    · rw [ht]
      exact hsame ▸ hexp
    · exact List.mem_append_right _ (List.mem_singleton_self _)
  | _ => exact absurd trivial hf

/-- In a run in which no empty blob is accepted the relay is sound, and behind any other step
    there is a poll that shows it is not. -/
theorem relays_once (options : StoreOptions) :
    (∀ s, Reach (bridge options) Filled s → Sound options s) ∧
      ∀ s e t, Reach (bridge options) Free s → step options s e = some t → ¬Filled s e →
        ∃ u, Path (bridge options) t u ∧ ¬Sound options u := by
  constructor
  · intro s hs
    have hinv : Inv options s := hs.inv inv_init fun _ _ _ _ h hf hstep => inv_step h hf hstep
    exact hinv.sound
  · intro s e t hs hstep hempty
    have hlinked : Linked options s := hs.inv inv_init.linked fun _ _ _ _ h _ hstep => linked_step h hstep
    obtain ⟨token, u, hu, hsound⟩ := empty_is_pending hlinked hempty hstep
    exact ⟨u, .single _ hu, hsound⟩

/-- A body with an empty blob, and one with another. -/
def blobs (encrypted : String) : Option Json :=
  some (.obj [(ofString "encrypted", .text encrypted), (ofString "ephemeralPublicKey", .text "ZXBo"),
    (ofString "nonce", .text "bm9uY2U=")])

theorem an_empty_blob_is_submitted_twice : ∃ s, Reach (bridge ⟨600000, 10000⟩) Free s ∧ ¬Sound ⟨600000, 10000⟩ s := by
  have hrun : ∃ s, Reach (bridge ⟨600000, 10000⟩) Free s ∧
      decide ((s.lives (ofString "a2b3c")).map (·.accepted.length) = [2]) = true :=
    reach_any (C := Free)
      [.create 0 true (some (.obj [(ofString "publicKey", .text "cHVi")])) [ofString "a2b3c"],
        .submit 1 true (ofString "a2b3c") (blobs ""), .submit 2 true (ofString "a2b3c") (blobs "ZW5j")]
      (meets_free ..) (by decide)
  obtain ⟨s, hs, htwo⟩ := hrun
  refine ⟨s, hs, fun h => ?_⟩
  have hmem : 2 ∈ (s.lives (ofString "a2b3c")).map (·.accepted.length) := by
    rw [of_decide_eq_true htwo]
    exact List.mem_singleton_self _
  obtain ⟨life, hlife, hlength⟩ := List.mem_map.mp hmem
  have honce := h.once _ life hlife
  omega

end Relay

end FlowHelm.AuthBridge
