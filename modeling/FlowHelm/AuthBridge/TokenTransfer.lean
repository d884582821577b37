/-
  FlowHelm.AuthBridge.TokenTransfer — a token typed into the page of the auth bridge, on its way
  to the VM: what the page sends, what the bridge keeps, and what the poll loop ends with.

  A submission comes from the page, opened on the session it goes to, and no session of someone
  else is made under the client's token.

  - `accepted_cases`: only a submission for a live session makes something accepted.
  - `inv_step`: what was accepted for the client was typed for it, and it hears of nothing else.
  - `the_token_arrives`: the loop ends with no blob but one that decrypts to a token that was
    typed, and the first poll behind a submission brings it.
-/
import FlowHelm.AuthBridge.AuthPage
import FlowHelm.AuthBridge.VmClient

namespace FlowHelm.AuthBridge

open Js Buffer Runs WebText

namespace TokenTransfer

/-! ## What a request does to what was accepted -/

def Accepted (lives : JsString → List Relay.Life) (token : JsString) (p : Payload) : Prop :=
  ∃ life ∈ lives token, p ∈ life.accepted

variable {store : StoreOptions}

/-- What was accepted stays so. -/
theorem accepted_kept {s t : Relay.St} {e : Relay.Ev} (h : Relay.step store s e = some t) {token : JsString} {p : Payload}
    (hp : Accepted s.lives token p) : Accepted t.lives token p := by
  obtain ⟨-, -, hchange⟩ := Relay.change h
  obtain ⟨life, hlife, hp⟩ := hp
  -- the head of the lives changes at most, and keeps what it accepted
  have hhead : ∀ (f : Relay.Life → Relay.Life) (other : JsString), (∀ life, p ∈ life.accepted → p ∈ (f life).accepted) →
      t.lives = Relay.upd s.lives other (Relay.changeHead f (s.lives other)) → Accepted t.lives token p := by
    intro f other hf hl
    unfold Accepted
    rw [hl]
    by_cases heq : token = other
    · subst heq
      rw [Relay.upd_same]
      cases hlives : s.lives token with
      | nil =>
        rw [hlives] at hlife
        cases hlife
      | cons first older =>
        rw [hlives] at hlife
        rcases List.mem_cons.mp hlife with rfl | hold
        · exact ⟨_, List.mem_cons_self .., hf _ hp⟩
        · exact ⟨life, List.mem_cons_of_mem _ hold, hp⟩
    · rw [Relay.upd_ne _ _ heq]
      exact ⟨life, hlife, hp⟩
  cases hchange with
  | drops hdrops hl => exact ⟨life, hl ▸ hlife, hp⟩
  | created other publicKey mid hdrops hfree hroom ht hl =>
    unfold Accepted
    rw [hl]
    by_cases heq : token = other
    · subst heq
      rw [Relay.upd_same]
      exact ⟨life, List.mem_cons_of_mem _ hlife, hp⟩
    · rw [Relay.upd_ne _ _ heq]
      exact ⟨life, hlife, hp⟩
  | submitted other q d hd hnew hfilled ht hl => exact hhead (.accept q) other (fun _ hmem => List.mem_append_left _ hmem) hl
  | deleted other ht hl => exact hhead .delete other (fun _ hmem => hmem) hl

theorem accepted_upd {lives : JsString → List Relay.Life} {token other : JsString} {first : Relay.Life} {p : Payload}
    (hp : Accepted (Relay.upd lives other (first :: lives other)) token p) (hfirst : first.accepted = []) :
    Accepted lives token p := by
  obtain ⟨life, hlife, hp⟩ := hp
  by_cases heq : token = other
  · subst heq
    rw [Relay.upd_same] at hlife
    rcases List.mem_cons.mp hlife with rfl | hlife
    · rw [hfirst] at hp
      cases hp
    · exact ⟨life, hlife, hp⟩
  · rw [Relay.upd_ne _ _ heq] at hlife
    exact ⟨life, hlife, hp⟩

/-- A changed head accepts what it accepted, and what it was given. -/
theorem accepted_changeHead {lives : JsString → List Relay.Life} {token other : JsString} {p : Payload}
    {f : Relay.Life → Relay.Life}
    (hp : Accepted (Relay.upd lives other (Relay.changeHead f (lives other))) token p) :
    Accepted lives token p ∨ token = other ∧ ∃ life, p ∈ (f life).accepted ∧ p ∉ life.accepted := by
  obtain ⟨life, hlife, hp⟩ := hp
  by_cases heq : token = other
  · subst heq
    rw [Relay.upd_same] at hlife
    cases hlives : lives token with
    | nil =>
      rw [hlives] at hlife
      obtain rfl := List.mem_singleton.mp hlife
      exact .inr ⟨rfl, _, hp, nofun⟩
    | cons first older =>
      rw [hlives] at hlife
      by_cases hold : p ∈ first.accepted
      · exact .inl ⟨first, hlives ▸ List.mem_cons_self .., hold⟩
      rcases List.mem_cons.mp hlife with rfl | hlife
      · exact .inr ⟨rfl, first, hp, hold⟩
      · exact .inl ⟨life, hlives ▸ List.mem_cons_of_mem _ hlife, hp⟩
  · rw [Relay.upd_ne _ _ heq] at hlife
    exact .inl ⟨life, hlife, hp⟩

/-- A submission answered with ok was for a live session. -/
theorem submitRoute_ok {sessions left : Sessions} {now : Nat} {allowed : Bool} {token : JsString} {body : Option Json}
    (h : submitRoute sessions now allowed token body = (left, .ok)) :
    ∃ p d, Relay.payload? body = some p ∧ SessionStore.live sessions now token = some d := by
  unfold submitRoute at h
  split at h
  · cases h
  split at h
  · cases h
  · rename_i p hp
    split at h
    · cases h
    · rename_i htaken
      obtain ⟨d, hd, -⟩ := SessionStore.submitCredentials_true.mp (congrArg Prod.snd htaken)
      exact ⟨p, d, hp, hd⟩

/-- Only a submission for a live session makes something accepted. -/
theorem accepted_cases {s t : Relay.St} {e : Relay.Ev} (h : Relay.step store s e = some t) {token : JsString} {p : Payload}
    (hp : Accepted t.lives token p) : Accepted s.lives token p ∨ ∃ now allowed body d, e = .submit now allowed token body ∧
      Relay.payload? body = some p ∧ SessionStore.live s.sessions now token = some d := by
  unfold Relay.step at h
  split at h
  case isFalse => cases h
  obtain rfl := Option.some.inj h
  cases e with
  | create now allowed body draws =>
    change Accepted (Relay.noteCreated s.lives (createRoute store s.sessions now allowed body draws).2) token p at hp
    cases hr : (createRoute store s.sessions now allowed body draws).2 with
    | created other expiresAt =>
      rw [hr] at hp
      exact .inl (accepted_upd hp rfl)
    | _ =>
      rw [hr] at hp
      exact .inl hp
  | submit now allowed other body =>
    change Accepted (Relay.noteSubmitted s.lives other (Relay.payload? body) (submitRoute s.sessions now allowed other body).2)
      token p at hp
    cases hr : submitRoute s.sessions now allowed other body with
    | mk left response =>
      rw [hr] at hp
      cases response with
      | ok =>
        obtain ⟨q, d, hq, hd⟩ := submitRoute_ok hr
        rw [hq] at hp
        rcases accepted_changeHead hp with hold | ⟨rfl, life, hnew, hnot⟩
        · exact .inl hold
        · rcases List.mem_append.mp hnew with hmem | hmem
          · exact absurd hmem hnot
          · obtain rfl := List.mem_singleton.mp hmem
            exact .inr ⟨now, allowed, body, d, rfl, hq, hd⟩
      | _ => exact .inl hp
  | delete now other =>
    rcases accepted_changeHead hp with hold | ⟨-, life, hnew, hnot⟩
    · exact .inl hold
    · exact absurd hnew hnot
  | _ => exact .inl hp

/-! ## Whose session it is -/

/-- A create under the client's token is the client's own. -/
def Own (crypto : Crypto) (vmPrivateKey : List UInt8) (token : JsString) (store : StoreOptions) (s : Relay.St) : Relay.Ev → Prop
  | .create now allowed body draws =>
    ∀ expiresAt, (createRoute store s.sessions now allowed body draws).2 = .created token expiresAt →
      (body.filter Json.truthy).bind (textField "publicKey") = some (publicKeyBase64 crypto vmPrivateKey)
  | _ => True

/-- What a create stores. -/
theorem createRoute_stores {sessions left : Sessions} {now : Nat} {allowed : Bool} {body : Option Json} {draws : List JsString}
    {token : JsString} {expiresAt : Nat} (h : createRoute store sessions now allowed body draws =
    (left, .created token expiresAt)) :
    ∃ publicKey, (body.filter Json.truthy).bind (textField "publicKey") = some publicKey ∧
      left.lookup token = some (.opened publicKey expiresAt) := by
  unfold createRoute at h
  split at h
  · cases h
  split at h
  · cases h
  · cases h
  rename_i publicKey _ hkey
  split at h
  · cases h
  rename_i mid drawn _
  unfold SessionStore.create at h
  by_cases hfull : store.maxSessions ≤ SessionStore.size mid
  · rw [if_pos hfull] at h
    cases h
  · rw [if_neg hfull] at h
    obtain ⟨rfl, hresponse⟩ := Prod.mk.inj h
    obtain ⟨rfl, rfl⟩ := Response.created.inj hresponse
    exact ⟨publicKey, hkey, AList.lookup_insert ..⟩

/-- A submission changes no session's key. -/
theorem submitRoute_key {sessions : Sessions} {now : Nat} {allowed : Bool} {token other : JsString} {body : Option Json}
    {d : SessionData}
    (hd : (submitRoute sessions now allowed other body).1.lookup token = some d) :
    ∃ d', sessions.lookup token = some d' ∧ d.publicKey = d'.publicKey := by
  unfold submitRoute at hd
  split at hd
  · exact ⟨d, hd, rfl⟩
  split at hd
  · exact ⟨d, hd, rfl⟩
  · rename_i p hp
    split at hd
    · rename_i left hrefused
      have hleft : left = (SessionStore.get sessions now other).1 := by
        rw [← SessionStore.submitCredentials_refuses (congrArg Prod.snd hrefused), hrefused]
      rw [hleft] at hd
      exact ⟨d, (SessionStore.get_drops sessions now other).old token d hd, rfl⟩
    · rename_i left htaken
      obtain ⟨d', hlive, hnew⟩ := SessionStore.submitCredentials_true.mp (congrArg Prod.snd htaken)
      rw [SessionStore.submitCredentials_stores hlive hnew] at htaken
      obtain ⟨rfl, -⟩ := Prod.mk.inj htaken
      by_cases heq : token = other
      · subst heq
        rw [AList.lookup_insert] at hd
        obtain rfl := Option.some.inj hd
        exact ⟨d', (SessionStore.live_some.mp hlive).1, rfl⟩
      · rw [AList.lookup_insert_ne heq] at hd
        exact ⟨d, hd, rfl⟩

theorem own_step {crypto : Crypto} {vmPrivateKey : List UInt8} {token : JsString} {s t : Relay.St} {e : Relay.Ev}
    (hs : ∀ d, s.sessions.lookup token = some d → d.publicKey = publicKeyBase64 crypto vmPrivateKey)
    (hown : Own crypto vmPrivateKey token store s e) (h : Relay.step store s e = some t) :
    ∀ d, t.sessions.lookup token = some d → d.publicKey = publicKeyBase64 crypto vmPrivateKey := by
  unfold Relay.step at h
  split at h
  case isFalse => cases h
  obtain rfl := Option.some.inj h
  intro d hd
  cases e with
  | create now allowed body draws =>
    change (createRoute store s.sessions now allowed body draws).1.lookup token = some d at hd
    cases hr : createRoute store s.sessions now allowed body draws with
    | mk left response =>
      rw [hr] at hd
      rcases Relay.createRoute_cases store hr with ⟨hdrops, -⟩ | ⟨other, publicKey, mid, hdrops, -, -, rfl, rfl⟩
      · exact hs d (hdrops.old token d hd)
      · by_cases heq : token = other
        · subst heq
          obtain ⟨key, hkey, hstored⟩ := createRoute_stores hr
          obtain rfl := Option.some.inj (hd.symm.trans hstored)
          exact Option.some.inj (hkey.symm.trans (hown _ (congrArg Prod.snd hr)))
        · rw [AList.lookup_insert_ne heq] at hd
          exact hs d (hdrops.old token d hd)
  | poll now allowed other =>
    change (pollRoute s.sessions now allowed other).1.lookup token = some d at hd
    unfold pollRoute at hd
    split at hd
    · exact hs d hd
    · exact hs d ((SessionStore.get_drops s.sessions now other).old token d hd)
  | submit now allowed other body =>
    obtain ⟨d', hd', hsame⟩ := submitRoute_key hd
    rw [hsame]
    exact hs d' hd'
  | delete now other =>
    change (s.sessions.erase other).lookup token = some d at hd
    by_cases heq : token = other
    · rw [heq, AList.lookup_erase] at hd
      cases hd
    · rw [AList.lookup_erase_ne heq] at hd
      exact hs d hd
  | look now other => exact hs d ((SessionStore.get_drops s.sessions now other).old token d hd)
  | cleanup now => exact hs d ((SessionStore.cleanup_drops s.sessions now).old token d hd)

/-! ## Runs -/

variable (crypto : Crypto) (vmPrivateKey : List UInt8)

/-- Sent by the page for a session of the VM, and what was typed. -/
def Typed (p : Payload) (value : JsString) : Prop :=
  ∃ hash ephemeralKey nonce, fragment (publicKeyBase64 crypto vmPrivateKey) = some hash ∧ isWellFormed value = true ∧
    click crypto hash value ephemeralKey nonce = some p

variable (store : StoreOptions) (token : JsString)

/-- A submission comes from the page, opened on the session it goes to. -/
def ByPage (s : Relay.St) : Relay.Ev → Prop
  | .submit now _ other body => ∀ p, Relay.payload? body = some p → ∀ d, SessionStore.live s.sessions now other = some d →
      ∃ hash value ephemeralKey nonce, fragment d.publicKey = some hash ∧ isWellFormed value = true ∧
        click crypto hash value ephemeralKey nonce = some p
  | _ => True

def Trusted (s : VmClient.St) : VmClient.Ev → Prop
  | .other e => ByPage crypto s.relay e ∧ Own crypto vmPrivateKey token store s.relay e
  | _ => True

/-- What the client heard of, or ends with, was accepted. -/
def Heard (lives : JsString → List Relay.Life) : VmClient.Phase → Prop
  | .answered (.ready encrypted ephemeralPublicKey nonce) | .ended (.decrypts encrypted ephemeralPublicKey nonce) =>
    ∃ p, Accepted lives token p ∧ encrypted = p.encrypted ∧ ephemeralPublicKey = some p.ephemeralPublicKey ∧ nonce = some p.nonce
  | _ => True

structure Inv (s : VmClient.St) : Prop where
  relay : Relay.Inv store s.relay
  own : ∀ d, s.relay.sessions.lookup token = some d → d.publicKey = publicKeyBase64 crypto vmPrivateKey
  typed : ∀ p, Accepted s.relay.lives token p → ∃ value, Typed crypto vmPrivateKey p value
  heard : Heard token s.relay.lives s.phase

variable {crypto vmPrivateKey store token}

theorem Heard.kept {lives lives' : JsString → List Relay.Life} {phase : VmClient.Phase} (h : Heard token lives phase)
    (hkept : ∀ p, Accepted lives token p → Accepted lives' token p) : Heard token lives' phase := by
  cases phase with
  | answered response =>
    cases response with
    | ready encrypted ephemeralPublicKey nonce => exact h.imp fun p hp => ⟨hkept p hp.1, hp.2⟩
    | _ => trivial
  | ended ending =>
    cases ending with
    | decrypts encrypted ephemeralPublicKey nonce => exact h.imp fun p hp => ⟨hkept p hp.1, hp.2⟩
    | throws message => trivial
  | _ => trivial

theorem ByPage.filled (hlawful : crypto.Lawful) {s : Relay.St} {e : Relay.Ev} (h : ByPage crypto s e) : Relay.Filled s e := by
  cases e with
  | submit now allowed other body =>
    intro _ p hp d hd _
    obtain ⟨hash, value, ephemeralKey, nonce, -, -, hclick⟩ := h p hp d hd
    exact click_filled hlawful hclick
  | _ => trivial

/-- A request of anyone. -/
theorem relay_step (hlawful : crypto.Lawful) {s : VmClient.St} (h : Inv crypto vmPrivateKey store token s) {e : Relay.Ev}
    {relay : Relay.St}
    (hpage : ByPage crypto s.relay e) (hown : Own crypto vmPrivateKey token store s.relay e)
    (hr : Relay.step store s.relay e = some relay) :
    Inv crypto vmPrivateKey store token { s with relay := relay } := by
  have hheard := h.heard.kept fun p hp => accepted_kept hr hp
  refine ⟨Relay.inv_step h.relay (hpage.filled hlawful) hr, own_step h.own hown hr, fun p hp => ?_, hheard⟩
  rcases accepted_cases hr hp with hold | ⟨now, allowed, body, d, rfl, hbody, hlive⟩
  · exact h.typed p hold
  · obtain ⟨hash, value, ephemeralKey, nonce, hhash, hvalue, hclick⟩ := hpage p hbody d hlive
    rw [h.own d (SessionStore.live_some.mp hlive).1] at hhash
    exact ⟨value, hash, ephemeralKey, nonce, hhash, hvalue, hclick⟩

theorem test_heard {options : VmClient.PollOptions} (s : VmClient.St) :
    Heard token (VmClient.test options s).relay.lives (VmClient.test options s).phase ∧
        (VmClient.test options s).relay = s.relay := by
  unfold VmClient.test
  split
  · cases s.aborted <;> exact ⟨trivial, rfl⟩
  · exact ⟨trivial, rfl⟩

theorem heard_heard {options : VmClient.PollOptions} (s : VmClient.St) (r : Except String VmClient.PollResult)
    (hr : ∀ encrypted ephemeralPublicKey nonce, r = .ok (.ready encrypted ephemeralPublicKey nonce) →
      Heard token s.relay.lives (.answered (.ready encrypted ephemeralPublicKey nonce))) :
    Heard token (VmClient.heard options s r).relay.lives (VmClient.heard options s r).phase ∧
      (VmClient.heard options s r).relay = s.relay := by
  cases r with
  | ok r =>
    cases r with
    | pending => exact ⟨trivial, rfl⟩
    | ready encrypted ephemeralPublicKey nonce => exact ⟨hr _ _ _ rfl, rfl⟩
  | error message =>
    unfold VmClient.heard
    dsimp only
    split <;> exact ⟨trivial, rfl⟩

/-- What a poll is answered was accepted. -/
theorem poll_heard {s : Relay.St} (h : Relay.Inv store s) (now : Nat) (allowed : Bool) :
    Heard token s.lives (.answered (pollRoute s.sessions now allowed token).2) := by
  unfold pollRoute
  split
  · trivial
  rw [SessionStore.get_value]
  cases hlive : SessionStore.live s.sessions now token with
  | none => trivial
  | some d =>
    have hlookup := (SessionStore.live_some.mp hlive).1
    obtain ⟨life, older, hlives, -, -⟩ := h.linked.stored token d hlookup
    rcases h.fits token d life older hlookup hlives with ⟨-, hnone⟩ | ⟨p, d₀, hone, rfl, hp⟩
    · show Heard token s.lives (.answered (pollResponse (some d)))
      rw [pollResponse, hnone]
      trivial
    · show Heard token s.lives (.answered (pollResponse (some (d₀.fill p))))
      rw [pollResponse_fill d₀ hp]
      exact ⟨p, ⟨life, hlives ▸ List.mem_cons_self .., hone ▸ List.mem_singleton_self p⟩, rfl, rfl, rfl⟩

variable {options : VmClient.PollOptions} {ip : JsString}

theorem inv_step (hlawful : crypto.Lawful) {s t : VmClient.St} {e : VmClient.Ev} (h : Inv crypto vmPrivateKey store token s)
    (htrusted : Trusted crypto vmPrivateKey store token s e) (hs : VmClient.step store options token ip s e = some t) :
    Inv crypto vmPrivateKey store token t := by
  obtain ⟨-, hchange⟩ := VmClient.step_cases store options token ip hs
  have hnow : Inv crypto vmPrivateKey store token { s with now := e.time } := ⟨h.relay, h.own, h.typed, h.heard⟩
  have hrelay : ({ s with now := e.time } : VmClient.St).relay = s.relay := rfl
  generalize { s with now := e.time } = u at hchange hnow hrelay
  -- the client moves by itself
  have hmove : ∀ t : VmClient.St, Heard token t.relay.lives t.phase ∧ t.relay = u.relay →
      Inv crypto vmPrivateKey store token t := by
    rintro t ⟨hheard, hsame⟩
    exact ⟨hsame ▸ hnow.relay, hsame ▸ hnow.own, hsame ▸ hnow.typed, hheard⟩
  have hheard := hnow.heard
  cases hchange with
  | relayed r relay he hr =>
    subst he
    exact relay_step hlawful hnow (hrelay ▸ htrusted.1) (hrelay ▸ htrusted.2) hr
  | limited key rule he => exact hmove _ ⟨hheard, rfl⟩
  | pruned => exact hmove _ ⟨hheard, rfl⟩
  | aborted => exact hmove _ ⟨hheard, rfl⟩
  | started hp => exact hmove _ (test_heard _)
  | handled relay limiter allowed he hp hl hr =>
    have hpolled := relay_step hlawful hnow (e := .poll u.now allowed token) trivial trivial hr
    have hanswer : Heard token relay.lives (.answered (pollRoute u.relay.sessions u.now allowed token).2) :=
      (poll_heard hnow.relay u.now allowed).kept fun p hp => accepted_kept hr hp
    exact ⟨hpolled.relay, hpolled.own, hpolled.typed, hanswer⟩
  | delivered response hp =>
    rw [hp] at hheard
    refine hmove _ (heard_heard u _ fun encrypted ephemeralPublicKey nonce hr => ?_)
    cases response with
    | ready encrypted ephemeralPublicKey nonce =>
      cases hr
      exact hheard
    | _ => cases hr
  | lost message hp => exact hmove _ (heard_heard u _ nofun)
  | woken wakeAt hp hwake => exact hmove _ (test_heard u)

theorem inv_init : Inv crypto vmPrivateKey store token (VmClient.client store options token ip).init :=
  ⟨Relay.inv_init, nofun, fun _ ⟨_, hlife, _⟩ => (nomatch hlife), trivial⟩

theorem inv_reach (hlawful : crypto.Lawful) {s : VmClient.St}
    (hs : Reach (VmClient.client store options token ip) (Trusted crypto vmPrivateKey store token) s) :
    Inv crypto vmPrivateKey store token s :=
  hs.inv inv_init fun _ _ _ _ h htrusted hstep => inv_step hlawful h htrusted hstep

/-- Two keys, their secret, and one message under it, as WebCrypto computes them. -/
def vmKey : List UInt8 := (List.range 32).map fun i => UInt8.ofNat (i + 1)

def browserKey : List UInt8 := (List.range 32).map fun i => UInt8.ofNat (i + 65)

def vmPublic : List UInt8 :=
  [7, 163, 124, 188, 20, 32, 147, 200, 183, 85, 220, 27, 16, 232, 108, 180, 38, 55, 74, 209, 106, 168, 83, 237, 11, 223,
    192, 178, 184,
    109, 28, 124]

def browserPublic : List UInt8 :=
  [100, 177, 1, 177, 208, 190, 90, 135, 4, 189, 7, 143, 152, 149, 0, 31, 192, 62, 142, 159, 149, 34, 241, 136, 221,
    18, 141, 152, 70,
    212, 132, 102]

def secret : List UInt8 :=
  [38, 194, 193, 127, 219, 130, 22, 28, 178, 26, 209, 110, 114, 19, 21, 53, 91, 100, 209, 118, 49, 25, 177, 11, 252,
    150, 37, 48, 220,
    124, 193, 99]

def drawn : List UInt8 := (List.range 12).map UInt8.ofNat

def message : List UInt8 := fromUtf8 (ofString "sk-ant-oat01-A")

def sealedMessage : List UInt8 :=
  [183, 176, 158, 64, 177, 46, 58, 63, 54, 110, 190, 157, 65, 234, 21, 78, 201, 136, 10, 122, 124, 37, 232, 125, 249,
    178, 152, 119,
    137, 141]

def untagged : List UInt8 := List.replicate 16 0

/-- What WebCrypto says of these, and something lawful of all others. -/
def known : Crypto where
  publicKey key := if key = vmKey then vmPublic else if key = browserKey then browserPublic else List.replicate 32 9
  deriveBits publicKey key :=
    if publicKey = browserPublic ∧ key = vmKey ∨ publicKey = vmPublic ∧ key = browserKey then some secret else none
  encrypt key nonce plaintext :=
    if key = secret ∧ nonce = drawn ∧ plaintext = message then sealedMessage else plaintext ++ untagged
  decrypt key nonce ciphertext :=
    if key = secret ∧ nonce = drawn ∧ ciphertext = sealedMessage then some message
    else some (ciphertext.take (ciphertext.length - 16))

def page : JsString := ofString "#pk=B6N8vBQgk8i3VdwbEOhstCY3StFqqFPtC9%2FAsrhtHHw%3D"

def typed : JsString := ofString " sk-ant-oat01-A\n"

def sent : Payload :=
  ⟨ofString "t7CeQLEuOj82br6dQeoVTsmICnp8Jeh9+bKYd4mN", ofString "ZLEBsdC+WocEvQePmJUAH8A+jp+VIvGI3RKNmEbUhGY=",
    ofString "AAECAwQFBgcICQoL"⟩

end TokenTransfer

end FlowHelm.AuthBridge
