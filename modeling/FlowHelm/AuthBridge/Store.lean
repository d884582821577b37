/-
  FlowHelm.AuthBridge.Store — the auth bridge on Node: the session store of store.ts, and the
  routes of server.ts that use it.

  A session is a mutable object in a Map; as nobody keeps one beyond the call, it is a value
  here. A request is handled at one time, after its body was read; what the rate limiter says
  and the tokens drawn are arguments.

  - `get_value`: which session is handed out.
  - `submitCredentials_true`: when a submission is taken, and what becomes of the session.
-/
import Mathlib.Data.List.AList
import FlowHelm.Lib.Js

namespace FlowHelm.AuthBridge

open Js

/-! ## Sessions -/

structure SessionData where
  publicKey : JsString
  expiresAt : Nat
  encrypted : Option JsString
  ephemeralPublicKey : Option JsString
  nonce : Option JsString
  deriving DecidableEq, Repr

/-- What the browser submits. -/
structure Payload where
  encrypted : JsString
  ephemeralPublicKey : JsString
  nonce : JsString
  deriving DecidableEq, Repr

/-- A new session. -/
def SessionData.opened (publicKey : JsString) (expiresAt : Nat) : SessionData := ⟨publicKey, expiresAt, none, none, none⟩

/-- `if (session.encrypted)`. -/
def SessionData.submitted (d : SessionData) : Bool := d.encrypted.any (· ≠ [])

def SessionData.fill (d : SessionData) (p : Payload) : SessionData :=
  { d with encrypted := some p.encrypted, ephemeralPublicKey := some p.ephemeralPublicKey, nonce := some p.nonce }

@[simp] theorem fill_expiresAt (d : SessionData) (p : Payload) : (d.fill p).expiresAt = d.expiresAt := rfl
@[simp] theorem opened_expiresAt (k : JsString) (n : Nat) : (SessionData.opened k n).expiresAt = n := rfl
@[simp] theorem opened_submitted (k : JsString) (n : Nat) : (SessionData.opened k n).submitted = false := rfl

theorem fill_submitted (d : SessionData) (p : Payload) : (d.fill p).submitted = decide (p.encrypted ≠ []) := rfl

structure StoreOptions where
  ttlMs : Nat
  maxSessions : Nat

/-- The Map of sessions. -/
abbrev Sessions := AList fun _ : JsString => SessionData

namespace SessionStore

def size (sessions : Sessions) : Nat := sessions.entries.length

def create (options : StoreOptions) (sessions : Sessions) (now : Nat) (token publicKey : JsString) : Sessions × Bool :=
  if options.maxSessions ≤ size sessions then (sessions, false)
  else (sessions.insert token (.opened publicKey (now + options.ttlMs)), true)

def get (sessions : Sessions) (now : Nat) (token : JsString) : Sessions × Option SessionData :=
  match sessions.lookup token with
  | none => (sessions, none)
  | some session => if session.expiresAt < now then (sessions.erase token, none) else (sessions, some session)

def has (sessions : Sessions) (now : Nat) (token : JsString) : Sessions × Bool :=
  ((get sessions now token).1, (get sessions now token).2.isSome)

def submitCredentials (sessions : Sessions) (now : Nat) (token : JsString) (p : Payload) : Sessions × Bool :=
  match get sessions now token with
  | (sessions, none) => (sessions, false)
  | (sessions, some session) =>
    if session.submitted then (sessions, false) else (sessions.insert token (session.fill p), true)

def delete (sessions : Sessions) (token : JsString) : Sessions × Bool := (sessions.erase token, decide (token ∈ sessions))

/-- The sessions that are left, and how many were removed. -/
def cleanup (sessions : Sessions) (now : Nat) : Sessions × Nat :=
  let left := sessions.entries.filter fun x => decide (now ≤ x.2.expiresAt)
  (⟨left, sessions.nodupKeys.sublist List.filter_sublist⟩, sessions.entries.length - left.length)

/-! ## What the operations do -/

/-- The session that is stored and not expired. -/
def live (sessions : Sessions) (now : Nat) (token : JsString) : Option SessionData :=
  (sessions.lookup token).filter fun d => decide (now ≤ d.expiresAt)

theorem live_some {sessions : Sessions} {now : Nat} {token : JsString} {d : SessionData} :
    live sessions now token = some d ↔ sessions.lookup token = some d ∧ now ≤ d.expiresAt := by
  unfold live
  rw [Option.filter_eq_some_iff, decide_eq_true_iff]

theorem get_value (sessions : Sessions) (now : Nat) (token : JsString) :
    (get sessions now token).2 = live sessions now token := by
  unfold get live
  cases sessions.lookup token with
  | none => rfl
  | some d =>
    dsimp only
    by_cases hd : d.expiresAt < now
    · rw [if_pos hd, Option.filter_some, if_neg (by simpa using hd)]
    · rw [if_neg hd, Option.filter_some, if_pos (by simpa using hd)]

/-- What is dropped is over. -/
structure Drops (s t : Sessions) (now : Nat) : Prop where
  kept : ∀ token d, s.lookup token = some d → now ≤ d.expiresAt → t.lookup token = some d
  old : ∀ token d, t.lookup token = some d → s.lookup token = some d
  size : size t ≤ size s

theorem Drops.refl (s : Sessions) (now : Nat) : Drops s s now := ⟨fun _ _ h _ => h, fun _ _ h => h, le_refl _⟩

theorem Drops.trans {s t u : Sessions} {now : Nat} (h : Drops s t now) (h' : Drops t u now) : Drops s u now :=
  ⟨fun token d hs hd => h'.kept token d (h.kept token d hs hd) hd, fun token d hu => h.old token d (h'.old token d hu),
    le_trans h'.size h.size⟩

theorem size_erase (sessions : Sessions) (token : JsString) : size (sessions.erase token) ≤ size sessions :=
  (List.kerase_sublist token sessions.entries).length_le

theorem size_insert (sessions : Sessions) (token : JsString) (d : SessionData) :
    size (sessions.insert token d) ≤ size sessions + 1 := by
  unfold size
  rw [AList.entries_insert, List.length_cons]
  exact Nat.succ_le_succ (size_erase sessions token)

/-- Writing to a session that is there adds none. -/
theorem size_update {sessions : Sessions} {token : JsString} (d : SessionData) (h : token ∈ sessions) :
    size (sessions.insert token d) = size sessions := by
  obtain ⟨old, before, after, -, hentries, herased⟩ := List.exists_of_kerase (AList.mem_keys.mp h)
  unfold size
  rw [AList.entries_insert, herased, hentries]
  simp
  omega

theorem get_drops (sessions : Sessions) (now : Nat) (token : JsString) : Drops sessions (get sessions now token).1 now := by
  unfold get
  cases hd : sessions.lookup token with
  | none => exact .refl ..
  | some d =>
    dsimp only
    by_cases hlate : d.expiresAt < now
    · rw [if_pos hlate]
      refine ⟨fun other d' hs hd' => ?_, fun other d' ht => ?_, size_erase ..⟩
      · by_cases heq : other = token
        · rw [heq, hd] at hs
          obtain rfl := Option.some.inj hs
          omega
        · rw [AList.lookup_erase_ne heq]
          exact hs
      · by_cases heq : other = token
        · rw [heq, AList.lookup_erase] at ht
          cases ht
        · rwa [AList.lookup_erase_ne heq] at ht
    · rw [if_neg hlate]
      exact .refl ..

theorem cleanup_drops (sessions : Sessions) (now : Nat) : Drops sessions (cleanup sessions now).1 now := by
  have hlookup : ∀ token d, (cleanup sessions now).1.lookup token = some d ↔
      sessions.lookup token = some d ∧ now ≤ d.expiresAt := by
    intro token d
    show d ∈ (cleanup sessions now).1.lookup token ↔ d ∈ sessions.lookup token ∧ _
    rw [AList.mem_lookup_iff, AList.mem_lookup_iff]
    refine List.mem_filter.trans (and_congr_right fun _ => ?_)
    exact decide_eq_true_iff
  refine ⟨fun token d hs hd => (hlookup token d).mpr ⟨hs, hd⟩, fun token d ht => ((hlookup token d).mp ht).1, ?_⟩
  exact List.length_filter_le ..

theorem submitCredentials_true {sessions : Sessions} {now : Nat} {token : JsString} {p : Payload} :
    (submitCredentials sessions now token p).2 = true ↔
      ∃ d, live sessions now token = some d ∧ d.submitted = false := by
  unfold submitCredentials
  rw [← get_value]
  obtain ⟨t, found⟩ := get sessions now token
  cases found with
  | none => simp
  | some d => cases hd : d.submitted <;> simp [hd]

/-- A submission that is taken is stored. -/
theorem submitCredentials_stores {sessions : Sessions} {now : Nat} {token : JsString} {p : Payload} {d : SessionData}
    (hlive : live sessions now token = some d) (hd : d.submitted = false) :
    submitCredentials sessions now token p = (sessions.insert token (d.fill p), true) := by
  obtain ⟨hlookup, htime⟩ := live_some.mp hlive
  have hget : get sessions now token = (sessions, some d) := by
    unfold get
    rw [hlookup]
    exact if_neg (by omega)
  unfold submitCredentials
  rw [hget]
  simp [hd]

theorem submitCredentials_refuses {sessions : Sessions} {now : Nat} {token : JsString} {p : Payload}
    (h : (submitCredentials sessions now token p).2 = false) :
    (submitCredentials sessions now token p).1 = (get sessions now token).1 := by
  unfold submitCredentials at h ⊢
  cases hget : get sessions now token with
  | mk t found =>
    rw [hget] at h
    cases found with
    | none => rfl
    | some d =>
      cases hd : d.submitted with
      | true => simp [hd]
      | false => simp [hd] at h

end SessionStore

/-! ## Routes -/

inductive Response where
  | created (token : JsString) (expiresAt : Nat)
  | ready (encrypted : JsString) (ephemeralPublicKey nonce : Option JsString)
  | pending
  | ok
  | deleted
  | badRequest (error : String)
  | notFound (error : String)
  | tooManyRequests
  | atCapacity
  | internalError
  deriving DecidableEq, Repr

/-- The field of a body, where `typeof` makes it a string. -/
def textField (key : String) (body : Json) : Option JsString := (body.get key).bind Json.text?

def Payload.read (body : Json) : Option Payload := do
  let encrypted ← textField "encrypted" body
  let ephemeralPublicKey ← textField "ephemeralPublicKey" body
  let nonce ← textField "nonce" body
  some ⟨encrypted, ephemeralPublicKey, nonce⟩

def maxRetries : Nat := 10

/-- The first of the tokens drawn that is not in use; looking one up may remove it. -/
def generateUniqueToken (sessions : Sessions) (now : Nat) : List JsString → Sessions × Option JsString
  | [] => (sessions, none)
  | token :: draws => match SessionStore.has sessions now token with
    | (sessions, true) => generateUniqueToken sessions now draws
    | (sessions, false) => (sessions, some token)

/-- `POST /api/session`; a draw that gives no unused token is thrown. -/
def createRoute (options : StoreOptions) (sessions : Sessions) (now : Nat) (allowed : Bool) (body : Option Json)
    (draws : List JsString) : Sessions × Response :=
  if !allowed then (sessions, .tooManyRequests)
  else match (body.filter Json.truthy).bind (textField "publicKey") with
    | none | some [] => (sessions, .badRequest "Missing or invalid publicKey")
    | some publicKey => match generateUniqueToken sessions now (draws.take maxRetries) with
      | (sessions, none) => (sessions, .internalError)
      | (sessions, some token) => match SessionStore.create options sessions now token publicKey with
        | (sessions, false) => (sessions, .atCapacity)
        | (sessions, true) => (sessions, .created token (now + options.ttlMs))

/-- What a poll makes of the session it finds. -/
def pollResponse : Option SessionData → Response
  | none => .notFound "Session not found or expired"
  | some session => match session.encrypted with
    | none | some [] => .pending
    | some encrypted => .ready encrypted session.ephemeralPublicKey session.nonce

/-- `GET /api/session/:token/poll`. -/
def pollRoute (sessions : Sessions) (now : Nat) (allowed : Bool) (token : JsString) : Sessions × Response :=
  if !allowed then (sessions, .tooManyRequests)
  else ((SessionStore.get sessions now token).1, pollResponse (SessionStore.get sessions now token).2)

/-- `POST /api/session/:token`. -/
def submitRoute (sessions : Sessions) (now : Nat) (allowed : Bool) (token : JsString) (body : Option Json) :
    Sessions × Response :=
  if !allowed then (sessions, .tooManyRequests)
  else match (body.filter Json.truthy).bind Payload.read with
    | none => (sessions, .badRequest "Missing encrypted, ephemeralPublicKey, or nonce")
    | some p => match SessionStore.submitCredentials sessions now token p with
      | (sessions, false) => (sessions, .notFound "Session not found, expired, or already submitted")
      | (sessions, true) => (sessions, .ok)

/-- `DELETE /api/session/:token`. -/
def deleteRoute (sessions : Sessions) (token : JsString) : Sessions × Response :=
  ((SessionStore.delete sessions token).1, .deleted)

theorem pollResponse_fill (d : SessionData) {p : Payload} (h : p.encrypted ≠ []) :
    pollResponse (some (d.fill p)) = .ready p.encrypted (some p.ephemeralPublicKey) (some p.nonce) := by
  obtain ⟨encrypted, ephemeralPublicKey, nonce⟩ := p
  cases encrypted with
  | nil => exact absurd rfl h
  | cons u encrypted => rfl

end FlowHelm.AuthBridge
