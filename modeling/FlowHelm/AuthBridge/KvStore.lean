/-
  FlowHelm.AuthBridge.KvStore — the session store of the Workers bridge, over Workers KV.

  KV is a map: an entry is gone `expirationTtl` seconds after its put, and a put with an
  `expirationTtl` under 60 is rejected. The JSON a session is stored as is not in here: what is
  put is what is got.

  - `get_check`: what the store's own check of the expiry adds to KV's.
-/
import FlowHelm.AuthBridge.Store

namespace FlowHelm.AuthBridge

open Js

/-! ## Workers KV -/

structure KvEntry where
  value : SessionData
  dropsAt : Nat
  deriving DecidableEq, Repr

abbrev KvNamespace := AList fun _ : JsString => KvEntry

namespace KvNamespace

def minTtl : Nat := 60

def get (kv : KvNamespace) (now : Nat) (key : JsString) : Option SessionData :=
  (kv.lookup key).bind fun e => if now < e.dropsAt then some e.value else none

/-- `none` is a rejection. -/
def put (kv : KvNamespace) (now : Nat) (key : JsString) (value : SessionData) (expirationTtl : Nat) : Option KvNamespace :=
  if expirationTtl < minTtl then none else some (kv.insert key ⟨value, now + expirationTtl * 1000⟩)

def delete (kv : KvNamespace) (key : JsString) : KvNamespace := kv.erase key

theorem get_some {kv : KvNamespace} {now : Nat} {key : JsString} {d : SessionData} :
    kv.get now key = some d ↔ ∃ e, kv.lookup key = some e ∧ now < e.dropsAt ∧ e.value = d := by
  unfold get
  simp only [Option.bind_eq_some_iff, Option.ite_none_right_eq_some, Option.some.injEq]

end KvNamespace

/-! ## The store -/

namespace KVSessionStore

def sessionPrefix : JsString := ofString "s:"

def sessionKey (token : JsString) : JsString := sessionPrefix ++ token

theorem sessionKey_inj {token other : JsString} : sessionKey token = sessionKey other ↔ token = other :=
  List.append_right_inj ..

/-- What `get` makes of what KV gave. -/
inductive Got where
  | missing
  | expired
  | found (session : SessionData)
  deriving DecidableEq

def check (raw : Option SessionData) (now : Nat) : Got := match raw with
  | none => .missing
  | some session => if session.expiresAt < now then .expired else .found session

def get (kv : KvNamespace) (now : Nat) (token : JsString) : KvNamespace × Option SessionData :=
  match check (kv.get now (sessionKey token)) now with
  | .missing => (kv, none)
  | .expired => (kv.delete (sessionKey token), none)
  | .found session => (kv, some session)

def has (kv : KvNamespace) (now : Nat) (token : JsString) : KvNamespace × Bool :=
  ((get kv now token).1, (get kv now token).2.isSome)

/-- `none` where KV rejects the put. -/
def create (ttlSeconds : Nat) (kv : KvNamespace) (now : Nat) (token publicKey : JsString) : KvNamespace × Option Bool :=
  match kv.put now (sessionKey token) (.opened publicKey (now + ttlSeconds * 1000)) ttlSeconds with
  | some kv => (kv, some true)
  | none => (kv, none)

/-- The rest of the TTL that a submission is stored with. -/
def remainingSeconds (session : SessionData) (now : Nat) : Nat := max 1 ((session.expiresAt - now) / 1000)

def submitCredentials (kv : KvNamespace) (now : Nat) (token : JsString) (p : Payload) : KvNamespace × Option Bool :=
  match get kv now token with
  | (kv, none) => (kv, some false)
  | (kv, some session) =>
    if session.submitted then (kv, some false)
    else match kv.put now (sessionKey token) (session.fill p) (remainingSeconds session now) with
      | some kv => (kv, some true)
      | none => (kv, none)

def delete (kv : KvNamespace) (token : JsString) : KvNamespace := kv.delete (sessionKey token)

theorem check_found {raw : Option SessionData} {now : Nat} {d : SessionData} :
    check raw now = .found d ↔ raw = some d ∧ now ≤ d.expiresAt := by
  cases raw with
  | none => simp [check]
  | some session =>
    simp only [check, Option.some.injEq]
    split
    · rename_i hlate
      simp only [reduceCtorEq, false_iff, not_and, not_le]
      rintro rfl
      exact hlate
    · rename_i htime
      simp only [Got.found.injEq]
      constructor
      · rintro rfl
        exact ⟨rfl, by omega⟩
      · exact fun h => h.1

theorem get_check {kv : KvNamespace} {now : Nat} {token : JsString} {d : SessionData}
    (h : check (kv.get now (sessionKey token)) now = .found d) : get kv now token = (kv, some d) := by
  unfold get
  rw [h]

theorem get_missing {kv : KvNamespace} {now : Nat} {token : JsString} (h : kv.get now (sessionKey token) = none) :
    get kv now token = (kv, none) := by
  unfold get
  rw [h]
  rfl

end KVSessionStore

end FlowHelm.AuthBridge
