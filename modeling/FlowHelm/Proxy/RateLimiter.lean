/-
  FlowHelm.Proxy.RateLimiter — rate-limiter.ts and key-rotator.ts: what the proxy counts for a
  credential, by its name.

  Both are Maps: `register` begins the entry of a name anew, so among rules of one name the
  last with a limit counts. Times are milliseconds. The rotator counts in numbers, which have
  53 bits: a counter stops at 2^53.

  - `consume_spec`: what one `consume` does to an entry.
  - `lookup_buildRateLimiter`: the entry a name starts with.
  - `getNextValue_mem`: a rotated value is one of the rule's.
  - `getNextValue_keys` / `getCounter_next`: which one it is, and what it makes of the counters.
-/
import Mathlib.Data.List.Induction
import FlowHelm.Lib.SlidingWindow
import FlowHelm.Proxy.CredentialSchema

namespace FlowHelm.Proxy

open Js SlidingWindow

/-! ## The limiter -/

structure WindowEntry where
  timestamps : List Nat
  rule : RateLimitRule
  deriving DecidableEq

/-- `windows`. -/
abbrev RateLimiter := AList fun _ : JsString => WindowEntry

structure RateLimitResult where
  allowed : Bool
  /-- `none` is Infinity. -/
  remaining : Option Nat
  retryAfterMs : Nat
  deriving DecidableEq, Repr

def RateLimitRule.windowMs (r : RateLimitRule) : Nat := r.windowSeconds * 1000

def RateLimiter.register (l : RateLimiter) (credentialName : JsString) (rule : RateLimitRule) : RateLimiter :=
  AList.insert credentialName ⟨[], rule⟩ l

def RateLimiter.check (l : RateLimiter) (credentialName : JsString) (now : Nat) : RateLimiter × RateLimitResult :=
  match AList.lookup credentialName l with
  | none => (l, ⟨true, none, 0⟩)
  | some entry =>
    let timestamps := recent entry.rule.windowMs now entry.timestamps
    let l := AList.insert credentialName { entry with timestamps := timestamps } l
    if entry.rule.requests ≤ timestamps.length then
      let oldestInWindow := timestamps.head?.getD now
      (l, ⟨false, some 0, oldestInWindow + entry.rule.windowMs - now⟩)
    else (l, ⟨true, some (entry.rule.requests - timestamps.length), 0⟩)

def RateLimiter.record (l : RateLimiter) (credentialName : JsString) (now : Nat) : RateLimiter :=
  match AList.lookup credentialName l with
  | none => l
  | some entry => AList.insert credentialName { entry with timestamps := entry.timestamps ++ [now] } l

def RateLimiter.consume (l : RateLimiter) (credentialName : JsString) (now : Nat) : RateLimiter × RateLimitResult :=
  let (l, result) := l.check credentialName now
  if result.allowed then (l.record credentialName now, result) else (l, result)

/-- main.ts: the rules with a limit, registered in their order. -/
def buildRateLimiter (credentials : List CredentialRule) : RateLimiter :=
  credentials.foldl (fun l cred => match cred.rateLimit with
    | some rule => l.register cred.name rule
    | none => l) ∅

/-- An entry after a `consume` of its name. -/
def WindowEntry.consumed (entry : WindowEntry) (now : Nat) : WindowEntry :=
  let timestamps := recent entry.rule.windowMs now entry.timestamps
  { entry with timestamps := if entry.rule.requests ≤ timestamps.length then timestamps else timestamps ++ [now] }

def WindowEntry.allows (entry : WindowEntry) (now : Nat) : Bool :=
  decide ((recent entry.rule.windowMs now entry.timestamps).length < entry.rule.requests)

theorem consume_none {l : RateLimiter} {name : JsString} (h : AList.lookup name l = none) (now : Nat) :
    l.consume name now = (l, ⟨true, none, 0⟩) := by
  unfold RateLimiter.consume RateLimiter.check RateLimiter.record
  rw [h]
  simp only [if_true, h]

theorem consume_spec {l : RateLimiter} {name : JsString} {entry : WindowEntry}
    (h : AList.lookup name l = some entry) (now : Nat) :
    (l.consume name now).2.allowed = entry.allows now ∧
      AList.lookup name (l.consume name now).1 = some (entry.consumed now) ∧
      ∀ other, other ≠ name → AList.lookup other (l.consume name now).1 = AList.lookup other l := by
  unfold RateLimiter.consume RateLimiter.check
  rw [h]
  unfold WindowEntry.allows WindowEntry.consumed
  dsimp only
  by_cases hfull : entry.rule.requests ≤ (recent entry.rule.windowMs now entry.timestamps).length
  · rw [if_pos hfull, if_pos hfull]
    refine ⟨(decide_eq_false (by omega)).symm, AList.lookup_insert _, fun other hother => ?_⟩
    exact AList.lookup_insert_ne hother
  · rw [if_neg hfull, if_neg hfull]
    dsimp only
    rw [if_pos rfl]
    unfold RateLimiter.record
    rw [AList.lookup_insert]
    refine ⟨(decide_eq_true (by omega)).symm, AList.lookup_insert _, fun other hother => ?_⟩
    rw [AList.lookup_insert_ne hother, AList.lookup_insert_ne hother]

/-- The limit the last rule of a name with one has. -/
def limitFor (credentials : List CredentialRule) (name : JsString) : Option RateLimitRule :=
  (credentials.reverse.find? fun c => c.name = name ∧ c.rateLimit.isSome).bind (·.rateLimit)

theorem lookup_buildRateLimiter (credentials : List CredentialRule) (name : JsString) :
    AList.lookup name (buildRateLimiter credentials) = (limitFor credentials name).map fun rule => ⟨[], rule⟩ := by
  induction credentials using List.reverseRecOn with
  | nil => rfl
  | append_singleton credentials c ih =>
    unfold buildRateLimiter limitFor at ih ⊢
    rw [List.foldl_append, List.foldl_cons, List.foldl_nil, List.reverse_append, List.reverse_singleton, List.singleton_append,
      List.find?_cons]
    cases hlimit : c.rateLimit with
    | none => simpa using ih
    | some rule =>
      by_cases hname : c.name = name
      · have hfound : decide (c.name = name ∧ (some rule).isSome = true) = true := decide_eq_true ⟨hname, rfl⟩
        rw [hfound]
        dsimp only
        rw [← hname, Option.bind_some, hlimit]
        exact AList.lookup_insert _
      · have hfound : decide (c.name = name ∧ (some rule).isSome = true) = false := decide_eq_false fun h => hname h.1
        rw [hfound]
        dsimp only
        rw [← ih]
        exact AList.lookup_insert_ne fun heq => hname heq.symm

/-! ## The rotator -/

/-- `counters`. -/
abbrev KeyRotator := AList fun _ : JsString => Nat

/-- `n + 1` of a number. -/
def nextCount (n : Nat) : Nat := (toDouble (n + 1 : Nat)).num.toNat

def KeyRotator.getNextValue (k : KeyRotator) (credential : CredentialRule) : KeyRotator × JsString :=
  match credential.values with
  | none | some [] => (k, credential.value)
  | some values =>
    let current := (AList.lookup credential.name k).getD 0
    let idx := current % values.length
    (AList.insert credential.name (nextCount current) k, values[idx]?.getD credential.value)

def KeyRotator.reset (_ : KeyRotator) : KeyRotator := ∅

def KeyRotator.getCounter (k : KeyRotator) (credentialName : JsString) : Nat := (AList.lookup credentialName k).getD 0

/-- What a rule can be injected as, with a rotator. -/
def CredentialRule.rotated (c : CredentialRule) : List JsString := match c.values with
  | none | some [] => [c.value]
  | some values => values

theorem getNextValue_mem (k : KeyRotator) (c : CredentialRule) : (k.getNextValue c).2 ∈ c.rotated := by
  unfold KeyRotator.getNextValue CredentialRule.rotated
  split
  · exact List.mem_singleton_self _
  · exact List.mem_singleton_self _
  · rename_i values hne _
    have hpos : 0 < values.length := by
      cases values with
      | nil => exact absurd rfl hne
      | cons v vs => exact Nat.succ_pos _
    dsimp only
    rw [List.getElem?_eq_getElem (Nat.mod_lt _ hpos)]
    exact List.getElem_mem _

theorem nextCount_of_lt {n : Nat} (h : n < 2 ^ 53) : nextCount n = n + 1 := by
  unfold nextCount
  rcases Nat.lt_or_ge (n + 1) (2 ^ 53) with hlt | hge
  · rw [toDouble_nat hlt]
    rfl
  · obtain rfl : n = 2 ^ 53 - 1 := by omega
    decide

/-- From 2^53 on the sum is rounded down again. -/
theorem nextCount_full : nextCount (2 ^ 53) = 2 ^ 53 := by decide

/-- The keys a rule rotates through. -/
def CredentialRule.keys (c : CredentialRule) : List JsString := c.values.getD []

/-- `idx`: the place in `values` the next key is taken from. -/
def KeyRotator.idx (k : KeyRotator) (c : CredentialRule) : Nat := k.getCounter c.name % c.keys.length

theorem getNextValue_keys {c : CredentialRule} (h : c.keys ≠ []) (k : KeyRotator) :
    k.getNextValue c = (AList.insert c.name (nextCount (k.getCounter c.name)) k, c.keys[k.idx c]?.getD c.value) := by
  unfold KeyRotator.getNextValue KeyRotator.idx
  unfold CredentialRule.keys at h ⊢
  split
  · rename_i hvalues
    rw [hvalues] at h
    exact absurd rfl h
  · rename_i hvalues
    rw [hvalues] at h
    exact absurd rfl h
  · rename_i values hvalues
    rw [hvalues]
    rfl

theorem getNextValue_keyless {c : CredentialRule} (h : c.keys = []) (k : KeyRotator) : k.getNextValue c = (k, c.value) := by
  unfold KeyRotator.getNextValue
  unfold CredentialRule.keys at h
  split
  · rfl
  · rfl
  · rename_i values hne hvalues
    rw [hvalues] at h
    exact absurd h hne

/-- Only the counter of the rule's name moves. -/
theorem getCounter_next {c : CredentialRule} (h : c.keys ≠ []) (k : KeyRotator) (name : JsString) :
    (k.getNextValue c).1.getCounter name = if name = c.name then nextCount (k.getCounter name) else k.getCounter name := by
  rw [getNextValue_keys h]
  unfold KeyRotator.getCounter
  split
  · rename_i hname
    rw [hname, AList.lookup_insert]
    rfl
  · rename_i hname
    rw [AList.lookup_insert_ne hname]

end FlowHelm.Proxy
