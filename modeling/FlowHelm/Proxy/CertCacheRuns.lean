/-
  FlowHelm.Proxy.CertCacheRuns — the CertCache over any run of its operations.

  `getOrCreate` looks the key up at once; on a miss it stores what the generator gives when that
  has come, and anything may happen before. A key is used when a value is stored under it or
  `get` (its own or `getOrCreate`'s) finds one; `has` uses nothing.

  - `Recent`: the entries are in the order of their last uses, each as it was stored last, and a
    key that should still be served was pushed out by `maxEntries` others.
  - `Recent.hit` / `Recent.set` / `Recent.expire`: the three things an operation can do; `Recent.kept`:
    what a value stored leaves.
  - `cache_is_lru`: what any run comes to.
-/
import FlowHelm.Lib.Recency
import FlowHelm.Lib.Runs
import FlowHelm.Proxy.CertCache

namespace FlowHelm.Proxy

open Js Runs Recency

namespace CertCache

variable {T : Type}

/-! ## Runs -/

inductive Use (T : Type) where
  | stored (key : JsString) (value : T) (now : Nat)
  | hit (key : JsString)

def Use.key : Use T → JsString
  | .stored key .. => key
  | .hit key => key

/-- What the last `set` of a key stored, and when. -/
def lastStored : List (Use T) → JsString → Option (T × Nat)
  | [], _ => none
  | .stored other value now :: log, key => if other = key then some (value, now) else lastStored log key
  | .hit _ :: log, key => lastStored log key

structure RunSt (T : Type) where
  cache : CertCache T
  now : Nat
  /-- The keys `getOrCreate` calls are still waiting to store. -/
  creating : List JsString
  /-- The uses, the newest first. -/
  log : List (Use T)

inductive Op (T : Type) where
  | get (key : JsString)
  | set (key : JsString) (value : T)
  | has (key : JsString)
  | getOrCreate (key : JsString)
  /-- The generator of a waiting call has come to its value. -/
  | created (i : Nat) (value : T)
  /-- Or it has thrown. -/
  | failed (i : Nat)

structure TimedOp (T : Type) where
  now : Nat
  op : Op T

def RunSt.get (s : RunSt T) (now : Nat) (key : JsString) : RunSt T :=
  let r := s.cache.get now key
  { s with cache := r.1, now := now, log := if r.2.isSome then .hit key :: s.log else s.log }

def RunSt.set (s : RunSt T) (now : Nat) (key : JsString) (value : T) : RunSt T :=
  { s with cache := s.cache.set now key value, now := now, log := .stored key value now :: s.log }

def RunSt.apply (s : RunSt T) (now : Nat) : Op T → Option (RunSt T)
  | .get key => some (s.get now key)
  | .set key value => some (s.set now key value)
  | .has key => some { s with cache := (s.cache.has now key).1, now := now }
  | .getOrCreate key =>
    let t := s.get now key
    some (if (s.cache.get now key).2.isSome then t else { t with creating := t.creating ++ [key] })
  | .created i value => s.creating[i]?.map fun key => { s.set now key value with creating := s.creating.eraseIdx i }
  | .failed i => s.creating[i]?.map fun _ => { s with now := now, creating := s.creating.eraseIdx i }

def RunSt.step (s : RunSt T) (e : TimedOp T) : Option (RunSt T) := if e.now < s.now then none else s.apply e.now e.op

/-- `new CertCache({ maxEntries, ttlMs })`. -/
def runs (T : Type) (maxEntries ttlMs : Nat) : System (RunSt T) (TimedOp T) := ⟨⟨⟨[], maxEntries, ttlMs⟩, 0, [], []⟩, RunSt.step⟩

/-! ## The entries -/

def keys (c : CertCache T) : List JsString := c.cache.map (·.1)

def usedKeys (log : List (Use T)) : List JsString := log.map Use.key

@[simp] theorem keys_delete (c : CertCache T) (key : JsString) : (c.delete key).keys = c.keys.filter (· != key) := by
  unfold keys delete
  rw [List.filter_map]
  rfl

theorem not_mem_delete (c : CertCache T) (key : JsString) : key ∉ (c.delete key).keys := by simp

theorem delete_sublist (c : CertCache T) (key : JsString) : (c.delete key).keys.Sublist c.keys := by
  rw [keys_delete]
  exact List.filter_sublist

theorem entry_mem {c : CertCache T} {key : JsString} {entry : CertCacheEntry T} (h : c.entry? key = some entry) :
    (key, entry) ∈ c.cache := by
  obtain ⟨before, after, hcache, -⟩ := List.lookup_eq_some_iff.mp h
  rw [hcache]
  simp

theorem entry_none {c : CertCache T} {key : JsString} (h : c.entry? key = none) : key ∉ c.keys := by
  intro hmem
  obtain ⟨x, hx, rfl⟩ := List.mem_map.mp hmem
  exact absurd rfl (bne_iff_ne.mp (List.lookup_eq_none_iff.mp h x hx))

theorem entry_of_mem {c : CertCache T} {key : JsString} (h : key ∈ c.keys) : ∃ entry, c.entry? key = some entry := by
  cases hentry : c.entry? key with
  | none => exact absurd h (entry_none hentry)
  | some entry => exact ⟨entry, rfl⟩

/-- What holds of a cache at `now`, its uses being `log`. -/
structure Recent (c : CertCache T) (now : Nat) (log : List (Use T)) : Prop where
  size : c.size ≤ c.maxEntries
  nodup : c.keys.Nodup
  stored : ∀ x ∈ c.cache, ∃ t, lastStored log x.1 = some (x.2.value, t) ∧ x.2.expiresAt = t + c.ttlMs
  ordered : Ordered (usedKeys log) c.keys
  missing : ∀ key value t, lastStored log key = some (value, t) → now ≤ t + c.ttlMs → key ∉ c.keys →
    c.maxEntries ≤ usedSince (usedKeys log) key

variable {c : CertCache T} {earlier now : Nat} {log : List (Use T)}

theorem Recent.later (h : Recent c earlier log) (hnow : earlier ≤ now) : Recent c now log :=
  { h with missing := fun key value t hlast hfresh => h.missing key value t hlast (hnow.trans hfresh) }

/-- An entry past its time is no loss. -/
theorem Recent.expire (h : Recent c now log) {key : JsString} {entry : CertCacheEntry T} (hentry : c.entry? key = some entry)
    (hexpired : entry.expiresAt < now) : Recent (c.delete key) now log where
  size := (List.length_filter_le ..).trans h.size
  nodup := h.nodup.sublist (delete_sublist c key)
  stored x hx := h.stored x (List.mem_of_mem_filter hx)
  ordered := h.ordered.sublist (delete_sublist c key)
  missing other value t hlast hfresh hother := by
    by_cases hkey : other = key
    · obtain ⟨s, hs, hexpires⟩ := h.stored _ (entry_mem hentry)
      rw [← hkey, hlast] at hs
      obtain ⟨-, rfl⟩ := Prod.ext_iff.mp (Option.some.inj hs)
      change now ≤ t + c.ttlMs at hfresh
      simp only at hexpires
      omega
    · refine h.missing other value t hlast hfresh fun hmem => hother ?_
      simpa [hkey] using hmem

/-- What a use of `key` leaves the count of another key at. -/
theorem usedSince_use (log : List (Use T)) (use : Use T) {key : JsString} (h : use.key ≠ key) :
    usedSince (usedKeys log) key ≤ usedSince (usedKeys (use :: log)) key := usedSince_mono _ h

/-- A hit moves its entry to the end. -/
theorem Recent.hit (h : Recent c now log) {key : JsString} {entry : CertCacheEntry T} (hentry : c.entry? key = some entry) :
    Recent { c with cache := (c.delete key).cache ++ [(key, entry)] } now (.hit key :: log) := by
  have hkeys : keys { c with cache := (c.delete key).cache ++ [(key, entry)] } = (c.delete key).keys ++ [key] := by
    simp [keys]
  have hmem := entry_mem hentry
  have hshorter : (c.delete key).cache.length < c.cache.length :=
    List.length_filter_lt_length_iff_exists.mpr ⟨_, hmem, by simp⟩
  refine ⟨?_, ?_, ?_, ?_, ?_⟩
  · have hsize : c.cache.length ≤ c.maxEntries := h.size
    show ((c.delete key).cache ++ [(key, entry)]).length ≤ c.maxEntries
    simp only [List.length_append, List.length_singleton]
    omega
  · rw [hkeys]
    exact List.nodup_append_comm.mp (List.nodup_cons.mpr ⟨not_mem_delete c key, h.nodup.sublist (delete_sublist c key)⟩)
  · intro x hx
    rcases List.mem_append.mp hx with hx | hx
    · exact h.stored x (List.mem_of_mem_filter hx)
    · rw [List.mem_singleton.mp hx]
      exact h.stored _ hmem
  · rw [hkeys]
    exact (h.ordered.sublist (delete_sublist c key)).use (not_mem_delete c key)
  · intro other value t hlast hfresh hother
    rw [hkeys] at hother
    obtain ⟨hdeleted, hne⟩ : other ∉ (c.delete key).keys ∧ other ≠ key := by simpa using hother
    have hold := h.missing other value t hlast hfresh fun hmem => hdeleted (by simpa [hne] using hmem)
    exact hold.trans (usedSince_use log (.hit key) hne.symm)

/-- What is kept beside a value stored: of a full cache all but the first, which was pushed out. -/
theorem Recent.kept (h : Recent c now log) (hmax : 1 ≤ c.maxEntries) (key : JsString) (value : T) :
    ∃ kept : List (JsString × CertCacheEntry T), (c.set now key value).cache = kept ++ [(key, ⟨value, now + c.ttlMs⟩)] ∧
      kept.Sublist (c.delete key).cache ∧ kept.length + 1 ≤ c.maxEntries ∧
        ∀ other ∈ (c.delete key).keys, other ∉ kept.map (·.1) → c.maxEntries ≤ usedSince (key :: usedKeys log) other := by
  have hsize : (c.delete key).cache.length ≤ c.maxEntries := (List.length_filter_le ..).trans h.size
  have hnodup := h.nodup.sublist (delete_sublist c key)
  have hordered := h.ordered.sublist (delete_sublist c key)
  have hnot := not_mem_delete c key
  unfold CertCache.set
  dsimp only
  by_cases hfull : c.maxEntries ≤ (c.delete key).cache.length
  · rw [if_pos hfull]
    refine ⟨_, rfl, List.drop_sublist 1 _, by rw [List.length_drop]; omega, ?_⟩
    unfold keys at hnodup hordered hnot ⊢
    cases hcache : (c.delete key).cache with
    | nil => simp
    | cons first rest =>
      intro other hother hkept
      rw [hcache] at hfull hnodup hordered hnot
      have hfirst : other = first.1 := (List.mem_cons.mp hother).resolve_right hkept
      have hevict := hordered.evict hnodup hnot
      rw [hfirst]
      simp only [List.length_cons, List.length_map] at hfull hevict
      omega
  · rw [if_neg hfull]
    refine ⟨_, rfl, List.Sublist.refl _, by omega, ?_⟩
    intro other hother hkept
    exact absurd hother hkept

/-- A value stored comes last, and the first entry goes if there are too many. -/
theorem Recent.set (h : Recent c now log) (hmax : 1 ≤ c.maxEntries) (key : JsString) (value : T) :
    Recent (c.set now key value) now (.stored key value now :: log) := by
  have hnodup := h.nodup.sublist (delete_sublist c key)
  have hordered := h.ordered.sublist (delete_sublist c key)
  have hnot := not_mem_delete c key
  obtain ⟨kept, hset, hsub, hroom, hgone⟩ := h.kept hmax key value
  have hkeys : (c.set now key value).keys = kept.map (·.1) ++ [key] := by simp [keys, hset]
  have hkept : (kept.map (·.1)).Sublist (c.delete key).keys := hsub.map _
  refine ⟨?_, ?_, ?_, ?_, ?_⟩
  · show (c.set now key value).cache.length ≤ c.maxEntries
    rw [hset, List.length_append]
    exact hroom
  · rw [hkeys]
    exact List.nodup_append_comm.mp (List.nodup_cons.mpr ⟨fun hmem => hnot (hkept.subset hmem), hnodup.sublist hkept⟩)
  · intro x hx
    rw [hset] at hx
    rcases List.mem_append.mp hx with hx | hx
    · have hne : key ≠ x.1 := fun heq => hnot (heq ▸ hkept.subset (List.mem_map_of_mem hx))
      obtain ⟨t, hlast, hexpires⟩ := h.stored x (List.mem_of_mem_filter (hsub.subset hx))
      exact ⟨t, by simpa [lastStored, hne] using hlast, hexpires⟩
    · rw [List.mem_singleton.mp hx]
      exact ⟨now, by simp [lastStored], rfl⟩
  · rw [hkeys]
    exact (hordered.sublist hkept).use fun hmem => hnot (hkept.subset hmem)
  · intro other old t hlast hfresh hother
    rw [hkeys] at hother
    obtain ⟨hnotkept, hne⟩ : other ∉ kept.map (·.1) ∧ other ≠ key := by simpa using hother
    by_cases hthere : other ∈ (c.delete key).keys
    · exact hgone other hthere hnotkept
    · have hlast' : lastStored log other = some (old, t) := by simpa [lastStored, hne.symm] using hlast
      have hold := h.missing other old t hlast' hfresh fun hmem => hthere (by simpa [hne] using hmem)
      exact hold.trans (usedSince_use log (.stored key value now) hne.symm)

/-! ## The operations -/

/-- What none of them changes. -/
def SameLimits (c d : CertCache T) : Prop := d.maxEntries = c.maxEntries ∧ d.ttlMs = c.ttlMs

theorem get_cases (c : CertCache T) (now : Nat) (key : JsString) :
    (c.entry? key = none ∧ c.get now key = (c, none)) ∨
      ∃ entry, c.entry? key = some entry ∧
        (entry.expiresAt < now ∧ c.get now key = (c.delete key, none) ∨
          now ≤ entry.expiresAt ∧
            c.get now key = ({ c with cache := (c.delete key).cache ++ [(key, entry)] }, some entry.value)) := by
  unfold CertCache.get
  cases hentry : c.entry? key with
  | none => exact .inl ⟨rfl, rfl⟩
  | some entry =>
    refine .inr ⟨entry, rfl, ?_⟩
    by_cases hexpired : entry.expiresAt < now
    · exact .inl ⟨hexpired, if_pos hexpired⟩
    · exact .inr ⟨Nat.le_of_not_lt hexpired, if_neg hexpired⟩

theorem Recent.get (h : Recent c now log) (key : JsString) :
    Recent (c.get now key).1 now (if (c.get now key).2.isSome then .hit key :: log else log) ∧
        SameLimits c (c.get now key).1 := by
  obtain ⟨-, hget⟩ | ⟨entry, hentry, ⟨hexpired, hget⟩ | ⟨-, hget⟩⟩ := get_cases c now key
  · rw [hget]
    exact ⟨h, rfl, rfl⟩
  · rw [hget]
    exact ⟨h.expire hentry hexpired, rfl, rfl⟩
  · rw [hget]
    exact ⟨h.hit hentry, rfl, rfl⟩

theorem Recent.has (h : Recent c now log) (key : JsString) :
    Recent (c.has now key).1 now log ∧ SameLimits c (c.has now key).1 := by
  unfold CertCache.has
  cases hentry : c.entry? key with
  | none => exact ⟨h, rfl, rfl⟩
  | some entry =>
    dsimp only
    by_cases hexpired : entry.expiresAt < now
    · rw [if_pos hexpired]
      exact ⟨h.expire hentry hexpired, rfl, rfl⟩
    · rw [if_neg hexpired]
      exact ⟨h, rfl, rfl⟩

/-- Served is what was stored last, if that is not too long ago. -/
theorem Recent.served (h : Recent c now log) {key : JsString} {value : T} (hget : (c.get now key).2 = some value) :
    ∃ t, lastStored log key = some (value, t) ∧ now ≤ t + c.ttlMs := by
  obtain ⟨-, hresult⟩ | ⟨entry, hentry, ⟨-, hresult⟩ | ⟨hfresh, hresult⟩⟩ := get_cases c now key
  · rw [hresult] at hget
    cases hget
  · rw [hresult] at hget
    cases hget
  · rw [hresult] at hget
    obtain rfl := Option.some.inj hget
    obtain ⟨t, hlast, hexpires⟩ := h.stored _ (entry_mem hentry)
    exact ⟨t, hlast, hexpires ▸ hfresh⟩

/-- And what is not served, though it is not too long ago, was pushed out. -/
theorem Recent.pushed (h : Recent c now log) {key : JsString} {value : T} {t : Nat} (hlast : lastStored log key = some (value, t))
    (hfresh : now ≤ t + c.ttlMs) (hget : (c.get now key).2 = none) : c.maxEntries ≤ usedSince (usedKeys log) key := by
  refine h.missing key value t hlast hfresh fun hmem => ?_
  obtain ⟨entry, hentry⟩ := entry_of_mem hmem
  obtain ⟨s, hs, hexpires⟩ := h.stored _ (entry_mem hentry)
  rw [hlast] at hs
  obtain ⟨-, rfl⟩ := Prod.ext_iff.mp (Option.some.inj hs)
  obtain ⟨hnone, -⟩ | ⟨entry', hentry', ⟨hexpired, -⟩ | ⟨-, hresult⟩⟩ := get_cases c now key
  · rw [hnone] at hentry
    cases hentry
  · rw [hentry] at hentry'
    obtain rfl := Option.some.inj hentry'
    simp only at hexpires
    omega
  · rw [hresult] at hget
    cases hget

/-! ## Every run -/

theorem recent_new (maxEntries ttlMs : Nat) : Recent (T := T) ⟨[], maxEntries, ttlMs⟩ 0 [] :=
  ⟨Nat.zero_le _, List.nodup_nil, nofun, ordered_nil _, nofun⟩

theorem recent_apply {s t : RunSt T} {now : Nat} {op : Op T} (h : Recent s.cache now s.log) (hmax : 1 ≤ s.cache.maxEntries)
    (hs : s.apply now op = some t) : Recent t.cache now t.log ∧ SameLimits s.cache t.cache ∧ t.now = now := by
  cases op with
  | get key =>
    obtain rfl := Option.some.inj hs
    exact ⟨(h.get key).1, (h.get key).2, rfl⟩
  | set key value =>
    obtain rfl := Option.some.inj hs
    exact ⟨h.set hmax key value, ⟨rfl, rfl⟩, rfl⟩
  | has key =>
    obtain rfl := Option.some.inj hs
    exact ⟨(h.has key).1, (h.has key).2, rfl⟩
  | getOrCreate key =>
    obtain rfl := Option.some.inj hs
    split
    · exact ⟨(h.get key).1, (h.get key).2, rfl⟩
    · exact ⟨(h.get key).1, (h.get key).2, rfl⟩
  | created i value =>
    obtain ⟨key, -, rfl⟩ := Option.map_eq_some_iff.mp hs
    exact ⟨h.set hmax key value, ⟨rfl, rfl⟩, rfl⟩
  | failed i =>
    obtain ⟨key, -, rfl⟩ := Option.map_eq_some_iff.mp hs
    exact ⟨h, ⟨rfl, rfl⟩, rfl⟩

/-- Whatever was called at nondecreasing times: there are at most `maxEntries` entries; `get`
    returns what the last `set` of its key stored, at most `ttlMs` ago; and it misses a key
    stored so lately only if `maxEntries` others were stored or hit since the key was. -/
theorem cache_is_lru (maxEntries ttlMs : Nat) (hmax : 1 ≤ maxEntries) (s : RunSt T) (hs : Reach (runs T maxEntries ttlMs) Free s)
    (now : Nat) (hnow : s.now ≤ now) (key : JsString) :
    s.cache.size ≤ maxEntries ∧
      (∀ value, (s.cache.get now key).2 = some value → ∃ t, lastStored s.log key = some (value, t) ∧ now ≤ t + ttlMs) ∧
      ((s.cache.get now key).2 = none → ∀ value t, lastStored s.log key = some (value, t) → now ≤ t + ttlMs →
        maxEntries ≤ usedSince (usedKeys s.log) key) := by
  obtain ⟨hrecent, rfl, rfl⟩ : Recent s.cache s.now s.log ∧ s.cache.maxEntries = maxEntries ∧ s.cache.ttlMs = ttlMs := by
    refine hs.inv (I := fun s => Recent s.cache s.now s.log ∧ s.cache.maxEntries = maxEntries ∧ s.cache.ttlMs = ttlMs)
      ⟨recent_new maxEntries ttlMs, rfl, rfl⟩ ?_
    intro s e t _ h _ hstep
    obtain ⟨hrecent, hentries, httl⟩ := h
    obtain ⟨htime, happly⟩ := Option.ite_none_left_eq_some.mp hstep
    obtain ⟨hrecent', hlimits, htnow⟩ := recent_apply (hrecent.later (Nat.le_of_not_lt htime)) (hentries ▸ hmax) happly
    exact ⟨htnow ▸ hrecent', hlimits.1.trans hentries, hlimits.2.trans httl⟩
  have hthen := hrecent.later hnow
  exact ⟨hthen.size, fun value hget => hthen.served hget, fun hget value t hlast hfresh => hthen.pushed hlast hfresh hget⟩

/-- Two entries; `a` is hit before `c` comes, so `b` goes. -/
theorem b_is_pushed_out : ∃ s, Reach (runs Nat 2 100) Free s ∧ (s.cache.get 6 (ofString "b")).2 = none ∧
    lastStored s.log (ofString "b") = some (2, 1) ∧ 2 ≤ usedSince (usedKeys s.log) (ofString "b") := by
  obtain ⟨s, hs, hend⟩ := reach_any (M := runs Nat 2 100) (C := Free)
    (P := fun s => s.now ≤ 6 && (s.cache.get 6 (ofString "b")).2 == none && lastStored s.log (ofString "b") == some (2, 1))
    [⟨0, .set (ofString "a") 1⟩, ⟨1, .set (ofString "b") 2⟩, ⟨2, .get (ofString "a")⟩, ⟨3, .getOrCreate (ofString "c")⟩,
      ⟨5, .created 0 3⟩] (meets_free ..) (by decide)
  simp only [Bool.and_eq_true, decide_eq_true_eq, beq_iff_eq] at hend
  obtain ⟨⟨hnow, hmiss⟩, hlast⟩ := hend
  exact ⟨s, hs, hmiss, hlast, (cache_is_lru 2 100 (by decide) s hs 6 hnow (ofString "b")).2.2 hmiss 2 1 hlast (by decide)⟩

end CertCache

end FlowHelm.Proxy
