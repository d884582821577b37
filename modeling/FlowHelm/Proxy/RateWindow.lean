/-
  FlowHelm.Proxy.RateWindow — the limiter of rate-limiter.ts as an exact sliding window, over
  any calls at nondecreasing times.

  `consume` drops the moments out of the window, refuses at `requests` of them and else adds
  its own. What it keeps is in order and never more than `requests`; it need not be all that
  was allowed, but of what is still in the window nothing is missing.

  - `Exact.consumed`: what one `consume` of the name keeps.
  - `Registered.consumes`: what any calls do, other names' among them.
  - `consume_exact`: a call is allowed just if fewer than `requests` were in its window, and
    after a refusal just from `retryAfterMs` on.
-/
import FlowHelm.Proxy.RateLimiter

namespace FlowHelm.Proxy

open Js SlidingWindow

structure ConsumeCall where
  name : JsString
  now : Nat
  deriving DecidableEq

def RateLimiter.consumes (l : RateLimiter) (calls : List ConsumeCall) : RateLimiter :=
  calls.foldl (fun l c => (l.consume c.name c.now).1) l

/-- When the calls for `name` were allowed. -/
def RateLimiter.allowedAt (l : RateLimiter) (name : JsString) : List ConsumeCall → List Nat
  | [] => []
  | c :: calls =>
    let r := l.consume c.name c.now
    (if c.name = name ∧ r.2.allowed = true then [c.now] else []) ++ RateLimiter.allowedAt r.1 name calls

/-! ## One entry -/

/-- The timestamps kept at `now`, where `allowed` are all that were allowed. -/
structure Exact (rule : RateLimitRule) (now : Nat) (timestamps allowed : List Nat) : Prop where
  alike : Alike rule.windowMs now timestamps allowed
  sorted : timestamps.Pairwise (· ≤ ·)
  past : ∀ t ∈ timestamps, t ≤ now
  full : timestamps.length ≤ rule.requests
  allowedPast : ∀ t ∈ allowed, t ≤ now

theorem exact_nil (rule : RateLimitRule) (now : Nat) : Exact rule now [] [] := ⟨rfl, .nil, nofun, Nat.zero_le _, nofun⟩

theorem Exact.later {rule : RateLimitRule} {earlier now : Nat} {timestamps allowed : List Nat}
    (h : Exact rule earlier timestamps allowed) (hnow : earlier ≤ now) : Exact rule now timestamps allowed where
  alike := h.alike.later (le_refl _) hnow
  sorted := h.sorted
  past t ht := (h.past t ht).trans hnow
  full := h.full
  allowedPast t ht := (h.allowedPast t ht).trans hnow

theorem Exact.recent {rule : RateLimitRule} {now : Nat} {timestamps allowed : List Nat} (h : Exact rule now timestamps allowed) :
    Exact rule now (recent rule.windowMs now timestamps) allowed where
  alike := h.alike.prune (le_refl _)
  sorted := recent_sorted h.sorted
  past t ht := h.past t (List.mem_of_mem_filter ht)
  full := (List.length_filter_le ..).trans h.full
  allowedPast := h.allowedPast

theorem Exact.push {rule : RateLimitRule} {now : Nat} {timestamps allowed : List Nat} (h : Exact rule now timestamps allowed)
    (hroom : timestamps.length < rule.requests) : Exact rule now (timestamps ++ [now]) (allowed ++ [now]) where
  alike := h.alike.append [now]
  sorted := List.pairwise_append.mpr ⟨h.sorted, List.pairwise_singleton .., by simpa using h.past⟩
  past := by simpa [or_imp, forall_and] using h.past
  full := by simpa using Nat.succ_le_of_lt hroom
  allowedPast := by simpa [or_imp, forall_and] using h.allowedPast

theorem Exact.consumed {entry : WindowEntry} {earlier now : Nat} {allowed : List Nat}
    (h : Exact entry.rule earlier entry.timestamps allowed) (hnow : earlier ≤ now) :
    Exact entry.rule now (entry.consumed now).timestamps (allowed ++ if entry.allows now = true then [now] else []) := by
  have hrecent := (h.later hnow).recent
  unfold WindowEntry.consumed WindowEntry.allows
  by_cases hfull : entry.rule.requests ≤ (SlidingWindow.recent entry.rule.windowMs now entry.timestamps).length
  · simpa [hfull, Nat.not_lt.mpr hfull] using hrecent
  · simpa [hfull, Nat.lt_of_not_le hfull] using hrecent.push (Nat.lt_of_not_le hfull)

/-- What is in the window of `now` was allowed since then. -/
theorem Exact.length_recent {rule : RateLimitRule} {now : Nat} {timestamps allowed : List Nat}
    (h : Exact rule now timestamps allowed) :
    (SlidingWindow.recent rule.windowMs now timestamps).length = allowed.countP fun t => now < t + rule.windowMs ∧ t ≤ now := by
  rw [h.alike, SlidingWindow.recent, ← List.countP_eq_length_filter]
  refine List.countP_congr fun t ht => ?_
  simp [h.allowedPast t ht]

/-- A full window has room again just when its oldest goes. -/
theorem Exact.retry {entry : WindowEntry} {now later oldest : Nat} {rest allowed : List Nat}
    (h : Exact entry.rule now entry.timestamps allowed) (hentry : entry.timestamps = oldest :: rest)
    (hfull : entry.rule.requests ≤ entry.timestamps.length) :
    entry.allows later = true ↔ oldest + entry.rule.windowMs ≤ later := by
  have hlength := h.full
  have hsorted := h.sorted
  rw [hentry] at hfull hlength hsorted
  simp only [WindowEntry.allows, hentry, decide_eq_true_eq]
  constructor
  · intro hallows
    by_contra hearly
    rw [recent_before hsorted (Nat.lt_of_not_le hearly)] at hallows
    omega
  · intro hgone
    have hless := recent_after rest hgone
    rw [List.length_cons] at hlength hfull
    omega

/-! ## The limiter -/

/-- The entry of `name` under its rule. -/
def Registered (l : RateLimiter) (name : JsString) (rule : RateLimitRule) (now : Nat) (allowed : List Nat) : Prop :=
  ∃ entry, AList.lookup name l = some entry ∧ entry.rule = rule ∧ Exact rule now entry.timestamps allowed

theorem registered_register (l : RateLimiter) (name : JsString) (rule : RateLimitRule) :
    Registered (l.register name rule) name rule 0 [] := ⟨_, AList.lookup_insert _, rfl, exact_nil rule 0⟩

theorem Registered.consume {l : RateLimiter} {name : JsString} {rule : RateLimitRule} {earlier : Nat} {allowed : List Nat}
    (h : Registered l name rule earlier allowed) (c : ConsumeCall) (hnow : earlier ≤ c.now) :
    Registered (l.consume c.name c.now).1 name rule c.now
      (allowed ++ if c.name = name ∧ (l.consume c.name c.now).2.allowed = true then [c.now] else []) := by
  obtain ⟨entry, hentry, rfl, hexact⟩ := h
  by_cases hname : c.name = name
  · obtain rfl := hname
    obtain ⟨hallowed, hsame, -⟩ := consume_spec hentry c.now
    refine ⟨_, hsame, rfl, ?_⟩
    simpa [hallowed] using hexact.consumed hnow
  · have hother : AList.lookup name (l.consume c.name c.now).1 = some entry := by
      cases hlookup : AList.lookup c.name l with
      | none => rw [consume_none hlookup c.now, hentry]
      | some other => rw [(consume_spec hlookup c.now).2.2 name (Ne.symm hname), hentry]
    exact ⟨entry, hother, rfl, by simpa [hname] using hexact.later hnow⟩

theorem Registered.consumes {l : RateLimiter} {name : JsString} {rule : RateLimitRule} {earlier now : Nat} {allowed : List Nat}
    {calls : List ConsumeCall} (h : Registered l name rule earlier allowed)
    (hcalls : (earlier :: calls.map (·.now) ++ [now]).Pairwise (· ≤ ·)) :
    Registered (l.consumes calls) name rule now (allowed ++ l.allowedAt name calls) := by
  induction calls generalizing l earlier allowed with
  | nil =>
    obtain ⟨entry, hentry, hrule, hexact⟩ := h
    have hnow : earlier ≤ now := by simpa using hcalls
    exact ⟨entry, hentry, hrule, by simpa [RateLimiter.allowedAt] using hexact.later hnow⟩
  | cons c calls ih =>
    have hc : earlier ≤ c.now := List.rel_of_pairwise_cons hcalls (by simp)
    have hrest := ih (h.consume c hc) hcalls.of_cons
    rwa [List.append_assoc] at hrest

theorem Registered.allowed_iff {l : RateLimiter} {name : JsString} {rule : RateLimitRule} {now : Nat} {allowed : List Nat}
    (h : Registered l name rule now allowed) :
    (l.consume name now).2.allowed = true ↔ (allowed.countP fun t => now < t + rule.windowMs ∧ t ≤ now) < rule.requests := by
  obtain ⟨entry, hentry, rfl, hexact⟩ := h
  rw [(consume_spec hentry now).1, WindowEntry.allows, decide_eq_true_eq, hexact.length_recent]

/-- What a refusal says of the entry it leaves. -/
theorem consume_refused {l : RateLimiter} {name : JsString} {entry : WindowEntry}
    (h : AList.lookup name l = some entry) {now : Nat}
    (hrefused : (l.consume name now).2.allowed = false) :
    (entry.consumed now).timestamps = recent entry.rule.windowMs now entry.timestamps ∧
      entry.rule.requests ≤ (entry.consumed now).timestamps.length ∧
      (l.consume name now).2.retryAfterMs = (entry.consumed now).timestamps.head?.getD now + entry.rule.windowMs - now := by
  rw [(consume_spec h now).1, WindowEntry.allows, decide_eq_false_iff_not, Nat.not_lt] at hrefused
  simp [RateLimiter.consume, RateLimiter.check, WindowEntry.consumed, h, hrefused]

theorem Registered.retry {l : RateLimiter} {name : JsString} {rule : RateLimitRule} {now : Nat} {allowed : List Nat}
    (h : Registered l name rule now allowed) (hrefused : (l.consume name now).2.allowed = false) (later : Nat) :
    ((l.consume name now).1.consume name later).2.allowed = true ↔ now + (l.consume name now).2.retryAfterMs ≤ later := by
  obtain ⟨entry, hentry, rfl, hexact⟩ := h
  obtain ⟨hkept, hfull, hretry⟩ := consume_refused hentry hrefused
  obtain ⟨-, hsame, -⟩ := consume_spec hentry now
  have hafter : Exact (entry.consumed now).rule now (entry.consumed now).timestamps allowed := by
    rw [hkept]
    exact hexact.recent
  rw [(consume_spec hsame later).1, hretry]
  cases htimes : (entry.consumed now).timestamps with
  | nil =>
    have hvalid := entry.rule.valid.1
    simp only [htimes, List.length_nil] at hfull
    omega
  | cons oldest rest =>
    have hmem : oldest ∈ recent entry.rule.windowMs now entry.timestamps := by simp [← hkept, htimes]
    have holdest : now < oldest + entry.rule.windowMs := of_decide_eq_true (List.mem_filter.mp hmem).2
    rw [hafter.retry htimes hfull]
    show oldest + entry.rule.windowMs ≤ later ↔ now + (oldest + entry.rule.windowMs - now) ≤ later
    omega

/-- After a rule is registered, whatever was called: a call is allowed just if fewer than
    `requests` were allowed in the window that ends with it, and once it is refused the next
    is allowed just from `retryAfterMs` on. -/
theorem consume_exact (l : RateLimiter) (name : JsString) (rule : RateLimitRule) (calls : List ConsumeCall) (now : Nat)
    (hcalls : (calls.map (·.now) ++ [now]).Pairwise (· ≤ ·)) :
    let l₀ := l.register name rule
    let r := (l₀.consumes calls).consume name now
    (r.2.allowed = true ↔ ((l₀.allowedAt name calls).countP fun t => now < t + rule.windowMs ∧ t ≤ now) < rule.requests) ∧
      (r.2.allowed = false → ∀ later, (r.1.consume name later).2.allowed = true ↔ now + r.2.retryAfterMs ≤ later) := by
  intro l₀ r
  have hreg : Registered (l₀.consumes calls) name rule now (l₀.allowedAt name calls) :=
    (registered_register l name rule).consumes (List.pairwise_cons.mpr ⟨fun _ _ => Nat.zero_le _, hcalls⟩)
  exact ⟨hreg.allowed_iff, hreg.retry⟩

def twoASecond : RateLimitRule := ⟨2, 1, by decide⟩

/-- Calls at 0 and 400. -/
def afterTwo : RateLimiter :=
  (RateLimiter.register ∅ (ofString "api") twoASecond).consumes [⟨ofString "api", 0⟩, ⟨ofString "api", 400⟩]

/-- A third at 900 is refused, for 100 ms. -/
theorem third_waits : (afterTwo.consume (ofString "api") 900).2 = ⟨false, some 0, 100⟩ ∧
    ∀ later, ((afterTwo.consume (ofString "api") 900).1.consume (ofString "api") later).2.allowed = true ↔ 1000 ≤ later := by
  have hresult : (afterTwo.consume (ofString "api") 900).2 = ⟨false, some 0, 100⟩ := by decide
  obtain ⟨-, hretry⟩ := consume_exact ∅ (ofString "api") twoASecond [⟨ofString "api", 0⟩, ⟨ofString "api", 400⟩] 900 (by decide)
  refine ⟨hresult, fun later => (hretry (congrArg (·.allowed) hresult) later).trans ?_⟩
  have hms : (afterTwo.consume (ofString "api") 900).2.retryAfterMs = 100 := congrArg (·.retryAfterMs) hresult
  show 900 + (afterTwo.consume (ofString "api") 900).2.retryAfterMs ≤ later ↔ _
  rw [hms]

end FlowHelm.Proxy
