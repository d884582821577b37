/-
  FlowHelm.AuthBridge.RateLimit — rate-limit.ts: the bridge's limiter, its four operations and the
  timer's `pruneAll`.

  Two limiters of which one was pruned hold the same moments of the last hour. An operation looks
  back no further than its window, so it answers the same for both, with one exception: without a
  bucket `retryAfterMs` answers 0, and for a bucket whose active list is empty and full all the
  same, under a rule of no requests, it answers Infinity. A Map is a partial function here, as
  nothing reads its order.

  - `Similar.pruneAll`: a pruned limiter is similar to the other.
  - `Similar.step`: similar limiters answer alike and stay similar.
  - `pruning_is_invisible`: for every key has a rule of at least one request, and only then.
  - `a_pruned_bucket_waits_no_longer`: Infinity becomes 0.
-/
import FlowHelm.Lib.Js
import FlowHelm.Lib.SlidingWindow

namespace FlowHelm.AuthBridge

open Js SlidingWindow

structure RateLimitRule where
  maxRequests : Nat
  windowMs : Nat
  deriving DecidableEq, Repr

/-- `buckets` and `globalBucket`, each bucket its `timestamps`. -/
structure RateLimiter where
  buckets : JsString → Option (List Nat)
  globalBucket : List Nat

namespace RateLimiter

def new : RateLimiter := ⟨fun _ => none, []⟩

def bucket (l : RateLimiter) (key : JsString) : List Nat := (l.buckets key).getD []

def setBucket (l : RateLimiter) (key : JsString) (timestamps : List Nat) : RateLimiter :=
  { l with buckets := fun k => if k = key then some timestamps else l.buckets k }

def check (l : RateLimiter) (now : Nat) (key : JsString) (rule : RateLimitRule) : RateLimiter × Bool :=
  let timestamps := recent rule.windowMs now (l.bucket key)
  if rule.maxRequests ≤ timestamps.length then (l.setBucket key timestamps, false)
  else (l.setBucket key (timestamps ++ [now]), true)

def checkGlobal (l : RateLimiter) (now : Nat) (rule : RateLimitRule) : RateLimiter × Bool :=
  let timestamps := recent rule.windowMs now l.globalBucket
  if rule.maxRequests ≤ timestamps.length then ({ l with globalBucket := timestamps }, false)
  else ({ l with globalBucket := timestamps ++ [now] }, true)

def remaining (l : RateLimiter) (now : Nat) (key : JsString) (rule : RateLimitRule) : Nat :=
  match l.buckets key with
  | none => rule.maxRequests
  | some timestamps => rule.maxRequests - (recent rule.windowMs now timestamps).length

/-- `none` is Infinity, the `Math.min` of nothing. -/
def retryAfterMs (l : RateLimiter) (now : Nat) (key : JsString) (rule : RateLimitRule) : Option Nat :=
  match l.buckets key with
  | none => some 0
  | some timestamps =>
    let active := recent rule.windowMs now timestamps
    if active.length < rule.maxRequests then some 0
    else active.min?.map fun earliest => earliest + rule.windowMs - now

def hourMs : Nat := 3600000

def pruneAll (l : RateLimiter) (now : Nat) : RateLimiter where
  buckets key := (l.buckets key).bind fun timestamps =>
    let kept := recent hourMs now timestamps
    if kept.length = 0 then none else some kept
  globalBucket := recent hourMs now l.globalBucket

@[simp] theorem bucket_setBucket_self (l : RateLimiter) (key : JsString) (timestamps : List Nat) :
    (l.setBucket key timestamps).bucket key = timestamps := by simp [setBucket, bucket]

@[simp] theorem bucket_setBucket_ne (l : RateLimiter) {key other : JsString} (timestamps : List Nat) (h : other ≠ key) :
    (l.setBucket key timestamps).bucket other = l.bucket other := by simp [setBucket, bucket, h]

@[simp] theorem bucket_pruneAll (l : RateLimiter) (now : Nat) (key : JsString) :
    (l.pruneAll now).bucket key = recent hourMs now (l.bucket key) := by
  cases hbucket : l.buckets key with
  | none => simp [pruneAll, bucket, hbucket, recent]
  | some timestamps =>
    by_cases hkept : recent hourMs now timestamps = []
    · simp [pruneAll, bucket, hbucket, hkept]
    · simp [pruneAll, bucket, hbucket, hkept]

/-- What `remaining` reads. -/
theorem remaining_eq (l : RateLimiter) (now : Nat) (key : JsString) (rule : RateLimitRule) :
    l.remaining now key rule = rule.maxRequests - (recent rule.windowMs now (l.bucket key)).length := by
  unfold remaining bucket
  cases l.buckets key with
  | none => simp [recent]
  | some timestamps => rfl

/-- What `retryAfterMs` reads, where a window with nothing in it has room. -/
theorem retryAfterMs_eq (l : RateLimiter) (now : Nat) (key : JsString) {rule : RateLimitRule} (h : 1 ≤ rule.maxRequests) :
    l.retryAfterMs now key rule = if (recent rule.windowMs now (l.bucket key)).length < rule.maxRequests then some 0
      else (recent rule.windowMs now (l.bucket key)).min?.map fun earliest => earliest + rule.windowMs - now := by
  unfold retryAfterMs bucket
  cases l.buckets key with
  | none =>
    have hroom : 0 < rule.maxRequests := h
    simp [recent, hroom]
  | some timestamps => rfl

end RateLimiter

/-! ## Runs -/

inductive Op where
  | check (key : JsString)
  | checkGlobal
  | remaining (key : JsString)
  | retryAfterMs (key : JsString)
  | pruneAll
  deriving DecidableEq

structure Timed where
  now : Nat
  op : Op
  deriving DecidableEq

inductive Answer where
  | allowed (b : Bool)
  | count (n : Nat)
  | wait (ms : Option Nat)
  deriving DecidableEq, Repr

variable (rules : JsString → RateLimitRule) (globalRule : RateLimitRule)

/-- `pruneAll` has no result. -/
def RateLimiter.step (l : RateLimiter) (e : Timed) : RateLimiter × Option Answer :=
  match e.op with
  | .check key => let r := l.check e.now key (rules key); (r.1, some (.allowed r.2))
  | .checkGlobal => let r := l.checkGlobal e.now globalRule; (r.1, some (.allowed r.2))
  | .remaining key => (l, some (.count (l.remaining e.now key (rules key))))
  | .retryAfterMs key => (l, some (.wait (l.retryAfterMs e.now key (rules key))))
  | .pruneAll => (l.pruneAll e.now, none)

def RateLimiter.answers (l : RateLimiter) : List Timed → List Answer
  | [] => []
  | e :: es => (l.step rules globalRule e).2.toList ++ RateLimiter.answers (l.step rules globalRule e).1 es

/-- The calls without the timer's. -/
def unpruned (es : List Timed) : List Timed := es.filter (·.op ≠ .pruneAll)

/-- No window of more than an hour. -/
def WithinHour : Prop := (∀ key, (rules key).windowMs ≤ RateLimiter.hourMs) ∧ globalRule.windowMs ≤ RateLimiter.hourMs

/-- At nondecreasing times, `pruneAll` anywhere among the calls changes no result. -/
def PruningInvisible : Prop :=
  ∀ es : List Timed, (es.map (·.now)).Pairwise (· ≤ ·) →
    RateLimiter.new.answers rules globalRule es = RateLimiter.new.answers rules globalRule (unpruned es)

/-! ## The same last hour -/

/-- The two limiters hold the same of the last hour. -/
structure Similar (now : Nat) (l m : RateLimiter) : Prop where
  buckets : ∀ key, Alike RateLimiter.hourMs now (l.bucket key) (m.bucket key)
  globalBucket : Alike RateLimiter.hourMs now l.globalBucket m.globalBucket

variable {rules globalRule} {earlier now : Nat} {l m : RateLimiter}

theorem Similar.later (h : Similar earlier l m) (hnow : earlier ≤ now) : Similar now l m :=
  ⟨fun key => (h.buckets key).later (Nat.le_refl _) hnow, h.globalBucket.later (Nat.le_refl _) hnow⟩

theorem Similar.pruneAll (h : Similar now l m) : Similar now (l.pruneAll now) m := by
  refine ⟨fun key => ?_, h.globalBucket.prune (Nat.le_refl _)⟩
  rw [RateLimiter.bucket_pruneAll]
  exact (h.buckets key).prune (Nat.le_refl _)

theorem Similar.setBucket (h : Similar now l m) (key : JsString) (timestamps : List Nat) :
    Similar now (l.setBucket key timestamps) (m.setBucket key timestamps) := by
  refine ⟨fun other => ?_, h.globalBucket⟩
  by_cases hkey : other = key
  · simp [hkey, Alike.refl]
  · simpa [hkey] using h.buckets other

theorem Similar.check (h : Similar now l m) (key : JsString) {rule : RateLimitRule} (hrule : rule.windowMs ≤ RateLimiter.hourMs) :
    (l.check now key rule).2 = (m.check now key rule).2 ∧ Similar now (l.check now key rule).1 (m.check now key rule).1 := by
  have hsame : recent rule.windowMs now (l.bucket key) = recent rule.windowMs now (m.bucket key) :=
    (h.buckets key).later hrule (Nat.le_refl now)
  unfold RateLimiter.check
  rw [hsame]
  dsimp only
  split
  · exact ⟨rfl, h.setBucket key _⟩
  · exact ⟨rfl, h.setBucket key _⟩

theorem Similar.checkGlobal (h : Similar now l m) {rule : RateLimitRule} (hrule : rule.windowMs ≤ RateLimiter.hourMs) :
    (l.checkGlobal now rule).2 = (m.checkGlobal now rule).2 ∧
    Similar now (l.checkGlobal now rule).1 (m.checkGlobal now rule).1 := by
  have hsame : recent rule.windowMs now l.globalBucket = recent rule.windowMs now m.globalBucket :=
    h.globalBucket.later hrule (Nat.le_refl now)
  unfold RateLimiter.checkGlobal
  rw [hsame]
  dsimp only
  split
  · exact ⟨rfl, h.buckets, Alike.refl ..⟩
  · exact ⟨rfl, h.buckets, Alike.refl ..⟩

/-- One operation: the same answer, and still the same last hour. -/
theorem Similar.step (h : Similar earlier l m) {e : Timed} (hnow : earlier ≤ e.now) (hwindow : WithinHour rules globalRule)
    (hrules : ∀ key, 1 ≤ (rules key).maxRequests) (hop : e.op ≠ .pruneAll) :
    (l.step rules globalRule e).2 = (m.step rules globalRule e).2 ∧
      Similar e.now (l.step rules globalRule e).1 (m.step rules globalRule e).1 := by
  have hlater := h.later hnow
  have hsame : ∀ key, recent (rules key).windowMs e.now (l.bucket key) = recent (rules key).windowMs e.now (m.bucket key) :=
    fun key => (hlater.buckets key).later (hwindow.1 key) (Nat.le_refl _)
  obtain ⟨time, op⟩ := e
  cases op with
  | check key =>
    obtain ⟨hanswer, hstate⟩ := hlater.check key (hwindow.1 key)
    exact ⟨congrArg (fun b => some (Answer.allowed b)) hanswer, hstate⟩
  | checkGlobal =>
    obtain ⟨hanswer, hstate⟩ := hlater.checkGlobal hwindow.2
    exact ⟨congrArg (fun b => some (Answer.allowed b)) hanswer, hstate⟩
  | remaining key =>
    refine ⟨?_, hlater⟩
    simp [RateLimiter.step, RateLimiter.remaining_eq, hsame key]
  | retryAfterMs key =>
    refine ⟨?_, hlater⟩
    simp [RateLimiter.step, RateLimiter.retryAfterMs_eq _ _ _ (hrules key), hsame key]
  | pruneAll => exact absurd rfl hop

/-- And so for runs: the first is pruned on the way, the second never. -/
theorem Similar.answers (h : Similar earlier l m) (hwindow : WithinHour rules globalRule)
    (hrules : ∀ key, 1 ≤ (rules key).maxRequests) {es : List Timed} (hes : (earlier :: es.map (·.now)).Pairwise (· ≤ ·)) :
    l.answers rules globalRule es = m.answers rules globalRule (unpruned es) := by
  induction es generalizing earlier l m with
  | nil => rfl
  | cons e es ih =>
    have hnow : earlier ≤ e.now := List.rel_of_pairwise_cons hes (by simp)
    by_cases hop : e.op = .pruneAll
    · have hstep : l.step rules globalRule e = (l.pruneAll e.now, none) := by simp [RateLimiter.step, hop]
      have hrest := ih (h.later hnow).pruneAll hes.of_cons
      simpa [RateLimiter.answers, unpruned, hop, hstep] using hrest
    · obtain ⟨hanswer, hstate⟩ := h.step hnow hwindow hrules hop
      have hrest := ih hstate hes.of_cons
      unfold unpruned at hrest ⊢
      rw [List.filter_cons_of_pos (by simpa using hop), RateLimiter.answers, RateLimiter.answers, hanswer, hrest]

/-! ## A rule of no requests -/

/-- The bucket a refused check leaves, pruned before it is asked for. -/
def prunedBetween (key : JsString) : List Timed := [⟨0, .check key⟩, ⟨0, .pruneAll⟩, ⟨0, .retryAfterMs key⟩]

theorem prunedBetween_answers (rules : JsString → RateLimitRule) (globalRule : RateLimitRule) (key : JsString)
    (h : (rules key).maxRequests = 0) :
    RateLimiter.new.answers rules globalRule (prunedBetween key) = [.allowed false, .wait (some 0)] ∧
      RateLimiter.new.answers rules globalRule (unpruned (prunedBetween key)) = [.allowed false, .wait none] := by
  constructor
  · simp [prunedBetween, RateLimiter.answers, RateLimiter.step, RateLimiter.check, RateLimiter.retryAfterMs, RateLimiter.pruneAll,
      RateLimiter.setBucket, RateLimiter.bucket, RateLimiter.new, recent, h]
  · simp [prunedBetween, unpruned, RateLimiter.answers, RateLimiter.step, RateLimiter.check, RateLimiter.retryAfterMs,
      RateLimiter.setBucket, RateLimiter.bucket, RateLimiter.new, recent, h]

/-- Pruning is invisible just if every key's rule admits a request. -/
theorem pruning_is_invisible (rules : JsString → RateLimitRule) (globalRule : RateLimitRule)
    (hwindow : WithinHour rules globalRule) :
    PruningInvisible rules globalRule ↔ ∀ key, 1 ≤ (rules key).maxRequests := by
  constructor
  · intro hinvisible key
    refine Nat.pos_of_ne_zero fun hnone => ?_
    obtain ⟨hpruned, hunpruned⟩ := prunedBetween_answers rules globalRule key hnone
    have hequal := hinvisible (prunedBetween key) (by simp [prunedBetween])
    rw [hpruned, hunpruned] at hequal
    exact absurd hequal (by decide)
  · intro hrules es hes
    have hstart : Similar 0 .new .new := ⟨fun _ => Alike.refl .., Alike.refl ..⟩
    exact hstart.answers hwindow hrules (List.pairwise_cons.mpr ⟨fun _ _ => Nat.zero_le _, hes⟩)

namespace RATE_LIMITS

def sessionCreate : RateLimitRule := ⟨5, 60000⟩

def poll : RateLimitRule := ⟨30, 60000⟩

def submit : RateLimitRule := ⟨3, 60000⟩

def qr : RateLimitRule := ⟨30, 60000⟩

/-- The rule server.ts uses with a key. -/
def of (key : JsString) : RateLimitRule :=
  if (ofString "create:").isPrefixOf key then sessionCreate
  else if (ofString "poll:").isPrefixOf key then poll
  else if (ofString "submit:").isPrefixOf key then submit
  else qr

theorem of_admits (key : JsString) : 1 ≤ (of key).maxRequests ∧ (of key).windowMs = 60000 := by
  unfold of
  repeat' split
  all_goals decide

end RATE_LIMITS

def GLOBAL_SESSION_LIMIT : RateLimitRule := ⟨1000, 3600000⟩

/-- The limits the server has. -/
theorem server_prunes_unseen : PruningInvisible RATE_LIMITS.of GLOBAL_SESSION_LIMIT := by
  have hwindow : WithinHour RATE_LIMITS.of GLOBAL_SESSION_LIMIT :=
    ⟨fun key => by rw [(RATE_LIMITS.of_admits key).2]; decide, by decide⟩
  exact (pruning_is_invisible RATE_LIMITS.of GLOBAL_SESSION_LIMIT hwindow).mpr fun key => (RATE_LIMITS.of_admits key).1

def closed (_ : JsString) : RateLimitRule := ⟨0, 60000⟩

theorem a_pruned_bucket_waits_no_longer :
    WithinHour closed GLOBAL_SESSION_LIMIT ∧
      RateLimiter.new.answers closed GLOBAL_SESSION_LIMIT (prunedBetween (ofString "poll:10.0.0.1")) =
        [.allowed false, .wait (some 0)] ∧
      RateLimiter.new.answers closed GLOBAL_SESSION_LIMIT (unpruned (prunedBetween (ofString "poll:10.0.0.1"))) =
        [.allowed false, .wait none] ∧
      ¬PruningInvisible closed GLOBAL_SESSION_LIMIT := by
  have hanswers := prunedBetween_answers closed GLOBAL_SESSION_LIMIT (ofString "poll:10.0.0.1") rfl
  refine ⟨⟨fun _ => by simp [closed, RateLimiter.hourMs], by decide⟩, hanswers.1, hanswers.2, fun hinvisible => ?_⟩
  have hequal := hinvisible (prunedBetween (ofString "poll:10.0.0.1")) (by decide)
  rw [hanswers.1, hanswers.2] at hequal
  exact absurd hequal (by decide)

end FlowHelm.AuthBridge
