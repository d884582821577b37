/-
  FlowHelm.Proxy.Metrics — metrics.ts: the counters and latencies that /metrics tells.

  The latencies are kept in an array of 1000, which a reset leaves as it is. Counters are below
  2^53.

  - `rank_exact`: the index that is computed in doubles is the nearest rank.
  - `snapshot_tells`: what a snapshot says of the requests recorded.
-/
import FlowHelm.Lib.Buffer
import FlowHelm.Lib.JsNumber
import FlowHelm.Lib.Ranking
import FlowHelm.Lib.RingBuffer
import FlowHelm.Lib.Runs

namespace FlowHelm.Proxy.Metrics

open Buffer (toWellFormed_flatMap)
open Js Percentile Runs

/-! ## Counters -/

/-- A `Map` of counters, in the order of their keys' first use. -/
abbrev Counters := List (JsString × Nat)

def Counters.get (key : JsString) : Counters → Nat
  | [] => 0
  | (k, n) :: rest => if k = key then n else get key rest

/-- `counts.set(key, (counts.get(key) ?? 0) + 1)`. -/
def Counters.increment (key : JsString) : Counters → Counters
  | [] => [(key, 1)]
  | (k, n) :: rest => if k = key then (k, n + 1) :: rest else (k, n) :: increment key rest

def Counters.sum (counters : Counters) : Nat := (counters.map (·.2)).sum

theorem Counters.get_increment (key other : JsString) (counters : Counters) :
    (counters.increment key).get other = counters.get other + if key = other then 1 else 0 := by
  induction counters with
  | nil =>
    rw [increment, get, get, get]
    split <;> rfl
  | cons counter rest ih =>
    obtain ⟨k, n⟩ := counter
    rw [increment]
    by_cases hk : k = key
    · subst hk
      rw [if_pos rfl, get, get]
      split <;> rfl
    · rw [if_neg hk, get, get, ih]
      split
      · rename_i hother
        rw [if_neg fun h => hk (hother.trans h.symm)]
        rfl
      · rfl

theorem Counters.sum_increment (key : JsString) (counters : Counters) : (counters.increment key).sum = counters.sum + 1 := by
  unfold sum
  induction counters with
  | nil => rfl
  | cons counter rest ih =>
    obtain ⟨k, n⟩ := counter
    rw [increment]
    split
    · simp only [List.map_cons, List.sum_cons]
      omega
    · simp only [List.map_cons, List.sum_cons, ih]
      omega

/-! ## Metrics -/

/-- `percentile`, whose index is computed in doubles. -/
def percentileIndex (p n : Nat) : Int := (toDouble (toDouble ((p : Rat) / 100) * n)).ceil - 1

def percentile (sorted : List Int) (p : Nat) : Int :=
  if sorted.length = 0 then 0 else (sorted[(max 0 (percentileIndex p sorted.length)).toNat]?).getD 0

structure Latency where
  p50 : Int
  p90 : Int
  p99 : Int
  count : Nat
  deriving DecidableEq, Repr

structure MetricsSnapshot where
  uptime : Int
  totalRequests : Nat
  perCredential : Counters
  statusCodes : Counters
  rateLimitHits : Nat
  latency : Latency

def latencyBufferSize : Nat := 1000

structure ProxyMetrics where
  startedAt : Int
  totalRequests : Nat
  credentialCounts : Counters
  statusCodeCounts : Counters
  rateLimitHits : Nat
  latencyBuffer : RingBuffer Int

namespace ProxyMetrics

def new (startedAt : Int) : ProxyMetrics := ⟨startedAt, 0, [], [], 0, .new 0 latencyBufferSize⟩

/-- `String(statusCode)`. -/
def codeKey (statusCode : Nat) : JsString := (Nat.toDigits 10 statusCode).flatMap utf16

theorem codeKey_inj {a b : Nat} : codeKey a = codeKey b ↔ a = b := by
  refine ⟨fun h => ?_, congrArg codeKey⟩
  have hdigits := congrArg toWellFormed h
  unfold codeKey at hdigits
  rw [toWellFormed_flatMap, toWellFormed_flatMap] at hdigits
  have hread := congrArg (Nat.ofDigitChars 10 · 0) hdigits
  simpa [Nat.ofDigitChars_toDigits] using hread

def record (credentialName : JsString) (statusCode : Nat) (durationMs : Int) (m : ProxyMetrics) : ProxyMetrics :=
  { m with
    totalRequests := m.totalRequests + 1
    credentialCounts := m.credentialCounts.increment credentialName
    statusCodeCounts := m.statusCodeCounts.increment (codeKey statusCode)
    latencyBuffer := m.latencyBuffer.push durationMs }

def recordRateLimitHit (m : ProxyMetrics) : ProxyMetrics := { m with rateLimitHits := m.rateLimitHits + 1 }

def sorted (m : ProxyMetrics) : List Int := m.latencyBuffer.values.mergeSort (· ≤ ·)

def snapshot (now : Int) (m : ProxyMetrics) : MetricsSnapshot where
  uptime := now - m.startedAt
  totalRequests := m.totalRequests
  perCredential := m.credentialCounts
  statusCodes := m.statusCodeCounts
  rateLimitHits := m.rateLimitHits
  latency := ⟨percentile m.sorted 50, percentile m.sorted 90, percentile m.sorted 99, m.latencyBuffer.count⟩

theorem snapshot_latency (now : Int) (m : ProxyMetrics) : (m.snapshot now).latency =
    ⟨percentile m.sorted 50, percentile m.sorted 90, percentile m.sorted 99, m.latencyBuffer.count⟩ := rfl

def reset (m : ProxyMetrics) : ProxyMetrics :=
  { m with totalRequests := 0, credentialCounts := [], statusCodeCounts := [], rateLimitHits := 0 }

end ProxyMetrics

/-! ## Runs -/

structure Entry where
  credentialName : JsString
  statusCode : Nat
  durationMs : Int

inductive Ev where
  | record (e : Entry)
  | recordRateLimitHit
  | reset

/-- With what was recorded, and what of it since the last reset. -/
structure St where
  metrics : ProxyMetrics
  all : List Entry
  since : List Entry
  hits : Nat

def step (s : St) : Ev → St
  | .record e =>
    ⟨s.metrics.record e.credentialName e.statusCode e.durationMs, s.all ++ [e], s.since ++ [e], s.hits⟩
  | .recordRateLimitHit => ⟨s.metrics.recordRateLimitHit, s.all, s.since, s.hits + 1⟩
  | .reset => ⟨s.metrics.reset, s.all, [], 0⟩

def collector (startedAt : Int) : System St Ev where
  init := ⟨.new startedAt, [], [], 0⟩
  step s e := some (step s e)

/-- The latencies that are kept. -/
def St.latest (s : St) : List Int := (s.all.map (·.durationMs)).rtake latencyBufferSize

structure Inv (s : St) : Prop where
  total : s.metrics.totalRequests = s.since.length
  credentials : ∀ name, s.metrics.credentialCounts.get name = s.since.countP fun e => e.credentialName = name
  credentialSum : s.metrics.credentialCounts.sum = s.since.length
  codes : ∀ key, s.metrics.statusCodeCounts.get key = s.since.countP fun e => ProxyMetrics.codeKey e.statusCode = key
  codeSum : s.metrics.statusCodeCounts.sum = s.since.length
  hits : s.metrics.rateLimitHits = s.hits
  capacity : s.metrics.latencyBuffer.capacity = latencyBufferSize
  latencies : s.metrics.latencyBuffer.window = s.latest

theorem get_since {key : JsString} {counters : Counters} {since : List Entry} {f : Entry → JsString}
    (h : ∀ key, counters.get key = since.countP fun e => f e = key) (e : Entry) :
    (counters.increment (f e)).get key = (since ++ [e]).countP fun e => f e = key := by
  rw [Counters.get_increment, h, List.countP_append, List.countP_singleton]
  simp only [decide_eq_true_eq]

/-- What the window has lost would be lost now as well. -/
theorem rtake_push (c : Nat) (xs : List Int) (x : Int) : (xs.rtake c ++ [x]).rtake c = (xs ++ [x]).rtake c := by
  cases c with
  | zero => rw [List.rtake_zero, List.rtake_zero]
  | succ c =>
    rw [List.rtake_concat_succ, List.rtake_concat_succ]
    simp only [List.rtake_eq_reverse_take_reverse, List.reverse_reverse, List.take_take]
    rw [Nat.min_eq_left (Nat.le_succ c)]

theorem inv_new (startedAt : Int) : Inv (collector startedAt).init where
  total := rfl
  credentials _ := rfl
  credentialSum := rfl
  codes _ := rfl
  codeSum := rfl
  hits := rfl
  capacity := RingBuffer.capacity_new ..
  latencies := (RingBuffer.window_new ..).trans (List.rtake_nil ..).symm

theorem inv_step {s : St} (h : Inv s) (e : Ev) : Inv (step s e) := by
  cases e with
  | record e =>
    have hlength : (s.since ++ [e]).length = s.since.length + 1 := List.length_append
    exact {
      total := (congrArg (· + 1) h.total).trans hlength.symm
      credentials := fun _ => get_since h.credentials e
      credentialSum := (Counters.sum_increment ..).trans ((congrArg (· + 1) h.credentialSum).trans hlength.symm)
      codes := fun _ => get_since h.codes e
      codeSum := (Counters.sum_increment ..).trans ((congrArg (· + 1) h.codeSum).trans hlength.symm)
      hits := h.hits
      capacity := (RingBuffer.capacity_push ..).trans h.capacity
      latencies := by
        show (s.metrics.latencyBuffer.push e.durationMs).window = ((s.all ++ [e]).map (·.durationMs)).rtake latencyBufferSize
        rw [RingBuffer.window_push, h.capacity, h.latencies, St.latest, rtake_push, List.map_append, List.map_singleton] }
  | recordRateLimitHit => exact { h with hits := congrArg (· + 1) h.hits }
  | reset => exact ⟨rfl, fun _ => rfl, rfl, fun _ => rfl, rfl, rfl, h.capacity, h.latencies⟩

theorem inv_reach {startedAt : Int} {s : St} (h : Reach (collector startedAt) Free s) : Inv s :=
  h.inv (inv_new startedAt) fun s e t _ hI _ hstep => by
    obtain rfl := Option.some.inj hstep
    exact inv_step hI e

theorem length_latest (s : St) : s.latest.length = min latencyBufferSize s.all.length := by
  rw [St.latest, List.rtake, List.length_drop, List.length_map]
  omega

/-! ## Percentiles -/

/-- Rounding the product of doubles up never misses the rank. -/
theorem rank_exact : ∀ p ∈ [50, 90, 99], ∀ n < latencyBufferSize + 1, percentileIndex p n + 1 = rank p n := by
  decide +kernel

/-- What is told as a percentile. -/
structure TellsRank (p : Nat) (told : Int) (latest : List Int) : Prop where
  nothing : latest = [] → told = 0
  nearest : latest ≠ [] → NearestRank p told latest

theorem tells_rank {p : Nat} (hp : p ∈ [50, 90, 99]) {s : St} (hI : Inv s) :
    TellsRank p (percentile s.metrics.sorted p) s.latest := by
  have hvalues : s.metrics.latencyBuffer.values.Perm s.latest := by
    rw [← hI.latencies]
    exact s.metrics.latencyBuffer.values_perm
  have hsize : s.latest.length ≤ latencyBufferSize := by
    have := length_latest s
    omega
  generalize s.metrics = m, s.latest = latest at hvalues hsize
  have hindex := rank_exact p hp latest.length (Nat.lt_succ_of_le hsize)
  have hpos : 0 < p ∧ p ≤ 100 := (show ∀ p ∈ [50, 90, 99], 0 < p ∧ p ≤ 100 by decide) p hp
  have hperm : m.sorted.Perm latest := (List.mergeSort_perm ..).trans hvalues
  have hsorted : m.sorted.Pairwise (· ≤ ·) := by
    have := @List.pairwise_mergeSort _ (fun a b : Int => decide (a ≤ b)) (by simp; omega) (by simp; omega) m.latencyBuffer.values
    simpa [ProxyMetrics.sorted] using this
  have hlength := hperm.length_eq
  unfold percentile
  constructor
  · intro hnil
    have hempty : m.sorted.length = 0 := by rw [hlength, hnil, List.length_nil]
    rw [if_pos hempty]
  · intro hne
    have hsome : 0 < latest.length := List.length_pos_of_ne_nil hne
    rw [if_neg (by omega), hlength]
    have hrank : 1 ≤ rank p latest.length ∧ rank p latest.length ≤ latest.length := by
      unfold rank
      have hone : p * 1 ≤ p * latest.length := Nat.mul_le_mul_left p hsome
      have hall : p * latest.length ≤ 100 * latest.length := Nat.mul_le_mul_right _ hpos.2
      omega
    have hat : (max 0 (percentileIndex p latest.length)).toNat = rank p latest.length - 1 := by omega
    obtain ⟨v, hv⟩ : ∃ v, m.sorted[rank p latest.length - 1]? = some v := ⟨_, List.getElem?_eq_getElem (by omega)⟩
    rw [hat, hv, Option.getD_some]
    refine NearestRank.perm (nearestRank_sorted hpos.1 hsorted ?_) hperm
    rw [hlength, hv]

/-- What a snapshot says: the counts are of what came since the last reset, the latencies are the
last thousand of all. -/
structure Tells (s : St) (told : MetricsSnapshot) : Prop where
  total : told.totalRequests = s.since.length
  perCredential : ∀ name, told.perCredential.get name = s.since.countP fun e => e.credentialName = name
  credentialSum : told.perCredential.sum = told.totalRequests
  statusCodes : ∀ code, told.statusCodes.get (ProxyMetrics.codeKey code) = s.since.countP fun e => e.statusCode = code
  codeSum : told.statusCodes.sum = told.totalRequests
  hits : told.rateLimitHits = s.hits
  count : told.latency.count = min latencyBufferSize s.all.length
  p50 : TellsRank 50 told.latency.p50 s.latest
  p90 : TellsRank 90 told.latency.p90 s.latest
  p99 : TellsRank 99 told.latency.p99 s.latest

theorem snapshot_tells (startedAt now : Int) {s : St} (h : Reach (collector startedAt) Free s) :
    Tells s (s.metrics.snapshot now) := by
  have hI := inv_reach h
  have hcount : s.metrics.latencyBuffer.count = min latencyBufferSize s.all.length := by
    rw [← length_latest, ← hI.latencies, RingBuffer.length_window]
  exact {
    total := hI.total
    perCredential := hI.credentials
    credentialSum := hI.credentialSum.trans hI.total.symm
    statusCodes := fun code => by
      refine (hI.codes (ProxyMetrics.codeKey code)).trans (List.countP_congr fun e _ => ?_)
      rw [decide_eq_true_iff, decide_eq_true_iff, ProxyMetrics.codeKey_inj]
    codeSum := hI.codeSum.trans hI.total.symm
    hits := hI.hits
    count := by rw [ProxyMetrics.snapshot_latency, hcount]
    p50 := tells_rank (by decide) hI
    p90 := tells_rank (by decide) hI
    p99 := tells_rank (by decide) hI }

theorem a_reset_keeps_the_latencies : ∃ s, Reach (collector 0) Free s ∧ Tells s (s.metrics.snapshot 9) ∧
    s.since.length = 1 ∧ s.latest = [30, 10] := by
  obtain ⟨s, hs, hp⟩ := reach_any (M := collector 0) (P := fun s => s.since.length == 1 && s.latest == [30, 10])
    [.record ⟨ofString "api", 200, 30⟩, .reset, .record ⟨ofString "api", 502, 10⟩] (meets_free _ _) (by decide +kernel)
  rw [Bool.and_eq_true, beq_iff_eq, beq_iff_eq] at hp
  exact ⟨s, hs, snapshot_tells 0 9 hs, hp⟩

end FlowHelm.Proxy.Metrics
