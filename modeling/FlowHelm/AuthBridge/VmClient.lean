/-
  FlowHelm.AuthBridge.VmClient — the VM's side of the auth bridge: the poll loop of
  bridge-client.ts, run beside a bridge that serves others too.

  A step is one request of someone else, one check of the bridge's limiter for someone else, or
  one move of the client: it looks at the clock, its request is handled, the answer arrives, or
  the request is lost before or after it was handled. All look at one clock. A lost request that
  the bridge handles later is a request of someone else.

  - `step_cases`: everything one step can do.
  - `never_turned_away`: a client whose address nobody else polls from is within the bridge's
    limit for polls as long as its interval is at least two seconds.
-/
import FlowHelm.AuthBridge.RateLimit
import FlowHelm.AuthBridge.Relay

namespace FlowHelm.AuthBridge

open Js Runs SlidingWindow

namespace VmClient

/-! ## The loop of `pollAndDecrypt` -/

structure PollOptions where
  intervalMs : Nat
  timeoutMs : Nat

def PollOptions.default : PollOptions := ⟨2000, 600000⟩

inductive PollResult where
  | pending
  | ready (encrypted : JsString) (ephemeralPublicKey nonce : Option JsString)
  deriving DecidableEq, Repr

def sessionGone : String := "Session expired or not found"

/-- What `pollSession` makes of a response: a result, or the message of its error. -/
def pollSession : Response → Except String PollResult
  | .ready encrypted ephemeralPublicKey nonce => .ok (.ready encrypted ephemeralPublicKey nonce)
  -- any status in the body but 'ready' is waited out
  | .pending | .ok | .deleted | .created .. => .ok .pending
  | .notFound _ => .error sessionGone
  | .badRequest _ => .error "Poll failed (400)"
  | .tooManyRequests => .error "Poll failed (429)"
  | .internalError => .error "Poll failed (500)"
  | .atCapacity => .error "Poll failed (503)"

/-- How the loop ends: with a blob to decrypt, outside its `try`, or with an error. -/
inductive Ending where
  | decrypts (encrypted : JsString) (ephemeralPublicKey nonce : Option JsString)
  | throws (message : String)
  deriving DecidableEq, Repr

inductive Phase where
  | idle
  | asking
  /-- Handled, and the answer is on its way. -/
  | answered (response : Response)
  | sleeping (wakeAt : Nat)
  | ended (ending : Ending)
  deriving DecidableEq, Repr

structure St where
  relay : Relay.St
  limiter : RateLimiter
  now : Nat
  phase : Phase
  startTime : Nat
  currentInterval : Nat
  attempt : Nat
  aborted : Bool

inductive Ev where
  /-- A request of someone else. -/
  | other (e : Relay.Ev)
  /-- A check of the limiter for someone else. -/
  | limited (now : Nat) (key : JsString) (rule : RateLimitRule)
  | prune (now : Nat)
  | abort (now : Nat)
  | start (now : Nat)
  | handle (now : Nat)
  | deliver (now : Nat)
  | lose (now : Nat)
  | wake (now : Nat)

def Ev.time : Ev → Nat
  | .other e => e.time
  | .limited now .. => now
  | .prune now => now
  | .abort now => now
  | .start now => now
  | .handle now => now
  | .deliver now => now
  | .lose now => now
  | .wake now => now

def maxIntervalMs : Nat := 16000

variable (store : StoreOptions) (options : PollOptions) (token ip : JsString)

/-- The head of the loop. -/
def test (s : St) : St :=
  if s.now - s.startTime < options.timeoutMs then
    if s.aborted then { s with phase := .ended (.throws "Polling aborted") }
    else { s with attempt := s.attempt + 1, phase := .asking }
  else { s with phase := .ended (.throws "Authentication timed out") }

/-- What follows a poll. -/
def heard (s : St) : Except String PollResult → St
  | .ok (.ready encrypted ephemeralPublicKey nonce) => { s with phase := .ended (.decrypts encrypted ephemeralPublicKey nonce) }
  | .ok .pending => { s with currentInterval := options.intervalMs, phase := .sleeping (s.now + options.intervalMs) }
  | .error message =>
    let currentInterval := min (s.currentInterval * 2) maxIntervalMs
    if message = sessionGone then { s with currentInterval := currentInterval, phase := .ended (.throws message) }
    else { s with currentInterval := currentInterval, phase := .sleeping (s.now + currentInterval) }

def pollKey : JsString := ofString "poll:" ++ ip

/-- The route: the limiter first, then the session. -/
def handle (s : St) : Option St :=
  let (limiter, allowed) := s.limiter.check s.now (pollKey ip) RATE_LIMITS.poll
  (Relay.step store s.relay (.poll s.now allowed token)).map fun relay =>
    { s with
      relay := relay
      limiter := limiter
      phase := .answered (pollRoute s.relay.sessions s.now allowed token).2 }

def run (s : St) : Ev → Option St
  | .other e => (Relay.step store s.relay e).map fun relay => { s with relay := relay }
  | .limited now key rule => some { s with limiter := (s.limiter.check now key rule).1 }
  | .prune now => some { s with limiter := s.limiter.pruneAll now }
  | .abort _ => some { s with aborted := true }
  | .start now => match s.phase with
    | .idle => some (test options { s with startTime := now })
    | _ => none
  | .handle _ => match s.phase with
    | .asking => handle store token ip s
    | _ => none
  | .deliver _ => match s.phase with
    | .answered response => some (heard options s (pollSession response))
    | _ => none
  | .lose _ => match s.phase with
    | .asking | .answered _ => some (heard options s (.error "fetch failed"))
    | _ => none
  | .wake now => match s.phase with
    | .sleeping wakeAt => if wakeAt ≤ now then some (test options s) else none
    | _ => none

/-- Times do not decrease. -/
def step (s : St) (e : Ev) : Option St :=
  if s.now ≤ e.time then run store options token ip { s with now := e.time } e else none

def client : System St Ev where
  init := ⟨(Relay.bridge store).init, .new, 0, .idle, 0, options.intervalMs, 0, false⟩
  step := step store options token ip

/-! ## What one step does -/

/-- What one event makes of a state that is at its time. -/
inductive Change (s : St) (e : Ev) : St → Prop
  | relayed (r : Relay.Ev) (relay : Relay.St) (he : e = .other r) (hr : Relay.step store s.relay r = some relay) :
      Change s e { s with relay := relay }
  | limited (key : JsString) (rule : RateLimitRule) (he : e = .limited s.now key rule) :
      Change s e { s with limiter := (s.limiter.check s.now key rule).1 }
  | pruned : Change s e { s with limiter := s.limiter.pruneAll s.now }
  | aborted : Change s e { s with aborted := true }
  | started (hp : s.phase = .idle) : Change s e (test options { s with startTime := s.now })
  | handled (relay : Relay.St) (limiter : RateLimiter) (allowed : Bool) (he : e = .handle s.now) (hp : s.phase = .asking)
      (hl : s.limiter.check s.now (pollKey ip) RATE_LIMITS.poll = (limiter, allowed))
      (hr : Relay.step store s.relay (.poll s.now allowed token) = some relay) :
      Change s e { s with
        relay := relay
        limiter := limiter
        phase := .answered (pollRoute s.relay.sessions s.now allowed token).2 }
  | delivered (response : Response) (hp : s.phase = .answered response) : Change s e (heard options s (pollSession response))
  | lost (message : String) (hp : s.phase = .asking ∨ ∃ response, s.phase = .answered response) :
      Change s e (heard options s (.error message))
  | woken (wakeAt : Nat) (hp : s.phase = .sleeping wakeAt) (hwake : wakeAt ≤ s.now) : Change s e (test options s)

/-- A poll that is handled. -/
theorem run_handle {s t : St} {now : Nat} (h : run store options token ip s (.handle now) = some t) :
    s.phase = .asking ∧ ∃ relay limiter allowed, s.limiter.check s.now (pollKey ip) RATE_LIMITS.poll = (limiter, allowed) ∧
      Relay.step store s.relay (.poll s.now allowed token) = some relay ∧
      t = { s with
        relay := relay
        limiter := limiter
        phase := .answered (pollRoute s.relay.sessions s.now allowed token).2 } := by
  cases hp : s.phase with
  | asking =>
    simp only [run, hp, handle] at h
    cases hl : s.limiter.check s.now (pollKey ip) RATE_LIMITS.poll with
    | mk limiter allowed =>
      rw [hl] at h
      obtain ⟨relay, hr, rfl⟩ := Option.map_eq_some_iff.mp h
      exact ⟨rfl, relay, limiter, allowed, rfl, hr, rfl⟩
  | _ => simp [run, hp] at h

theorem run_cases {s t : St} {e : Ev} (hnow : s.now = e.time) (h : run store options token ip s e = some t) :
    Change store options token ip s e t := by
  cases e with
  | other r =>
    obtain ⟨relay, hr, rfl⟩ := Option.map_eq_some_iff.mp h
    exact .relayed r relay rfl hr
  | limited now key rule =>
    obtain rfl : s.now = now := hnow
    obtain rfl := Option.some.inj h
    exact .limited key rule rfl
  | prune now =>
    obtain rfl : s.now = now := hnow
    obtain rfl := Option.some.inj h
    exact .pruned
  | abort now =>
    obtain rfl := Option.some.inj h
    exact .aborted
  | start now =>
    obtain rfl : s.now = now := hnow
    cases hp : s.phase with
    | idle =>
      simp only [run, hp, Option.some.injEq] at h
      rw [← h, ← hp]
      exact .started hp
    | _ => simp [run, hp] at h
  | handle now =>
    obtain rfl : s.now = now := hnow
    obtain ⟨hp, relay, limiter, allowed, hl, hr, rfl⟩ := run_handle store options token ip h
    exact .handled relay limiter allowed rfl hp hl hr
  | deliver now =>
    cases hp : s.phase with
    | answered response =>
      simp only [run, hp, Option.some.injEq] at h
      exact h ▸ .delivered response hp
    | _ => simp [run, hp] at h
  | lose now =>
    cases hp : s.phase with
    | asking =>
      simp only [run, hp, Option.some.injEq] at h
      exact h ▸ .lost _ (.inl hp)
    | answered response =>
      simp only [run, hp, Option.some.injEq] at h
      exact h ▸ .lost _ (.inr ⟨response, hp⟩)
    | _ => simp [run, hp] at h
  | wake now =>
    obtain rfl : s.now = now := hnow
    cases hp : s.phase with
    | sleeping wakeAt =>
      simp only [run, hp] at h
      split at h
      · rename_i hwake
        obtain rfl := Option.some.inj h
        exact .woken wakeAt hp hwake
      · cases h
    | _ => simp [run, hp] at h

theorem step_cases {s t : St} {e : Ev} (h : step store options token ip s e = some t) :
    s.now ≤ e.time ∧ Change store options token ip { s with now := e.time } e t := by
  unfold step at h
  split at h
  · rename_i htime
    exact ⟨htime, run_cases store options token ip rfl h⟩
  · cases h

/-! ## A client nobody shares an address with -/

/-- Nobody else's check is of the client's key. -/
def Alone (_ : St) : Ev → Prop
  | .limited _ key _ => key ≠ pollKey ip
  | _ => True

instance (s : St) : ∀ e, Decidable (Alone ip s e)
  | .limited _ key _ => inferInstanceAs (Decidable (key ≠ pollKey ip))
  | .other _ | .prune _ | .abort _ | .start _ | .handle _ | .deliver _ | .lose _ | .wake _ => isTrue trivial

def gapMs : Nat := 2000

/-- The bucket is as empty as the phase says. -/
def Rested (now : Nat) (bucket : List Nat) : Phase → Prop
  | .idle => bucket = []
  | .asking => ∀ t ∈ bucket, t + gapMs ≤ now
  | .answered response => response ≠ .tooManyRequests ∧ ∀ t ∈ bucket, t ≤ now
  | .sleeping wakeAt => ∀ t ∈ bucket, t + gapMs ≤ wakeAt
  | .ended _ => True

/-- Each attempt took a gap. -/
def Timed (s : St) : Prop :=
  match s.phase with
  | .idle => s.attempt = 0
  | .asking | .answered _ => s.startTime + s.attempt * gapMs ≤ s.now + gapMs
  | .sleeping wakeAt => s.startTime + s.attempt * gapMs ≤ wakeAt
  | .ended _ => True

structure Inv (s : St) : Prop where
  interval : gapMs ≤ s.currentInterval
  spaced : Spaced gapMs (s.limiter.bucket (pollKey ip))
  rested : Rested s.now (s.limiter.bucket (pollKey ip)) s.phase
  timed : Timed s
  attempts : s.attempt * gapMs < options.timeoutMs + gapMs

theorem Rested.later {now later : Nat} {bucket : List Nat} {phase : Phase} (h : Rested now bucket phase) (hnow : now ≤ later) :
    Rested later bucket phase := by
  cases phase with
  | asking => exact fun t ht => le_trans (h t ht) hnow
  | answered response => exact ⟨h.1, fun t ht => le_trans (h.2 t ht) hnow⟩
  | _ => exact h

theorem Rested.sublist {now : Nat} {bucket kept : List Nat} {phase : Phase} (h : Rested now bucket phase)
    (hkept : kept.Sublist bucket) :
    Rested now kept phase := by
  cases phase with
  | idle =>
    obtain rfl : bucket = [] := h
    exact List.sublist_nil.mp hkept
  | asking => exact fun t ht => h t (hkept.subset ht)
  | answered response => exact ⟨h.1, fun t ht => h.2 t (hkept.subset ht)⟩
  | sleeping wakeAt => exact fun t ht => h t (hkept.subset ht)
  | ended ending => trivial

variable {store options token ip}

theorem Inv.later {s : St} {now : Nat} (h : Inv options ip s) (hnow : s.now ≤ now) : Inv options ip { s with now := now } := by
  refine ⟨h.interval, h.spaced, h.rested.later hnow, ?_, h.attempts⟩
  have htimed := h.timed
  unfold Timed at htimed ⊢
  dsimp only
  split <;> simp_all <;> omega

/-- The others drop moments of the client's at most. -/
theorem Inv.limiter {s : St} {limiter : RateLimiter} (h : Inv options ip s)
    (hkept : (limiter.bucket (pollKey ip)).Sublist (s.limiter.bucket (pollKey ip))) :
    Inv options ip { s with limiter := limiter } :=
  ⟨h.interval, h.spaced.sublist hkept, h.rested.sublist hkept, h.timed, h.attempts⟩

/-- The clock is read after a rest. -/
theorem Inv.test {s : St} (h : Inv options ip s) (hrest : ∀ t ∈ s.limiter.bucket (pollKey ip), t + gapMs ≤ s.now)
    (htimed : s.startTime + s.attempt * gapMs ≤ s.now) : Inv options ip (test options s) := by
  unfold VmClient.test
  split
  · rename_i hin
    cases s.aborted with
    | true => exact ⟨h.interval, h.spaced, trivial, trivial, h.attempts⟩
    | false =>
      refine ⟨h.interval, h.spaced, hrest, ?_, ?_⟩
      · show s.startTime + (s.attempt + 1) * gapMs ≤ s.now + gapMs
        rw [Nat.succ_mul]
        omega
      · show (s.attempt + 1) * gapMs < options.timeoutMs + gapMs
        rw [Nat.succ_mul]
        omega
  · exact ⟨h.interval, h.spaced, trivial, trivial, h.attempts⟩

theorem gap_doubled {interval : Nat} (h : gapMs ≤ interval) : gapMs ≤ min (interval * 2) maxIntervalMs := by
  unfold gapMs maxIntervalMs at *
  omega

/-- After an answer the client rests at least a gap. -/
theorem Inv.heard {s : St} (h : Inv options ip s) (hoptions : gapMs ≤ options.intervalMs)
    (hpast : ∀ t ∈ s.limiter.bucket (pollKey ip), t ≤ s.now) (htimed : s.startTime + s.attempt * gapMs ≤ s.now + gapMs)
    (r : Except String PollResult) : Inv options ip (heard options s r) := by
  have hsleep : ∀ interval, gapMs ≤ interval →
      Inv options ip { s with currentInterval := interval, phase := .sleeping (s.now + interval) } := by
    intro interval hinterval
    refine ⟨hinterval, h.spaced, fun t ht => ?_, ?_, h.attempts⟩
    · have hle := hpast t ht
      omega
    · show s.startTime + s.attempt * gapMs ≤ s.now + interval
      omega
  cases r with
  | ok r =>
    cases r with
    | pending => exact hsleep _ hoptions
    | ready encrypted ephemeralPublicKey nonce => exact ⟨h.interval, h.spaced, trivial, trivial, h.attempts⟩
  | error message =>
    unfold VmClient.heard
    dsimp only
    split
    · exact ⟨gap_doubled h.interval, h.spaced, trivial, trivial, h.attempts⟩
    · exact hsleep _ (gap_doubled h.interval)

/-- The limiter has room for who rested, and the poll is noted. -/
theorem check_rested {l limiter : RateLimiter} {now : Nat} {allowed : Bool} (hspaced : Spaced gapMs (l.bucket (pollKey ip)))
    (hrest : ∀ t ∈ l.bucket (pollKey ip), t + gapMs ≤ now) (h : l.check now (pollKey ip) RATE_LIMITS.poll = (limiter, allowed)) :
    allowed = true ∧ Spaced gapMs (limiter.bucket (pollKey ip)) ∧ ∀ t ∈ limiter.bucket (pollKey ip), t ≤ now := by
  have hroom : (recent RATE_LIMITS.poll.windowMs now (l.bucket (pollKey ip))).length < RATE_LIMITS.poll.maxRequests :=
    hspaced.room hrest (by decide) (by decide)
  unfold RateLimiter.check at h
  rw [if_neg (Nat.not_le_of_lt hroom)] at h
  obtain ⟨rfl, rfl⟩ := Prod.mk.inj h
  have hrecent : ∀ t ∈ recent RATE_LIMITS.poll.windowMs now (l.bucket (pollKey ip)), t + gapMs ≤ now :=
    fun t ht => hrest t (List.mem_of_mem_filter ht)
  rw [RateLimiter.bucket_setBucket_self]
  refine ⟨rfl, (hspaced.recent ..).push hrecent, fun t ht => ?_⟩
  rcases List.mem_append.mp ht with ht | ht
  · have hle := hrecent t ht
    omega
  · exact le_of_eq (List.mem_singleton.mp ht)

theorem poll_response_ne (d : Option SessionData) : pollResponse d ≠ .tooManyRequests := by
  cases d with
  | none => nofun
  | some d =>
    unfold pollResponse
    dsimp only
    split <;> nofun

theorem inv_step {s t : St} {e : Ev} (hoptions : gapMs ≤ options.intervalMs) (h : Inv options ip s) (halone : Alone ip s e)
    (hs : step store options token ip s e = some t) : Inv options ip t := by
  obtain ⟨hnow, hchange⟩ := step_cases store options token ip hs
  have hlater := h.later hnow
  generalize { s with now := e.time } = u at hchange hlater
  have hrested := hlater.rested
  have htimed := hlater.timed
  unfold Timed at htimed
  cases hchange with
  | relayed r relay he hr => exact ⟨hlater.interval, hlater.spaced, hlater.rested, hlater.timed, hlater.attempts⟩
  | limited key rule he =>
    refine hlater.limiter ?_
    have hkey : pollKey ip ≠ key := by
      subst he
      exact Ne.symm halone
    unfold RateLimiter.check
    dsimp only
    split <;> rw [RateLimiter.bucket_setBucket_ne _ _ hkey]
  | pruned =>
    refine hlater.limiter ?_
    rw [RateLimiter.bucket_pruneAll]
    exact List.filter_sublist
  | aborted => exact ⟨hlater.interval, hlater.spaced, hlater.rested, hlater.timed, hlater.attempts⟩
  | started hp =>
    rw [hp] at hrested htimed
    have hempty : u.limiter.bucket (pollKey ip) = [] := hrested
    have hnone : u.attempt = 0 := htimed
    have hrest : Rested u.now (u.limiter.bucket (pollKey ip)) .idle := hempty
    refine Inv.test (s := { u with startTime := u.now }) ⟨hlater.interval, hlater.spaced, hp ▸ hrest, ?_, hlater.attempts⟩ ?_ ?_
    · unfold Timed
      dsimp only
      rw [hp]
      exact hnone
    · intro t ht
      rw [show ({ u with startTime := u.now } : St).limiter = u.limiter from rfl, hempty] at ht
      cases ht
    · simp [hnone]
  | handled relay limiter allowed he hp hl hr =>
    rw [hp] at hrested htimed
    obtain ⟨rfl, hspaced, hpast⟩ := check_rested hlater.spaced hrested hl
    exact ⟨hlater.interval, hspaced, ⟨poll_response_ne _, hpast⟩, htimed, hlater.attempts⟩
  | delivered response hp =>
    rw [hp] at hrested htimed
    exact hlater.heard hoptions hrested.2 htimed _
  | lost message hp =>
    rcases hp with hp | ⟨response, hp⟩
    · rw [hp] at hrested htimed
      refine hlater.heard hoptions (fun t ht => ?_) htimed _
      have hle := hrested t ht
      omega
    · rw [hp] at hrested htimed
      exact hlater.heard hoptions hrested.2 htimed _
  | woken wakeAt hp hwake =>
    rw [hp] at hrested htimed
    exact hlater.test (fun t ht => le_trans (hrested t ht) hwake) (le_trans htimed hwake)

theorem inv_init (hoptions : gapMs ≤ options.intervalMs) : Inv options ip (client store options token ip).init where
  interval := hoptions
  spaced := List.Pairwise.nil
  rested := rfl
  timed := rfl
  attempts := by
    show 0 * gapMs < options.timeoutMs + gapMs
    unfold gapMs
    omega

/-- A client that nobody shares its address with is never turned away, and asks at most once for
    each gap of its time. -/
theorem never_turned_away (store : StoreOptions) {options : PollOptions} (token ip : JsString)
    (hoptions : gapMs ≤ options.intervalMs) :
    ∀ s, Reach (client store options token ip) (Alone ip) s →
      s.phase ≠ .answered .tooManyRequests ∧ s.attempt * gapMs < options.timeoutMs + gapMs := by
  intro s hs
  have hinv : Inv options ip s := hs.inv (inv_init hoptions) fun _ _ _ _ h halone hstep => inv_step hoptions h halone hstep
  refine ⟨fun hp => ?_, hinv.attempts⟩
  have hrested := hinv.rested
  rw [hp] at hrested
  exact hrested.1 rfl

/-- Two polls of a session nothing is submitted to, and one of a neighbour. -/
theorem a_pending_session_is_polled : ∃ s, Reach (client ⟨600000, 10000⟩ .default (ofString "a2b3c") (ofString "203.0.113.5"))
    (Alone (ofString "203.0.113.5")) s ∧ s.attempt = 2 ∧
      s.phase ≠ .answered .tooManyRequests ∧ s.attempt * gapMs < PollOptions.default.timeoutMs + gapMs := by
  have hrun : ∃ s, Reach (client ⟨600000, 10000⟩ .default (ofString "a2b3c") (ofString "203.0.113.5"))
      (Alone (ofString "203.0.113.5")) s ∧ decide (s.attempt = 2) = true :=
    reach_any
      [.other (.create 0 true (some (.obj [(ofString "publicKey", .text "cHVi")])) [ofString "a2b3c"]), .start 1,
        .handle 2, .deliver 3,
        .limited 4 (ofString "poll:198.51.100.7") RATE_LIMITS.poll, .wake 2003, .handle 2004]
      (by decide +kernel) (by decide +kernel)
  obtain ⟨s, hs, htwo⟩ := hrun
  have hnever := never_turned_away ⟨600000, 10000⟩ (ofString "a2b3c") (ofString "203.0.113.5") (by decide) s hs
  exact ⟨s, hs, of_decide_eq_true htwo, hnever⟩

end VmClient

end FlowHelm.AuthBridge
