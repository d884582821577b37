/-
  FlowHelm.Channels.SinglePoller — how many polling loops `GrammyTransport` has, with the
  adapter's reconnections (src/channels/telegram/transport.ts, adapter.ts).

  A loop is told to stop by `shouldPoll` alone, which it reads between two requests; a `connect`
  that comes meanwhile sets the flag again, and starts a loop of its own once Telegram has
  answered it twice. Loops and connects stand in the order they came in, each at what it awaits;
  every answer can come at any time, or fail.

  - `single_poller`: one loop and one request at most, just while no connect starts its loop
    beside another.
  - `a_second_loop_polls`: a disconnect and a connect within one long poll.
-/
import Mathlib.Algebra.Group.Nat.Defs
import FlowHelm.Lib.Parties
import FlowHelm.Lib.Runs

namespace FlowHelm.Channels.SinglePoller

open Parties Runs

inductive ConnectionState where
  | disconnected
  | connecting
  | connected
  deriving DecidableEq, Repr

/-- What a `connect` awaits. -/
inductive Connecting where
  | init
  | deleteWebhook
  deriving DecidableEq, Repr

/-- What a loop awaits. -/
inductive Loop where
  | getUpdates
  /-- `bot.handleUpdate`, with this many of the batch behind it. -/
  | handleUpdate (more : Nat)
  /-- The wait behind a 409. -/
  | conflict
  deriving DecidableEq, Repr

structure AdapterOptions where
  maxReconnectAttempts : Nat
  reconnectBaseDelay : Nat
  reconnectMaxDelay : Nat

structure St where
  state : ConnectionState
  shouldPoll : Bool
  connects : List Connecting
  loops : List Loop
  reconnectAttempts : Nat
  /-- The delay of the timer that is pending. -/
  reconnectTimer : Option Nat
  deriving DecidableEq

inductive Ev where
  /-- `connect`, behind its mkdir. -/
  | connect
  | disconnect
  /-- The adapter's timer. -/
  | reconnect
  /-- What the `i`th connect awaits. -/
  | answered (i : Nat)
  | refused (i : Nat)
  /-- The request of the `i`th loop: a batch, a 409, another error. -/
  | updates (i n : Nat)
  | conflict (i : Nat)
  | broken (i : Nat)
  | handled (i : Nat)
  | waited (i : Nat)
  deriving DecidableEq

/-! ## The transport and the adapter -/

/-- `while (this.shouldPoll)`. -/
def goOn (shouldPoll : Bool) : Option Loop := if shouldPoll then some .getUpdates else none

/-- The `for` over a batch. -/
def handle (shouldPoll : Bool) : Nat → Option Loop
  | 0 => goOn shouldPoll
  | more + 1 => some (.handleUpdate more)

def connect (s : St) : St := { s with state := .connecting, shouldPoll := true, connects := s.connects ++ [.init] }

def pollLoop (s : St) : St := { s with loops := s.loops ++ (goOn s.shouldPoll).toList }

/-- `onConnectionState('connected')` resets the adapter's count. -/
def connected (s : St) : St := { s with state := .connected, reconnectAttempts := 0 }

def handleReconnection (opts : AdapterOptions) (s : St) : St :=
  if s.state = .connecting then s
  else
    let s := { s with reconnectTimer := none, reconnectAttempts := s.reconnectAttempts + 1 }
    if 0 < opts.maxReconnectAttempts ∧ opts.maxReconnectAttempts < s.reconnectAttempts then s
    else { s with
      reconnectTimer := some (min (opts.reconnectBaseDelay * 2 ^ (s.reconnectAttempts - 1)) opts.reconnectMaxDelay) }

def step (opts : AdapterOptions) (s : St) : Ev → Option St
  | .connect => some (connect s)
  | .disconnect => some { s with reconnectTimer := none, shouldPoll := false, state := .disconnected }
  | .reconnect => match s.reconnectTimer with
    | some _ => some (connect { s with reconnectTimer := none })
    | none => none
  | .answered i => match s.connects[i]? with
    | some .init => some { s with connects := put s.connects i (some .deleteWebhook) }
    | some .deleteWebhook => some (pollLoop (connected { s with connects := put s.connects i none }))
    | none => none
  | .refused i => match s.connects[i]? with
    | some _ => some { s with connects := put s.connects i none }
    | none => none
  | .updates i n => match s.loops[i]? with
    | some .getUpdates => some { s with loops := put s.loops i (handle s.shouldPoll n) }
    | _ => none
  | .conflict i => match s.loops[i]? with
    | some .getUpdates => some { s with loops := put s.loops i (if s.shouldPoll then some .conflict else none) }
    | _ => none
  | .broken i => match s.loops[i]? with
    | some .getUpdates =>
      let ended := { s with loops := put s.loops i none }
      some (if s.shouldPoll then handleReconnection opts { ended with state := .disconnected } else ended)
    | _ => none
  | .handled i => match s.loops[i]? with
    | some (.handleUpdate more) => some { s with loops := put s.loops i (handle s.shouldPoll more) }
    | _ => none
  | .waited i => match s.loops[i]? with
    | some .conflict => some { s with loops := put s.loops i (goOn s.shouldPoll) }
    | _ => none

def St.init : St := ⟨.disconnected, false, [], [], 0, none⟩

def machine (opts : AdapterOptions) : System St Ev := ⟨St.init, step opts⟩

/-! ## One loop -/

def St.inFlight (s : St) : Nat := s.loops.count .getUpdates

/-- One loop is alive and one request in flight, at most. -/
def Single (s : St) : Prop := s.loops.length ≤ 1 ∧ s.inFlight ≤ 1

/-- A connect that comes to start a loop finds none. -/
def Alone (s : St) : Ev → Prop
  | .answered i => s.connects[i]? = some .deleteWebhook → s.shouldPoll = true → s.loops = []
  | _ => True

instance decidableAlone (s : St) : (e : Ev) → Decidable (Alone s e)
  | .answered i => inferInstanceAs (Decidable (s.connects[i]? = some .deleteWebhook → s.shouldPoll = true → s.loops = []))
  | .connect | .disconnect | .reconnect | .refused _ | .updates _ _ | .conflict _ | .broken _ | .handled _ | .waited _ =>
    inferInstanceAs (Decidable True)

theorem single_iff (s : St) : Single s ↔ s.loops.length ≤ 1 := by
  have hcount : s.inFlight ≤ s.loops.length := List.count_le_length
  unfold Single
  omega

@[simp] theorem loops_handleReconnection (opts : AdapterOptions) (s : St) : (handleReconnection opts s).loops = s.loops := by
  unfold handleReconnection
  split
  · rfl
  · dsimp only
    split <;> rfl

/-- The loop that an event is of, unless its request fails. -/
def Ev.loop? : Ev → Option Nat
  | .updates i _ | .conflict i | .handled i | .waited i => some i
  | .connect | .disconnect | .reconnect | .answered _ | .refused _ | .broken _ => none

/-- A loop that goes on or ends changes nothing else. -/
theorem loop_step {opts : AdapterOptions} {s t : St} {e : Ev} {i : Nat} (h : step opts s e = some t) (he : e.loop? = some i) :
    ∃ o, t = { s with loops := put s.loops i o } := by
  cases e with
  | connect => cases he
  | disconnect => cases he
  | reconnect => cases he
  | answered k => cases he
  | refused k => cases he
  | broken k => cases he
  | _ =>
    -- each looks its loop up and puts what becomes of it
    obtain rfl := Option.some.inj he
    rw [step] at h
    split at h
    · exact ⟨_, (Option.some.inj h).symm⟩
    · cases h

/-- A step ends loops and begins none, or it is a connect's that begins one. -/
theorem step_loops {opts : AdapterOptions} {s t : St} {e : Ev} (h : step opts s e = some t) :
    (Alone s e ∧ t.loops.length ≤ s.loops.length) ∨ ((Alone s e ↔ s.loops = []) ∧ t.loops.length = s.loops.length + 1) := by
  cases e with
  | connect =>
    obtain rfl := Option.some.inj h
    exact .inl ⟨trivial, Nat.le_refl _⟩
  | disconnect =>
    obtain rfl := Option.some.inj h
    exact .inl ⟨trivial, Nat.le_refl _⟩
  | reconnect =>
    rw [step] at h
    split at h
    · obtain rfl := Option.some.inj h
      exact .inl ⟨trivial, Nat.le_refl _⟩
    · cases h
  | answered i =>
    rw [step] at h
    split at h
    · rename_i hinit
      obtain rfl := Option.some.inj h
      exact .inl ⟨fun hweb => (by cases hinit.symm.trans hweb), Nat.le_refl _⟩
    · rename_i hweb
      obtain rfl := Option.some.inj h
      cases hpoll : s.shouldPoll with
      | true =>
        refine .inr ⟨⟨fun halone => halone hweb hpoll, fun hnone _ _ => hnone⟩, ?_⟩
        simp [pollLoop, connected, goOn]
      | false =>
        refine .inl ⟨fun _ htrue => (by cases hpoll.symm.trans htrue), ?_⟩
        simp [pollLoop, connected, goOn]
    · cases h
  | refused i =>
    rw [step] at h
    split at h
    · obtain rfl := Option.some.inj h
      exact .inl ⟨trivial, Nat.le_refl _⟩
    · cases h
  | broken i =>
    rw [step] at h
    split at h
    · obtain rfl := Option.some.inj h
      refine .inl ⟨trivial, ?_⟩
      split
      · rw [loops_handleReconnection]
        exact length_put_le s.loops i none
      · exact length_put_le s.loops i none
    · cases h
  | updates i n =>
    obtain ⟨o, rfl⟩ := loop_step h rfl
    exact .inl ⟨trivial, length_put_le ..⟩
  | conflict i =>
    obtain ⟨o, rfl⟩ := loop_step h rfl
    exact .inl ⟨trivial, length_put_le ..⟩
  | handled i =>
    obtain ⟨o, rfl⟩ := loop_step h rfl
    exact .inl ⟨trivial, length_put_le ..⟩
  | waited i =>
    obtain ⟨o, rfl⟩ := loop_step h rfl
    exact .inl ⟨trivial, length_put_le ..⟩

/-- From one loop, a step leads to one just when it meets the condition. -/
theorem single_step {opts : AdapterOptions} {s t : St} {e : Ev} (hs : Single s) (h : step opts s e = some t) :
    Single t ↔ Alone s e := by
  rw [single_iff] at hs ⊢
  rcases step_loops h with ⟨halone, hlength⟩ | ⟨halone, hlength⟩
  · exact iff_of_true (Nat.le_trans hlength hs) halone
  · rw [halone, ← List.length_eq_zero_iff, hlength]
    omega

/-- While no connect starts its loop beside another, there is one loop and one request at most;
    the first that does makes two. -/
theorem single_poller {opts : AdapterOptions} {s : St} (h : Reach (machine opts) Alone s) :
    Single s ∧ ∀ e t, step opts s e = some t → (Single t ↔ Alone s e) := by
  refine h.keeps_iff (I := Single) ⟨Nat.zero_le 1, Nat.zero_le 1⟩ fun s e t hs hst => ?_
  exact single_step hs hst

/-! ## Runs -/

def AdapterOptions.default : AdapterOptions := ⟨0, 5000, 60000⟩

def connecting : List Ev := [.connect, .answered 0, .answered 0]

/-- The loop ends on an error, and the adapter connects again. -/
theorem a_reconnection_polls_alone : ∃ s, Reach (machine .default) Alone s ∧ Single s ∧ s.loops = [.getUpdates] := by
  obtain ⟨s, hs, hloops⟩ := reach_any (M := machine .default) (C := Alone) (P := fun s => decide (s.loops = [.getUpdates]))
    (connecting ++ [.conflict 0, .waited 0, .broken 0, .reconnect, .answered 0, .answered 0]) (by decide) (by decide)
  exact ⟨s, hs, (single_poller hs).1, of_decide_eq_true hloops⟩

/-- A disconnect and a connect while the loop awaits its request: it finds the flag set again,
    and both go on polling. -/
theorem a_second_loop_polls : ∃ s, Reach (machine .default) Free s ∧ ¬ Single s := by
  obtain ⟨s, hs, hflight⟩ := reach_any (M := machine .default) (C := Free) (P := fun s => decide (s.inFlight = 2))
    (connecting ++ [.disconnect] ++ connecting) (meets_free ..) (by decide)
  refine ⟨s, hs, fun h => ?_⟩
  have htwo := of_decide_eq_true hflight
  have hone := h.2
  omega

end FlowHelm.Channels.SinglePoller
