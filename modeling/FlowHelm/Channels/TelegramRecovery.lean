/-
  FlowHelm.Channels.TelegramRecovery — the Telegram adapter between its connects
  (src/channels/telegram/adapter.ts over transport.ts).

  The transport and the adapter's timer are those of `SinglePoller`; added are the connects that
  still make the download directory, and whether the adapter is asked to be connected. A timer is
  set by a polling error alone. A connect that fails leaves the transport connecting, and tells
  nobody but its caller, which behind a timer is nobody.

  - `step_recovers`: the transport's steps, but for a connect that fails.
  - `never_stuck`: the adapter has a way to come back just while no connect that fails is the last
    one there is.
  - `a_failed_reconnect_is_the_end`: an error, and one connect that fails.
-/
import FlowHelm.Channels.SinglePoller

namespace FlowHelm.Channels.TelegramRecovery

open Parties Runs SinglePoller

structure Adapter where
  transport : St
  /-- The calls of `connect` that await their mkdir. -/
  preparing : Nat
  /-- `connect` was called, and `disconnect` not since. -/
  asked : Bool
  deriving DecidableEq

inductive AdapterEv where
  | connect
  /-- An mkdir is refused. -/
  | notPrepared
  /-- A step of the transport or the timer; it connects behind an mkdir, or the timer. -/
  | transport (e : Ev)
  deriving DecidableEq

/-- The calls a step of the transport comes from. -/
def called (a : Adapter) : Ev → Option Adapter
  | .connect => if a.preparing = 0 then none else some { a with preparing := a.preparing - 1 }
  | .disconnect => some { a with asked := false }
  | _ => some a

def step (opts : AdapterOptions) (a : Adapter) : AdapterEv → Option Adapter
  | .connect => some { a with preparing := a.preparing + 1, asked := true }
  | .notPrepared => if a.preparing = 0 then none else some { a with preparing := a.preparing - 1 }
  | .transport e => (called a e).bind fun b => (SinglePoller.step opts a.transport e).map fun t => { b with transport := t }

def adapter (opts : AdapterOptions) : System Adapter AdapterEv := ⟨⟨St.init, 0, false⟩, step opts⟩

/-! ## A way to come back -/

/-- `maxReconnectAttempts` were made. -/
def Exhausted (opts : AdapterOptions) (s : St) : Prop :=
  0 < opts.maxReconnectAttempts ∧ opts.maxReconnectAttempts < s.reconnectAttempts

instance (opts : AdapterOptions) (s : St) : Decidable (Exhausted opts s) := inferInstanceAs (Decidable (_ ∧ _))

/-- Connected, or with a timer or nothing more to try. -/
def Settled (opts : AdapterOptions) (s : St) : Prop := s.state = .connected ∨ Exhausted opts s ∨ s.reconnectTimer.isSome = true

instance (opts : AdapterOptions) (s : St) : Decidable (Settled opts s) := inferInstanceAs (Decidable (_ ∨ _ ∨ _))

/-- The connects that are in flight. -/
def Adapter.attempts (a : Adapter) : Nat := a.preparing + a.transport.connects.length

/-- While it is asked to be, the adapter is connected or has a way to. -/
def Alive (opts : AdapterOptions) (a : Adapter) : Prop := a.asked = true → Settled opts a.transport ∨ 0 < a.attempts

/-- A connect that fails is not the last there is. -/
def NotLast (opts : AdapterOptions) (a : Adapter) : AdapterEv → Prop
  | .notPrepared | .transport (.refused _) => a.asked = true → Settled opts a.transport ∨ 1 < a.attempts
  | _ => True

instance decidableNotLast (opts : AdapterOptions) (a : Adapter) : (e : AdapterEv) → Decidable (NotLast opts a e)
  | .notPrepared | .transport (.refused _) => inferInstanceAs (Decidable (a.asked = true → _))
  | .connect | .transport .connect | .transport .disconnect | .transport .reconnect | .transport (.answered _)
  | .transport (.updates _ _) | .transport (.conflict _) | .transport (.broken _) | .transport (.handled _)
  | .transport (.waited _) => inferInstanceAs (Decidable True)

/-- What a step leaves of the four fields that matter here. -/
def SameWay (s t : St) : Prop :=
  t.state = s.state ∧ t.reconnectTimer = s.reconnectTimer ∧ t.reconnectAttempts = s.reconnectAttempts ∧
    t.connects.length = s.connects.length

theorem SameWay.settled {opts : AdapterOptions} {s t : St} (h : SameWay s t) : Settled opts t ↔ Settled opts s := by
  obtain ⟨hstate, htimer, hattempts, -⟩ := h
  simp only [Settled, Exhausted, hstate, htimer, hattempts]

/-- A polling error sets the timer, or there is nothing more to try. -/
theorem settled_handleReconnection (opts : AdapterOptions) {s : St} (h : s.state = .disconnected) :
    Settled opts (handleReconnection opts s) := by
  unfold handleReconnection
  rw [if_neg (by simp [h])]
  dsimp only
  split
  · rename_i hexhausted
    exact .inr (.inl hexhausted)
  · exact .inr (.inr rfl)

/-- A step of the transport, but for a connect that fails, leaves a way back, or leaves it as it
    was. -/
theorem step_recovers {opts : AdapterOptions} {s t : St} {e : Ev} (h : SinglePoller.step opts s e = some t)
    (hdisconnect : e ≠ .disconnect) (hrefused : ∀ i, e ≠ .refused i) :
    Settled opts t ∨ 0 < t.connects.length ∨ SameWay s t := by
  have hconnect : ∀ s : St, 0 < (SinglePoller.connect s).connects.length := fun s => by simp [SinglePoller.connect]
  cases e with
  | connect =>
    obtain rfl := Option.some.inj h
    exact .inr (.inl (hconnect s))
  | disconnect => exact absurd rfl hdisconnect
  | reconnect =>
    rw [SinglePoller.step] at h
    split at h
    · obtain rfl := Option.some.inj h
      exact .inr (.inl (hconnect _))
    · cases h
  | answered i =>
    rw [SinglePoller.step] at h
    split at h
    · rename_i hinit
      obtain rfl := Option.some.inj h
      refine .inr (.inr ⟨rfl, rfl, rfl, ?_⟩)
      simp [put]
    · obtain rfl := Option.some.inj h
      exact .inl (.inl rfl)
    · cases h
  | refused i => exact absurd rfl (hrefused i)
  | broken i =>
    rw [SinglePoller.step] at h
    split at h
    · obtain rfl := Option.some.inj h
      split
      · exact .inl (settled_handleReconnection opts rfl)
      · exact .inr (.inr ⟨rfl, rfl, rfl, rfl⟩)
    · cases h
  | updates i n =>
    obtain ⟨o, rfl⟩ := loop_step h rfl
    exact .inr (.inr ⟨rfl, rfl, rfl, rfl⟩)
  | conflict i =>
    obtain ⟨o, rfl⟩ := loop_step h rfl
    exact .inr (.inr ⟨rfl, rfl, rfl, rfl⟩)
  | handled i =>
    obtain ⟨o, rfl⟩ := loop_step h rfl
    exact .inr (.inr ⟨rfl, rfl, rfl, rfl⟩)
  | waited i =>
    obtain ⟨o, rfl⟩ := loop_step h rfl
    exact .inr (.inr ⟨rfl, rfl, rfl, rfl⟩)

/-- A connect that fails is one less, and leaves the rest. -/
theorem refused_spec {opts : AdapterOptions} {s t : St} {i : Nat} (h : SinglePoller.step opts s (.refused i) = some t) :
    (Settled opts t ↔ Settled opts s) ∧ t.connects.length + 1 = s.connects.length := by
  rw [SinglePoller.step] at h
  split at h
  · rename_i c hc
    obtain rfl := Option.some.inj h
    refine ⟨Iff.rfl, ?_⟩
    have hlt : i < s.connects.length := (List.getElem?_eq_some_iff.mp hc).1
    show (s.connects.eraseIdx i).length + 1 = s.connects.length
    rw [List.length_eraseIdx_of_lt hlt]
    omega
  · cases h

/-- From a state with a way back, a step leads to one just when it meets the condition. -/
theorem step_alive {opts : AdapterOptions} {a b : Adapter} {e : AdapterEv} (h : Alive opts a) (hs : step opts a e = some b) :
    Alive opts b ↔ NotLast opts a e := by
  cases e with
  | connect =>
    obtain rfl := Option.some.inj hs
    refine iff_of_true (fun _ => .inr ?_) trivial
    simp only [Adapter.attempts]
    omega
  | notPrepared =>
    rw [step] at hs
    split at hs
    · cases hs
    · obtain rfl := Option.some.inj hs
      simp only [Alive, NotLast, Adapter.attempts]
      refine imp_congr_right fun _ => or_congr_right ?_
      omega
  | transport e =>
    obtain ⟨c, hcalled, hs⟩ := Option.bind_eq_some_iff.mp hs
    obtain ⟨t, ht, rfl⟩ := Option.map_eq_some_iff.mp hs
    by_cases hdisconnect : e = .disconnect
    · subst hdisconnect
      obtain rfl := Option.some.inj hcalled
      exact iff_of_true (fun hasked => by cases hasked) trivial
    by_cases hrefused : ∃ i, e = .refused i
    · obtain ⟨i, rfl⟩ := hrefused
      obtain rfl := Option.some.inj hcalled
      obtain ⟨hsettled, hless⟩ := refused_spec ht
      simp only [Alive, NotLast, Adapter.attempts]
      refine imp_congr_right fun _ => or_congr hsettled ?_
      omega
    · have hnot : ∀ i, e ≠ .refused i := fun i hi => hrefused ⟨i, hi⟩
      have hmeets : NotLast opts a (.transport e) := by
        cases e with
        | refused i => exact absurd rfl (hnot i)
        | _ => trivial
      refine iff_of_true (fun hasked => ?_) hmeets
      by_cases hconnect : e = .connect
      · subst hconnect
        obtain rfl := Option.some.inj ht
        refine .inr ?_
        simp only [Adapter.attempts, SinglePoller.connect, List.length_append, List.length_singleton]
        omega
      · have hsame : c = a := by
          cases e with
          | connect => exact absurd rfl hconnect
          | disconnect => exact absurd rfl hdisconnect
          | _ => exact (Option.some.inj hcalled).symm
        subst hsame
        rcases step_recovers ht hdisconnect hnot with hsettled | hmore | hway
        · exact .inl hsettled
        · refine .inr ?_
          simp only [Adapter.attempts]
          omega
        · have hbefore := h hasked
          rw [← hway.settled] at hbefore
          simp only [Adapter.attempts, ← hway.2.2.2] at hbefore
          exact hbefore

/-- The adapter, while it is asked to be connected, is, or has a timer or a connect in flight, or
    has made all its attempts, as long as no connect that fails is the last; when one is, it has
    none of these. -/
theorem never_stuck (opts : AdapterOptions) {a : Adapter} (h : Reach (adapter opts) (NotLast opts) a) :
    Alive opts a ∧ ∀ e b, step opts a e = some b → (Alive opts b ↔ NotLast opts a e) := by
  refine h.keeps_iff (I := Alive opts) (fun hasked => by cases hasked) fun a e b ha hst => ?_
  exact step_alive ha hst

/-! ## Runs -/

def connecting : List AdapterEv := [.connect, .transport .connect, .transport (.answered 0), .transport (.answered 0)]

/-- A polling error is recovered from. -/
theorem an_error_is_recovered_from : ∃ a, Reach (adapter .default) (NotLast .default) a ∧ Alive .default a ∧
    a.asked = true ∧ a.transport.reconnectTimer = some 5000 := by
  obtain ⟨a, ha, hrun⟩ := reach_any (M := adapter .default) (C := NotLast .default)
    (P := fun a => a.asked && decide (a.transport.reconnectTimer = some 5000))
    (connecting ++ [.transport (.broken 0)]) (by decide) (by decide)
  simp only [Bool.and_eq_true, decide_eq_true_eq] at hrun
  exact ⟨a, ha, (never_stuck .default ha).1, hrun⟩

/-- The reconnect behind an error fails, and there is no other. -/
theorem a_failed_reconnect_is_the_end : ∃ a, Reach (adapter .default) Free a ∧ ¬Alive .default a := by
  obtain ⟨a, ha, hrun⟩ := reach_any (M := adapter .default) (C := Free)
    (P := fun a => a.asked && !decide (Settled .default a.transport) && a.attempts == 0)
    (connecting ++ [.transport (.broken 0), .transport .reconnect, .transport (.refused 0)]) (meets_free ..) (by decide)
  simp only [Bool.and_eq_true, Bool.not_eq_true', decide_eq_false_iff_not, beq_iff_eq] at hrun
  obtain ⟨⟨hasked, hlost⟩, hnone⟩ := hrun
  refine ⟨a, ha, fun h => ?_⟩
  have hway := (h hasked).resolve_left hlost
  omega

end FlowHelm.Channels.TelegramRecovery
