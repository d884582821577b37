/-
  FlowHelm.Channels.ImapDisconnect — what `ImapIdleClient` still does once `disconnect` has been
  called (src/channels/gmail/imap-client.ts).

  Every `doConnect` has a socket, a promise and an `authFlow` of its own; the client keeps the
  newest socket alone. A flow listens on the socket that was the client's when it sent its command,
  and what it awaits can be answered while that socket is alive, or fail at any time. The timer of a
  reconnection is kept nowhere, and does not read `stopping`.

  - `disconnect_final_iff`: a disconnect is final just if no such timer is pending and no flow can
    come to its end.
-/
import Mathlib.Algebra.Group.Nat.Defs
import FlowHelm.Lib.Finality
import FlowHelm.Lib.Parties

namespace FlowHelm.Channels.Imap

open Finality Parties Runs

structure ImapClientOptions where
  autoReconnect : Bool
  maxReconnectAttempts : Nat
  reconnectBaseDelay : Nat

/-- What an `authFlow` awaits. -/
inductive Stage where
  | waitForGreeting
  | authenticate
  | selectInbox
  deriving DecidableEq, Repr

inductive Flow where
  /-- The listener is on this socket. -/
  | awaits (stage : Stage) (socket : Option Nat)
  /-- The promise has resolved, and what follows has not run. -/
  | answered (stage : Stage)
  | ended
  deriving DecidableEq, Repr

inductive Life where
  | alive
  /-- Its error has been emitted, its close has not. -/
  | errored
  /-- It is closed, or without listeners. -/
  | gone
  deriving DecidableEq, Repr

/-- A `doConnect`. -/
structure Attempt where
  reconnection : Bool
  socket : Life
  settled : Bool
  flow : Flow
  deriving DecidableEq, Repr

/-- What a `refreshIdle` awaits. -/
inductive Refresh where
  | sleep
  | noop (socket : Option Nat)
  deriving DecidableEq, Repr

structure St where
  stopping : Bool
  connected : Bool
  idling : Bool
  attempts : List Attempt
  /-- Whose socket is the client's. -/
  socket : Option Nat
  reconnectAttempts : Nat
  /-- The delays of the reconnections that are pending. -/
  timers : List Nat
  idleRefreshTimer : Bool
  refreshes : List Refresh
  /-- How many `disconnect`s await their LOGOUT. -/
  logouts : Nat
  deriving DecidableEq

inductive Ev where
  | connect
  | disconnect
  /-- A LOGOUT is answered, or times out. -/
  | loggedOut
  /-- The `i`th timer. -/
  | reconnect (i : Nat)
  /-- What the `k`th flow awaits. -/
  | answered (k : Nat)
  | continued (k : Nat)
  | refused (k : Nat)
  /-- The `k`th socket. -/
  | error (k : Nat)
  | close (k : Nat)
  | refreshIdle
  /-- The `i`th refresh. -/
  | slept (i : Nat)
  | refreshed (i : Nat)
  | refreshFailed (i : Nat)
  deriving DecidableEq

/-! ## The client -/

/-- A listener on it can still hear an answer. -/
def St.hears (s : St) (socket : Option Nat) : Bool :=
  socket.any fun k => s.attempts[k]?.any fun a => a.socket == .alive

def St.update (s : St) (k : Nat) (f : Attempt → Attempt) : St := { s with attempts := s.attempts.modify k f }

def doConnect (reconnection : Bool) (s : St) : St :=
  { s with attempts := s.attempts ++ [⟨reconnection, .alive, false, .awaits .waitForGreeting (some s.attempts.length)⟩],
           socket := some s.attempts.length }

def destroySocket (s : St) : St := match s.socket with
  | some k => { s.update k ({ · with socket := .gone }) with socket := none }
  | none => s

def handleDisconnect (opts : ImapClientOptions) (s : St) : St :=
  let s := destroySocket { s with connected := false, idling := false, idleRefreshTimer := false }
  if s.stopping || !opts.autoReconnect then s
  else
    let s := { s with reconnectAttempts := s.reconnectAttempts + 1 }
    if 0 < opts.maxReconnectAttempts ∧ opts.maxReconnectAttempts < s.reconnectAttempts then s
    else { s with timers := s.timers ++ [min (opts.reconnectBaseDelay * 2 ^ (s.reconnectAttempts - 1)) 300000] }

/-- The promise of a `doConnect` rejects, unless it is settled; a reconnection catches it. -/
def reject (opts : ImapClientOptions) (s : St) (k : Nat) (a : Attempt) : St :=
  let rejected := s.update k ({ · with settled := true })
  if !a.settled && a.reconnection then handleDisconnect opts rejected else rejected

def startIdle (s : St) : St := { s with idling := true, idleRefreshTimer := true }

/-- The next command of a flow, or its end. -/
def proceed (s : St) (k : Nat) (a : Attempt) : Stage → St
  | .waitForGreeting => s.update k ({ · with flow := .awaits .authenticate s.socket })
  | .authenticate => s.update k ({ · with flow := .awaits .selectInbox s.socket })
  | .selectInbox =>
    let s := (startIdle { s with connected := true }).update k ({ · with settled := true, flow := .ended })
    if a.settled then s else { s with reconnectAttempts := 0 }

def disconnect (s : St) : St :=
  let s := { s with stopping := true, idleRefreshTimer := false, idling := false }
  if s.connected then { s with logouts := s.logouts + 1 } else destroySocket s

def step (opts : ImapClientOptions) (s : St) : Ev → Option St
  | .connect => some (doConnect false { s with stopping := false })
  | .disconnect => some (disconnect s)
  | .loggedOut => if 0 < s.logouts then some { destroySocket s with connected := false, logouts := s.logouts - 1 } else none
  | .reconnect i => if i < s.timers.length then some (doConnect true { s with timers := s.timers.eraseIdx i }) else none
  | .answered k => match s.attempts[k]? with
    | some ⟨_, _, _, .awaits stage socket⟩ =>
      if s.hears socket then some (s.update k ({ · with flow := .answered stage })) else none
    | _ => none
  | .continued k => match s.attempts[k]? with
    | some ⟨reconnection, socket, settled, .answered stage⟩ =>
      some (proceed s k ⟨reconnection, socket, settled, .answered stage⟩ stage)
    | _ => none
  | .refused k => match s.attempts[k]? with
    | some ⟨reconnection, socket, settled, .awaits stage listener⟩ =>
      some (reject opts (destroySocket (s.update k ({ · with flow := .ended }))) k
        ⟨reconnection, socket, settled, .awaits stage listener⟩)
    | _ => none
  | .error k => match s.attempts[k]? with
    | some a =>
      if a.socket = .alive then
        let s := s.update k ({ · with socket := .errored })
        some (if s.connected then handleDisconnect opts s else reject opts s k a)
      else none
    | none => none
  | .close k => match s.attempts[k]? with
    | some a =>
      if a.socket = .gone then none
      else
        let s := s.update k ({ · with socket := .gone })
        some (if s.connected then handleDisconnect opts s else s)
    | none => none
  | .refreshIdle =>
    if s.idleRefreshTimer then
      let s := { s with idleRefreshTimer := false }
      some (if s.idling && s.connected then { s with idling := false, refreshes := s.refreshes ++ [.sleep] } else s)
    else none
  | .slept i => match s.refreshes[i]? with
    | some .sleep => some { s with refreshes := put s.refreshes i (some (.noop s.socket)) }
    | _ => none
  | .refreshed i => match s.refreshes[i]? with
    | some (.noop socket) => if s.hears socket then some (startIdle { s with refreshes := put s.refreshes i none }) else none
    | _ => none
  | .refreshFailed i => match s.refreshes[i]? with
    | some (.noop _) => some (handleDisconnect opts { s with refreshes := put s.refreshes i none })
    | _ => none

def St.init : St := ⟨false, false, false, [], none, 0, [], false, [], 0⟩

def machine (opts : ImapClientOptions) : System St Ev := ⟨St.init, step opts⟩

def view : View St Ev where
  attempts s := s.attempts.length
  connected s := s.connected
  asks e := e == .connect

/-! ## What can still come to its end -/

/-- Whether a flow can, while the client keeps its socket. -/
def St.finishes (s : St) : Flow → Bool
  | .awaits .selectInbox socket => s.hears socket
  | .awaits _ socket => s.hears socket && s.hears s.socket
  | .answered .selectInbox => true
  | .answered _ => s.hears s.socket
  | .ended => false

/-- Whether it can once that socket is destroyed. -/
def St.finishesWithout (s : St) : Flow → Bool
  | .awaits .selectInbox socket => s.hears socket && socket != s.socket
  | .answered .selectInbox => true
  | _ => false

/-- No reconnection is pending, and no flow can come to its end: while a LOGOUT is awaited, when
    the client is connected, and with its socket destroyed, when it is not. -/
def Settled (s : St) : Prop :=
  s.timers = [] ∧ ∀ a ∈ s.attempts, (if s.connected then s.finishes a.flow else s.finishesWithout a.flow) = false

structure Silent (s : St) : Prop where
  stopping : s.stopping = true
  timers : s.timers = []
  flows : ∀ a ∈ s.attempts, s.finishes a.flow = false

/-! ## Attempts -/

theorem mem_update {s : St} {k : Nat} {f : Attempt → Attempt} {a : Attempt} (h : a ∈ (s.update k f).attempts) :
    a ∈ s.attempts ∨ ∃ b, s.attempts[k]? = some b ∧ a = f b := by
  obtain ⟨i, hi⟩ := List.mem_iff_getElem?.mp h
  rw [St.update, List.getElem?_modify] at hi
  obtain ⟨b, hb, rfl⟩ := Option.map_eq_some_iff.mp hi
  by_cases hik : k = i
  · rw [if_pos hik]
    exact .inr ⟨b, hik ▸ hb, rfl⟩
  · rw [if_neg hik]
    exact .inl (List.mem_of_getElem? hb)

theorem hears_iff {s : St} {j : Option Nat} :
    s.hears j = true ↔ ∃ k a, j = some k ∧ s.attempts[k]? = some a ∧ a.socket = .alive := by
  cases j with
  | none => simp [St.hears]
  | some k => simp [St.hears, Option.any_eq_true]

theorem hears_update {s : St} {k : Nat} {f : Attempt → Attempt} (hf : ∀ a, (f a).socket = .alive → a.socket = .alive)
    {j : Option Nat} (h : (s.update k f).hears j = true) : s.hears j = true := by
  obtain ⟨i, a, rfl, hi, ha⟩ := hears_iff.mp h
  rw [St.update, List.getElem?_modify] at hi
  obtain ⟨b, hb, rfl⟩ := Option.map_eq_some_iff.mp hi
  refine hears_iff.mpr ⟨i, b, rfl, hb, ?_⟩
  split at ha
  · exact hf b ha
  · exact ha

/-- The flow of an attempt moves on, and its socket stays. -/
def St.moveTo (s : St) (k : Nat) (flow : Flow) : St := s.update k ({ · with flow := flow })

theorem hears_moveTo (s : St) (k : Nat) (flow : Flow) (j : Option Nat) : (s.moveTo k flow).hears j = s.hears j := by
  cases j with
  | none => rfl
  | some i =>
    simp only [St.moveTo, St.update, St.hears, Option.any_some, List.getElem?_modify]
    cases s.attempts[i]? with
    | none => rfl
    | some a =>
      dsimp only [Option.map_eq_map, Option.map_some, Option.any_some]
      split <;> rfl

theorem finishes_moveTo (s : St) (k : Nat) (flow f : Flow) : (s.moveTo k flow).finishes f = s.finishes f := by
  have hsocket : (s.moveTo k flow).socket = s.socket := rfl
  unfold St.finishes
  simp only [hears_moveTo, hsocket]

/-! ## Fading -/

/-- `t` has nothing that `s` has not. -/
structure Fades (s t : St) : Prop where
  stopping : t.stopping = s.stopping
  timers : t.timers = s.timers
  length : t.attempts.length = s.attempts.length
  connected : t.connected = true → s.connected = true
  hears : ∀ j, t.hears j = true → s.hears j = true
  socket : t.socket = s.socket ∨ t.socket = none
  flows : ∀ a ∈ t.attempts, a.flow = .ended ∨ ∃ b ∈ s.attempts, b.flow = a.flow

theorem Fades.trans {s t u : St} (h1 : Fades s t) (h2 : Fades t u) : Fades s u where
  stopping := h2.stopping.trans h1.stopping
  timers := h2.timers.trans h1.timers
  length := h2.length.trans h1.length
  connected h := h1.connected (h2.connected h)
  hears j h := h1.hears j (h2.hears j h)
  socket := by
    rcases h2.socket with h | h
    · exact h ▸ h1.socket
    · exact .inr h
  flows a ha := by
    rcases h2.flows a ha with h | ⟨b, hb, h⟩
    · exact .inl h
    · exact h ▸ h1.flows b hb

theorem fades_same {s t : St} (hstopping : t.stopping = s.stopping) (htimers : t.timers = s.timers)
    (hattempts : t.attempts = s.attempts)
    (hsocket : t.socket = s.socket) (hconnected : t.connected = true → s.connected = true) : Fades s t where
  stopping := hstopping
  timers := htimers
  length := congrArg List.length hattempts
  connected := hconnected
  hears j h := by
    unfold St.hears at h ⊢
    rw [← hattempts]
    exact h
  socket := .inl hsocket
  flows a ha := .inr ⟨a, hattempts ▸ ha, rfl⟩

theorem fades_update {k : Nat} {f : Attempt → Attempt} (hsocket : ∀ a, (f a).socket = .alive → a.socket = .alive)
    (hflow : ∀ a, (f a).flow = .ended ∨ (f a).flow = a.flow) (s : St) : Fades s (s.update k f) where
  stopping := rfl
  timers := rfl
  length := List.length_modify ..
  connected := id
  hears _ h := hears_update hsocket h
  socket := .inl rfl
  flows a ha := by
    rcases mem_update ha with ha | ⟨b, hb, rfl⟩
    · exact .inr ⟨a, ha, rfl⟩
    · rcases hflow b with h | h
      · exact .inl h
      · exact .inr ⟨b, List.mem_of_getElem? hb, h.symm⟩

theorem fades_destroySocket (s : St) : Fades s (destroySocket s) := by
  unfold destroySocket
  split
  · have h := fades_update (k := ‹Nat›) (f := ({ · with socket := .gone })) nofun (fun _ => .inr rfl) s
    exact ⟨h.stopping, h.timers, h.length, h.connected, h.hears, .inr rfl, h.flows⟩
  · exact fades_same rfl rfl rfl rfl id

theorem fades_handleDisconnect {opts : ImapClientOptions} {s : St} (h : s.stopping = true) :
    Fades s (handleDisconnect opts s) := by
  have hdown : Fades s { s with connected := false, idling := false, idleRefreshTimer := false } :=
    fades_same rfl rfl rfl rfl nofun
  have hfades := hdown.trans (fades_destroySocket _)
  unfold handleDisconnect
  dsimp only
  rw [if_pos (Bool.or_eq_true_iff.mpr (.inl (hfades.stopping.trans h)))]
  exact hfades

theorem fades_reject {opts : ImapClientOptions} {s : St} (h : s.stopping = true) (k : Nat) (a : Attempt) :
    Fades s (reject opts s k a) := by
  have hsettle : Fades s (s.update k ({ · with settled := true })) := by
    refine fades_update ?_ ?_ s
    · exact fun _ => id
    · exact fun _ => .inr rfl
  unfold reject
  split
  · exact hsettle.trans (fades_handleDisconnect (hsettle.stopping.trans h))
  · exact hsettle

theorem Fades.finishes {s t : St} (h : Fades s t) {f : Flow} (hf : t.finishes f = true) : s.finishes f = true := by
  have hown : t.hears t.socket = true → s.hears s.socket = true := by
    intro hears
    rcases h.socket with hs | hs
    · exact hs ▸ h.hears _ hears
    · rw [hs] at hears
      cases hears
  match f with
  | .awaits .selectInbox j => exact h.hears j hf
  | .awaits .waitForGreeting j | .awaits .authenticate j =>
    obtain ⟨hj, hs⟩ := Bool.and_eq_true_iff.mp hf
    exact Bool.and_eq_true_iff.mpr ⟨h.hears j hj, hown hs⟩
  | .answered .selectInbox => rfl
  | .answered .waitForGreeting | .answered .authenticate => exact hown hf

/-! ## Behind a disconnect -/

theorem Fades.silent {s t : St} (h : Fades s t) (hs : Silent s) : Silent t ∧ Quiet view s t := by
  refine ⟨⟨h.stopping.trans hs.stopping, h.timers.trans hs.timers, fun a ha => ?_⟩, h.length, h.connected⟩
  refine Bool.eq_false_iff.mpr fun hf => ?_
  rcases h.flows a ha with hend | ⟨b, hb, hflow⟩
  · rw [hend] at hf
    cases hf
  · have hfalse := hs.flows b hb
    rw [hflow, h.finishes hf] at hfalse
    cases hfalse

/-- A flow moves on, to where it cannot come to its end either. -/
theorem silent_moveTo {s : St} (hs : Silent s) {k : Nat} {flow : Flow} (hf : s.finishes flow = false) :
    Silent (s.moveTo k flow) ∧ Quiet view s (s.moveTo k flow) := by
  refine ⟨⟨hs.stopping, hs.timers, fun a ha => ?_⟩, List.length_modify .., id⟩
  rw [finishes_moveTo]
  rcases mem_update ha with ha | ⟨b, -, rfl⟩
  · exact hs.flows a ha
  · exact hf

theorem silent_step {opts : ImapClientOptions} {s t : St} {e : Ev} (hs : Silent s) (he : view.asks e = false)
    (h : step opts s e = some t) : Silent t ∧ Quiet view s t := by
  cases e with
  | connect => cases he
  | disconnect =>
    obtain rfl := Option.some.inj h
    refine Fades.silent ?_ hs
    have hsame : Fades s { s with stopping := true, idleRefreshTimer := false, idling := false } :=
      fades_same hs.stopping.symm rfl rfl rfl id
    unfold disconnect
    dsimp only
    split
    · exact hsame.trans (fades_same rfl rfl rfl rfl id)
    · exact hsame.trans (fades_destroySocket _)
  | loggedOut =>
    rw [step] at h
    split at h
    · obtain rfl := Option.some.inj h
      have hdestroy := fades_destroySocket s
      refine Fades.silent (hdestroy.trans ?_) hs
      exact fades_same rfl rfl rfl rfl nofun
    · cases h
  | reconnect i =>
    rw [step, hs.timers] at h
    cases h
  | answered k =>
    rw [step] at h
    split at h
    · rename_i stage j hk
      split at h
      · rename_i hj
        obtain rfl := Option.some.inj h
        refine silent_moveTo hs ?_
        have hflow := hs.flows _ (List.mem_of_getElem? hk)
        cases stage <;> simp_all [St.finishes]
      · cases h
    · cases h
  | continued k =>
    rw [step] at h
    split at h
    · rename_i stage hk
      obtain rfl := Option.some.inj h
      have hflow := hs.flows _ (List.mem_of_getElem? hk)
      cases stage with
      | waitForGreeting => exact silent_moveTo hs (Bool.and_eq_false_iff.mpr (.inl hflow))
      | authenticate => exact silent_moveTo hs hflow
      | selectInbox => cases hflow
    · cases h
  | refused k =>
    rw [step] at h
    split at h
    · obtain rfl := Option.some.inj h
      have hend : Fades s (s.update k ({ · with flow := .ended })) := by
        refine fades_update ?_ ?_ s
        · exact fun _ => id
        · exact fun _ => .inl rfl
      have hdestroy := hend.trans (fades_destroySocket _)
      exact (hdestroy.trans (fades_reject (hdestroy.stopping.trans hs.stopping) ..)).silent hs
    · cases h
  | error k =>
    rw [step] at h
    split at h
    · split at h
      · obtain rfl := Option.some.inj h
        have herror : Fades s (s.update k ({ · with socket := .errored })) := by
          refine fades_update ?_ ?_ s
          · exact nofun
          · exact fun _ => .inr rfl
        refine Fades.silent ?_ hs
        split
        · exact herror.trans (fades_handleDisconnect hs.stopping)
        · exact herror.trans (fades_reject (herror.stopping.trans hs.stopping) ..)
      · cases h
    · cases h
  | close k =>
    rw [step] at h
    split at h
    · split at h
      · cases h
      · obtain rfl := Option.some.inj h
        have hclose : Fades s (s.update k ({ · with socket := .gone })) := by
          refine fades_update ?_ ?_ s
          · exact nofun
          · exact fun _ => .inr rfl
        refine Fades.silent ?_ hs
        split
        · exact hclose.trans (fades_handleDisconnect hs.stopping)
        · exact hclose
    · cases h
  | refreshIdle =>
    rw [step] at h
    split at h
    · obtain rfl := Option.some.inj h
      refine Fades.silent ?_ hs
      dsimp only
      split
      · exact fades_same rfl rfl rfl rfl id
      · exact fades_same rfl rfl rfl rfl id
    · cases h
  | slept i =>
    rw [step] at h
    split at h
    · obtain rfl := Option.some.inj h
      refine Fades.silent ?_ hs
      exact fades_same rfl rfl rfl rfl id
    · cases h
  | refreshed i =>
    rw [step] at h
    split at h
    · split at h
      · obtain rfl := Option.some.inj h
        refine Fades.silent ?_ hs
        exact fades_same rfl rfl rfl rfl id
      · cases h
    · cases h
  | refreshFailed i =>
    rw [step] at h
    split at h
    · obtain rfl := Option.some.inj h
      have hsame : Fades s { s with refreshes := put s.refreshes i none } := fades_same rfl rfl rfl rfl id
      exact (hsame.trans (fades_handleDisconnect hs.stopping)).silent hs
    · cases h

/-! ## What is not final -/

/-- A `disconnect` is on its way, and sets `connected` to false. -/
def Leaving (s : St) : Prop := s.connected = true → 0 < s.logouts

def At (s : St) (k : Nat) (flow : Flow) : Prop := ∃ a, s.attempts[k]? = some a ∧ a.flow = flow

theorem at_moveTo {s : St} {k : Nat} {f : Flow} (h : At s k f) (g : Flow) : At (s.moveTo k g) k g := by
  obtain ⟨a, ha, -⟩ := h
  refine ⟨{ a with flow := g }, ?_, rfl⟩
  rw [St.moveTo, St.update, List.getElem?_modify_eq, ha]
  rfl

theorem at_destroySocket {s : St} {k : Nat} {f : Flow} (h : At s k f) : At (destroySocket s) k f := by
  obtain ⟨a, ha, hf⟩ := h
  unfold destroySocket
  split
  · rename_i j _
    refine ⟨if j = k then { a with socket := .gone } else a, ?_, ?_⟩
    · dsimp only [St.update]
      rw [List.getElem?_modify, ha]
      rfl
    · split <;> exact hf
  · exact ⟨a, ha, hf⟩

variable {opts : ImapClientOptions}

theorem step_answered {s : St} {k : Nat} {stage : Stage} {j : Option Nat} (h : At s k (.awaits stage j)) (hj : s.hears j = true) :
    (machine opts).step s (.answered k) = some (s.moveTo k (.answered stage)) := by
  obtain ⟨⟨reconnection, socket, settled, flow⟩, ha, hf⟩ := h
  obtain rfl : flow = .awaits stage j := hf
  simp only [machine, step, ha, hj]
  rfl

theorem step_continued {s : St} {k : Nat} {stage : Stage} (h : At s k (.answered stage)) :
    ∃ a, (machine opts).step s (.continued k) = some (proceed s k a stage) := by
  obtain ⟨⟨reconnection, socket, settled, flow⟩, ha, hf⟩ := h
  obtain rfl : flow = .answered stage := hf
  simp only [machine, step, ha]
  exact ⟨_, rfl⟩

/-- The flow sets `connected` behind the disconnect, which has set it to false. -/
theorem not_final_selected {s : St} {k : Nat} (hl : Leaving s) (hk : At s k (.answered .selectInbox)) :
    ¬ Final (machine opts) view s := by
  have hdown : ∀ t, At t k (.answered .selectInbox) → t.connected = false → ¬ Final (machine opts) view t := by
    intro t ht hconnected hfinal
    obtain ⟨a, hstep⟩ := step_continued ht
    have hup : (proceed t k a .selectInbox).connected = true := by
      unfold proceed
      dsimp only
      split <;> rfl
    have hquiet := (hfinal.quiet rfl hstep).2 hup
    exact absurd (hconnected.symm.trans hquiet) Bool.false_ne_true
  cases hconnected : s.connected with
  | false => exact hdown s hk hconnected
  | true =>
    intro hfinal
    have hstep : (machine opts).step s .loggedOut =
        some { destroySocket s with connected := false, logouts := s.logouts - 1 } := if_pos (hl hconnected)
    refine hdown _ ?_ rfl (hfinal.step rfl hstep)
    exact at_destroySocket hk

theorem not_final_awaits {s : St} {k : Nat} {stage : Stage} {j : Option Nat} (hk : At s k (.awaits stage j))
    (hj : s.hears j = true)
    (hnext : ¬ Final (machine opts) view (s.moveTo k (.answered stage))) : ¬ Final (machine opts) view s :=
  fun hfinal => hnext (hfinal.step rfl (step_answered hk hj))

theorem not_final_select {s : St} {k : Nat} {j : Option Nat} (hl : Leaving s) (hk : At s k (.awaits .selectInbox j))
    (hj : s.hears j = true) : ¬ Final (machine opts) view s :=
  not_final_awaits hk hj (not_final_selected hl (at_moveTo hk _))

theorem not_final_authenticated {s : St} {k : Nat} (hl : Leaving s) (hk : At s k (.answered .authenticate))
    (hs : s.hears s.socket = true) : ¬ Final (machine opts) view s := by
  intro hfinal
  obtain ⟨a, hstep⟩ := step_continued hk
  have hears : (s.moveTo k (.awaits .selectInbox s.socket)).hears s.socket = true := by
    rw [hears_moveTo]
    exact hs
  refine not_final_select ?_ (at_moveTo hk _) hears (hfinal.step rfl hstep)
  exact hl

theorem not_final_greeted {s : St} {k : Nat} (hl : Leaving s) (hk : At s k (.answered .waitForGreeting))
    (hs : s.hears s.socket = true) : ¬ Final (machine opts) view s := by
  intro hfinal
  obtain ⟨a, hstep⟩ := step_continued hk
  have hears : (s.moveTo k (.awaits .authenticate s.socket)).hears s.socket = true := by
    rw [hears_moveTo]
    exact hs
  refine not_final_awaits (at_moveTo hk _) hears ?_ (hfinal.step rfl hstep)
  refine not_final_authenticated hl (at_moveTo (at_moveTo hk _) _) ?_
  rw [hears_moveTo]
  exact hears

theorem not_final_of_finishes {s : St} {k : Nat} {flow : Flow} (hl : Leaving s) (hk : At s k flow) (hf : s.finishes flow = true) :
    ¬ Final (machine opts) view s := by
  match flow with
  | .answered .selectInbox => exact not_final_selected hl hk
  | .awaits .selectInbox j => exact not_final_select hl hk hf
  | .answered .authenticate => exact not_final_authenticated hl hk hf
  | .awaits .authenticate j =>
    obtain ⟨hj, hs⟩ := Bool.and_eq_true_iff.mp hf
    refine not_final_awaits hk hj (not_final_authenticated hl (at_moveTo hk _) ?_)
    rw [hears_moveTo]
    exact hs
  | .answered .waitForGreeting => exact not_final_greeted hl hk hf
  | .awaits .waitForGreeting j =>
    obtain ⟨hj, hs⟩ := Bool.and_eq_true_iff.mp hf
    refine not_final_awaits hk hj (not_final_greeted hl (at_moveTo hk _) ?_)
    rw [hears_moveTo]
    exact hs

theorem final_iff_silent {s : St} (hstopping : s.stopping = true) (hl : Leaving s) : Final (machine opts) view s ↔ Silent s := by
  constructor
  · intro hfinal
    refine ⟨hstopping, ?_, fun a ha => Bool.eq_false_iff.mpr fun hf => ?_⟩
    · refine List.eq_nil_iff_length_eq_zero.mpr (Nat.eq_zero_of_not_pos fun hpos => ?_)
      have hstep : (machine opts).step s (.reconnect 0) = some (doConnect true { s with timers := s.timers.eraseIdx 0 }) :=
        if_pos hpos
      have hquiet := (hfinal.quiet rfl hstep).1
      simp [view, doConnect] at hquiet
    · obtain ⟨k, hk⟩ := List.mem_iff_getElem?.mp ha
      exact not_final_of_finishes hl ⟨a, hk, rfl⟩ hf hfinal
  · exact Final.of_closed fun _ _ _ hs he hst => silent_step hs he hst

/-! ## The disconnect -/

theorem hears_destroySocket (s : St) (j : Option Nat) : (destroySocket s).hears j = (s.hears j && j != s.socket) := by
  cases j with
  | none => rfl
  | some i =>
    unfold destroySocket
    split
    · rename_i k hk
      simp only [St.hears, St.update, Option.any_some, List.getElem?_modify, hk]
      cases s.attempts[i]? with
      | none => rfl
      | some a =>
        by_cases hik : k = i
        · simp [hik]
        · simp [hik, Ne.symm hik]
    · rename_i hnone
      simp [hnone]

theorem finishes_destroySocket (s : St) (f : Flow) : (destroySocket s).finishes f = s.finishesWithout f := by
  have hown : (destroySocket s).hears (destroySocket s).socket = false := by
    have hsocket : (destroySocket s).socket = none := by
      unfold destroySocket
      split
      · rfl
      · assumption
    rw [hsocket]
    rfl
  match f with
  | .awaits .selectInbox j => exact hears_destroySocket s j
  | .awaits .waitForGreeting j | .awaits .authenticate j => simp [St.finishes, St.finishesWithout, hown]
  | .answered .selectInbox => rfl
  | .answered .waitForGreeting | .answered .authenticate => exact hown
  | .ended => rfl

theorem disconnect_silent_iff (s : St) : Silent (disconnect s) ↔ Settled s := by
  cases hconnected : s.connected with
  | true =>
    have hafter : disconnect s =
        { s with stopping := true, idleRefreshTimer := false, idling := false, logouts := s.logouts + 1 } :=
      if_pos hconnected
    rw [hafter, Settled, hconnected]
    exact ⟨fun h => ⟨h.timers, h.flows⟩, fun h => ⟨rfl, h.1, h.2⟩⟩
  | false =>
    have hafter : disconnect s = destroySocket { s with stopping := true, idleRefreshTimer := false, idling := false } :=
      if_neg (Bool.eq_false_iff.mp hconnected)
    have hsettled : Settled s ↔ s.timers = [] ∧ ∀ a ∈ s.attempts, s.finishesWithout a.flow = false := by
      rw [Settled, hconnected]
      rfl
    have hfades := fades_destroySocket { s with stopping := true, idleRefreshTimer := false, idling := false }
    rw [hafter, hsettled]
    constructor
    · intro h
      refine ⟨hfades.timers.symm.trans h.timers, fun a ha => ?_⟩
      obtain ⟨k, hk⟩ := List.mem_iff_getElem?.mp ha
      have hat : At { s with stopping := true, idleRefreshTimer := false, idling := false } k a.flow := ⟨a, hk, rfl⟩
      obtain ⟨b, hb, hflow⟩ := at_destroySocket hat
      have hsilent := h.flows b (List.mem_of_getElem? hb)
      rw [finishes_destroySocket, hflow] at hsilent
      exact hsilent
    · intro h
      refine ⟨hfades.stopping, hfades.timers.trans h.1, fun a ha => ?_⟩
      rw [finishes_destroySocket]
      rcases hfades.flows a ha with hend | ⟨b, hb, hflow⟩
      · rw [hend]
        rfl
      · rw [← hflow]
        exact h.2 b hb

/-- In every run from a disconnect to the next connect no attempt is begun and the client does not
    become connected, just if no reconnection was pending and no flow could come to its end. -/
theorem disconnect_final_iff {s t : St} (h : step opts s .disconnect = some t) : Final (machine opts) view t ↔ Settled s := by
  obtain rfl := Option.some.inj h
  rw [← disconnect_silent_iff]
  refine final_iff_silent ?_ ?_
  · unfold disconnect
    dsimp only
    split
    · rfl
    · exact (fades_destroySocket _).stopping
  · intro hup
    unfold disconnect at hup ⊢
    dsimp only at hup ⊢
    split
    · exact Nat.succ_pos _
    · rename_i hdown
      rw [if_neg hdown] at hup
      exact absurd ((fades_destroySocket _).connected hup) hdown

/-! ## Runs -/

def ImapClientOptions.default : ImapClientOptions := ⟨true, 0, 5000⟩

instance decidableSettled (s : St) : Decidable (Settled s) := inferInstanceAs (Decidable (_ ∧ _))

/-- A connect that is answered three times. -/
def connected : List Ev := [.connect, .answered 0, .continued 0, .answered 0, .continued 0, .answered 0, .continued 0]

theorem connected_settled : ∃ s, Reach (machine .default) Free s ∧ Settled s := by
  obtain ⟨s, hs, hsettled⟩ := reach_any (M := machine .default) (C := Free) (P := fun s => s.connected && decide (Settled s))
    connected (meets_free ..) (by decide)
  exact ⟨s, hs, of_decide_eq_true (Bool.and_eq_true_iff.mp hsettled).2⟩

/-- The socket errors, and a reconnection is pending. -/
theorem failed_pending : ∃ s, Reach (machine .default) Free s ∧ ¬ Settled s := by
  obtain ⟨s, hs, htimers⟩ := reach_any (M := machine .default) (C := Free) (P := fun s => decide (s.timers = [5000]))
    (connected ++ [.error 0]) (meets_free ..) (by decide)
  refine ⟨s, hs, fun hsettled => ?_⟩
  have hnone := hsettled.1
  rw [of_decide_eq_true htimers] at hnone
  cases hnone

end FlowHelm.Channels.Imap
