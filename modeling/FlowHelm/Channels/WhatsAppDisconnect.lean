/-
  FlowHelm.Channels.WhatsAppDisconnect — what `WhatsAppAdapter` and `BaileysTransport` still do once
  `disconnect` has been called (src/channels/whatsapp/adapter.ts, transport.ts), and with
  `ImapIdleClient` beside them.

  A socket emits an open at most and one close; `end` makes it emit the close, now or later. Each
  close has the adapter set a timer, and `reconnectTimer` is the newest of them. A `connect` makes
  its socket behind two awaits.

  - `disconnect_final`: a disconnect is final just if nothing is left, in either client, that
    connects, or that a close is still to come of.
  - `a_disconnect_is_not_final`, `a_disconnect_is_final`: of either client.
-/
import FlowHelm.Channels.ImapDisconnect

namespace FlowHelm.Channels.WhatsApp

open Finality Parties Runs

structure WhatsAppAdapterOptions where
  maxReconnectAttempts : Nat
  reconnectBaseDelay : Nat
  reconnectMaxDelay : Nat

inductive TransportConnectionState where
  | disconnected
  | connecting
  | connected
  deriving DecidableEq, Repr

inductive Socket where
  | connecting
  | connected
  /-- `end` has been called, and the close has not come. -/
  | ending
  | closed
  deriving DecidableEq, Repr

/-- What a `connect` awaits. -/
inductive Connecting where
  | mkdir
  | useVaultAuthState
  deriving DecidableEq, Repr

structure St where
  state : TransportConnectionState
  /-- Of every `makeWASocket`; closed is that of one that threw. -/
  sockets : List Socket
  /-- The transport's. -/
  socket : Option Nat
  authState : Bool
  connects : List Connecting
  /-- Of every timer, its delay while it is pending. -/
  timers : List (Option Nat)
  reconnectTimer : Option Nat
  reconnectAttempts : Nat
  deriving DecidableEq

inductive Ev where
  | connect
  | disconnect
  /-- What the `i`th connect awaits. -/
  | directory (i : Nat)
  | credentials (i : Nat) (made : Bool)
  | refused (i : Nat)
  /-- The `k`th timer. -/
  | reconnect (k : Nat) (made : Bool)
  /-- The `i`th socket. -/
  | opened (i : Nat)
  | closed (i : Nat)
  deriving DecidableEq

/-! ## The transport and the adapter -/

/-- `socket.end`. -/
def Socket.finish : Socket → Socket
  | .closed => .closed
  | _ => .ending

def transportConnect (made : Bool) (s : St) : St :=
  if made then { s with state := .connecting, sockets := s.sockets ++ [.connecting], socket := some s.sockets.length }
  else { s with state := .connecting, sockets := s.sockets ++ [.closed] }

def handleReconnection (opts : WhatsAppAdapterOptions) (s : St) : St :=
  if s.authState then
    let s := { s with reconnectAttempts := s.reconnectAttempts + 1 }
    if 0 < opts.maxReconnectAttempts ∧ opts.maxReconnectAttempts < s.reconnectAttempts then s
    else { s with
      timers := s.timers ++ [some (min (opts.reconnectBaseDelay * 2 ^ (s.reconnectAttempts - 1)) opts.reconnectMaxDelay)],
      reconnectTimer := some s.timers.length }
  else s

def reconnect (opts : WhatsAppAdapterOptions) (made : Bool) (s : St) : St :=
  if s.authState then if made then transportConnect made s else handleReconnection opts (transportConnect made s)
  else s

def clearReconnectTimer (s : St) : St := match s.reconnectTimer with
  | some k => { s with timers := s.timers.set k none, reconnectTimer := none }
  | none => s

def transportDisconnect (s : St) : St := match s.socket with
  | some i => { s with state := .disconnected, sockets := s.sockets.modify i Socket.finish, socket := none }
  | none => { s with state := .disconnected }

def disconnect (s : St) : St := transportDisconnect (clearReconnectTimer s)

def step (opts : WhatsAppAdapterOptions) (s : St) : Ev → Option St
  | .connect => some { s with connects := s.connects ++ [.mkdir] }
  | .disconnect => some (disconnect s)
  | .directory i => match s.connects[i]? with
    | some .mkdir => some { s with connects := put s.connects i (some .useVaultAuthState) }
    | _ => none
  | .credentials i made => match s.connects[i]? with
    | some .useVaultAuthState => some (transportConnect made { s with authState := true, connects := put s.connects i none })
    | _ => none
  | .refused i => match s.connects[i]? with
    | some _ => some { s with connects := put s.connects i none }
    | none => none
  | .reconnect k made => match s.timers[k]? with
    | some (some _) => some (reconnect opts made { s with timers := s.timers.set k none })
    | _ => none
  | .opened i => match s.sockets[i]? with
    | some .connecting => some { s with state := .connected, sockets := s.sockets.set i .connected, reconnectAttempts := 0 }
    | _ => none
  | .closed i => match s.sockets[i]? with
    | some socket =>
      if socket = .closed then none
      else some (handleReconnection opts { s with state := .disconnected, sockets := s.sockets.set i .closed })
    | none => none

def St.init : St := ⟨.disconnected, [], none, false, [], [], none, 0⟩

def machine (opts : WhatsAppAdapterOptions) : System St Ev := ⟨St.init, step opts⟩

def view : View St Ev where
  attempts s := s.sockets.length
  connected s := s.state == .connected
  asks e := e == .connect

/-! ## The condition -/

/-- The next close is the one that is given up on. -/
def Exhausted (opts : WhatsAppAdapterOptions) (s : St) : Prop :=
  0 < opts.maxReconnectAttempts ∧ opts.maxReconnectAttempts ≤ s.reconnectAttempts

/-- No connect is on its way, no timer is pending but the adapter's and no socket is connecting but
    the transport's; and every socket is closed, unless the next close is given up on. -/
structure Settled (opts : WhatsAppAdapterOptions) (s : St) : Prop where
  connects : s.connects = []
  timers : ∀ k delay, s.timers[k]? = some (some delay) → s.reconnectTimer = some k
  sockets : ∀ i, s.sockets[i]? = some .connecting → s.socket = some i
  closed : (∀ c ∈ s.sockets, c = .closed) ∨ Exhausted opts s

structure Silent (opts : WhatsAppAdapterOptions) (s : St) : Prop where
  connects : s.connects = []
  timers : ∀ delay, some delay ∉ s.timers
  sockets : .connecting ∉ s.sockets
  closed : (∀ c ∈ s.sockets, c = .closed) ∨ Exhausted opts s

variable {opts : WhatsAppAdapterOptions}

/-! ## The disconnect -/

theorem clearReconnectTimer_eq (s : St) : ∃ timers, clearReconnectTimer s = { s with timers := timers, reconnectTimer := none } ∧
    ∀ k, timers[k]? = if s.reconnectTimer = some k then s.timers[k]?.map fun _ => none else s.timers[k]? := by
  unfold clearReconnectTimer
  split
  · rename_i j hj
    refine ⟨_, rfl, fun k => ?_⟩
    simp only [hj, Option.some.injEq, List.getElem?_set]
    by_cases hjk : j = k
    · subst hjk
      by_cases hlt : j < s.timers.length
      · simp [hlt]
      · simp [hlt]
    · simp [hjk]
  · rename_i hnone
    exact ⟨s.timers, by rw [← hnone], fun k => by simp [hnone]⟩

theorem transportDisconnect_eq (s : St) :
    ∃ sockets, transportDisconnect s = { s with state := .disconnected, sockets := sockets, socket := none } ∧
    sockets.length = s.sockets.length ∧
    ∀ i, sockets[i]? = if s.socket = some i then s.sockets[i]?.map Socket.finish else s.sockets[i]? := by
  unfold transportDisconnect
  split
  · rename_i j hj
    refine ⟨_, rfl, List.length_modify .., fun i => ?_⟩
    simp only [hj, Option.some.injEq, List.getElem?_modify]
    by_cases hji : j = i
    · simp [hji]
    · simp [hji]
  · rename_i hnone
    exact ⟨s.sockets, by rw [← hnone], rfl, fun i => by simp [hnone]⟩

theorem disconnect_eq (s : St) : ∃ timers sockets, disconnect s =
      { s with state := .disconnected, timers := timers, reconnectTimer := none, sockets := sockets, socket := none } ∧
    (∀ k, timers[k]? = if s.reconnectTimer = some k then s.timers[k]?.map fun _ => none else s.timers[k]?) ∧
    sockets.length = s.sockets.length ∧
    ∀ i, sockets[i]? = if s.socket = some i then s.sockets[i]?.map Socket.finish else s.sockets[i]? := by
  obtain ⟨timers, hclear, htimers⟩ := clearReconnectTimer_eq s
  obtain ⟨sockets, hafter, hlength, hsockets⟩ := transportDisconnect_eq { s with timers := timers, reconnectTimer := none }
  refine ⟨timers, sockets, ?_, htimers, hlength, hsockets⟩
  rw [disconnect, hclear, hafter]

theorem finish_ne_connecting (c : Socket) : c.finish ≠ .connecting := by
  cases c <;> decide

theorem finish_eq_closed {c : Socket} : c.finish = .closed ↔ c = .closed := by
  cases c <;> decide

/-- A socket is closed behind the disconnect just if it was. -/
theorem closed_iff {s : St} {sockets : List Socket}
    (h : ∀ i, sockets[i]? = if s.socket = some i then s.sockets[i]?.map Socket.finish else s.sockets[i]?) :
    (∀ c ∈ sockets, c = .closed) ↔ ∀ c ∈ s.sockets, c = .closed := by
  constructor
  · intro hall c hc
    obtain ⟨i, hi⟩ := List.mem_iff_getElem?.mp hc
    have hafter := h i
    rw [hi] at hafter
    split at hafter
    · exact finish_eq_closed.mp (hall _ (List.mem_of_getElem? hafter))
    · exact hall _ (List.mem_of_getElem? hafter)
  · intro hall c hc
    obtain ⟨i, hi⟩ := List.mem_iff_getElem?.mp hc
    rw [h i] at hi
    split at hi
    · obtain ⟨b, hb, rfl⟩ := Option.map_eq_some_iff.mp hi
      exact finish_eq_closed.mpr (hall _ (List.mem_of_getElem? hb))
    · exact hall _ (List.mem_of_getElem? hi)

theorem disconnect_silent_iff (s : St) : Silent opts (disconnect s) ↔ Settled opts s := by
  obtain ⟨timers, sockets, hafter, htimers, -, hsockets⟩ := disconnect_eq s
  rw [hafter]
  constructor
  · intro h
    refine ⟨h.connects, fun k delay hk => ?_, fun i hi => ?_, h.closed.imp_left (closed_iff hsockets).mp⟩
    · refine Classical.byContradiction fun hne => ?_
      have hstays := htimers k
      rw [if_neg hne, hk] at hstays
      exact h.timers delay (List.mem_of_getElem? hstays)
    · refine Classical.byContradiction fun hne => ?_
      have hstays := hsockets i
      rw [if_neg hne, hi] at hstays
      exact h.sockets (List.mem_of_getElem? hstays)
  · intro h
    refine ⟨h.connects, fun delay hdelay => ?_, fun hconnecting => ?_, h.closed.imp_left (closed_iff hsockets).mpr⟩
    · obtain ⟨k, hk⟩ := List.mem_iff_getElem?.mp hdelay
      rw [htimers k] at hk
      split at hk
      · obtain ⟨-, -, hnone⟩ := Option.map_eq_some_iff.mp hk
        cases hnone
      · rename_i hne
        exact hne (h.timers k delay hk)
    · obtain ⟨i, hi⟩ := List.mem_iff_getElem?.mp hconnecting
      rw [hsockets i] at hi
      split at hi
      · obtain ⟨c, -, hfinish⟩ := Option.map_eq_some_iff.mp hi
        exact finish_ne_connecting c hfinish
      · rename_i hne
        exact hne (h.sockets i hi)

/-! ## Behind it -/

theorem settled_of_silent {s : St} (h : Silent opts s) : Settled opts s where
  connects := h.connects
  timers _ delay hk := absurd (List.mem_of_getElem? hk) (h.timers delay)
  sockets _ hi := absurd (List.mem_of_getElem? hi) h.sockets
  closed := h.closed

/-- The close that is given up on sets no timer. -/
theorem handleReconnection_exhausted {s : St} (h : Exhausted opts s) :
    ∃ n, s.reconnectAttempts ≤ n ∧ handleReconnection opts s = { s with reconnectAttempts := n } := by
  unfold handleReconnection
  split
  · refine ⟨s.reconnectAttempts + 1, Nat.le_succ _, if_pos ⟨h.1, ?_⟩⟩
    exact Nat.lt_succ_of_le h.2
  · exact ⟨s.reconnectAttempts, Nat.le_refl _, rfl⟩

theorem silent_step {s t : St} {e : Ev} (hs : Silent opts s) (he : view.asks e = false) (h : step opts s e = some t) :
    Silent opts t ∧ Quiet view s t := by
  cases e with
  | connect => cases he
  | disconnect =>
    obtain rfl := Option.some.inj h
    refine ⟨(disconnect_silent_iff s).mpr (settled_of_silent hs), ?_⟩
    obtain ⟨timers, sockets, hafter, -, hlength, -⟩ := disconnect_eq s
    rw [hafter]
    exact ⟨hlength, nofun⟩
  | directory i =>
    rw [step, hs.connects] at h
    cases h
  | credentials i made =>
    rw [step, hs.connects] at h
    cases h
  | refused i =>
    rw [step, hs.connects] at h
    cases h
  | reconnect k made =>
    rw [step] at h
    split at h
    · rename_i delay hk
      exact absurd (List.mem_of_getElem? hk) (hs.timers delay)
    · cases h
  | opened i =>
    rw [step] at h
    split at h
    · rename_i hi
      exact absurd (List.mem_of_getElem? hi) hs.sockets
    · cases h
  | closed i =>
    rw [step] at h
    split at h
    · rename_i c hi
      split at h
      · cases h
      · rename_i hlive
        obtain rfl := Option.some.inj h
        have hexhausted : Exhausted opts s := hs.closed.resolve_left fun hall => hlive (hall c (List.mem_of_getElem? hi))
        obtain ⟨n, hn, hgiven⟩ := handleReconnection_exhausted
          (s := { s with state := .disconnected, sockets := s.sockets.set i .closed }) hexhausted
        rw [hgiven]
        have hstill : Exhausted opts { s with reconnectAttempts := n } := ⟨hexhausted.1, Nat.le_trans hexhausted.2 hn⟩
        refine ⟨⟨hs.connects, hs.timers, fun hmem => ?_, .inr hstill⟩, List.length_set .., nofun⟩
        rcases List.mem_or_eq_of_mem_set hmem with hmem | heq
        · exact hs.sockets hmem
        · cases heq
    · cases h

/-! ## What is not final -/

/-- There are credentials behind every timer and every socket. -/
def Known (s : St) : Prop := s.timers ≠ [] ∨ s.sockets ≠ [] → s.authState = true

theorem known_of_authState {s t : St} (h : s.authState = true) (ht : t.authState = s.authState) : Known t := fun _ => ht.trans h

theorem authState_handleReconnection (s : St) : (handleReconnection opts s).authState = s.authState := by
  unfold handleReconnection
  split
  · dsimp only
    split <;> rfl
  · rfl

theorem authState_reconnect (made : Bool) (s : St) : (reconnect opts made s).authState = s.authState := by
  unfold reconnect
  split
  · split
    · rename_i hmade
      rw [transportConnect, if_pos hmade]
    · rename_i hthrown
      rw [authState_handleReconnection, transportConnect, if_neg hthrown]
  · rfl

theorem known_step {s t : St} {e : Ev} (hs : Known s) (h : (machine opts).step s e = some t) : Known t := by
  change step opts s e = some t at h
  cases e with
  | connect =>
    obtain rfl := Option.some.inj h
    exact hs
  | disconnect =>
    obtain rfl := Option.some.inj h
    obtain ⟨timers, sockets, hafter, htimers, hlength, -⟩ := disconnect_eq s
    rw [hafter]
    refine fun hsome => hs (hsome.imp ?_ ?_)
    · intro hsome hnone
      refine hsome (List.eq_nil_iff_forall_not_mem.mpr fun d hd => ?_)
      obtain ⟨k, hk⟩ := List.mem_iff_getElem?.mp hd
      simp [htimers k, hnone] at hk
    · intro hsome hnone
      rw [hnone] at hlength
      exact hsome (List.eq_nil_of_length_eq_zero hlength)
  | directory i =>
    rw [step] at h
    split at h
    · obtain rfl := Option.some.inj h
      exact hs
    · cases h
  | credentials i made =>
    rw [step] at h
    split at h
    · obtain rfl := Option.some.inj h
      unfold transportConnect
      split
      · exact fun _ => rfl
      · exact fun _ => rfl
    · cases h
  | refused i =>
    rw [step] at h
    split at h
    · obtain rfl := Option.some.inj h
      exact hs
    · cases h
  | reconnect k made =>
    rw [step] at h
    split at h
    · rename_i delay hk
      obtain rfl := Option.some.inj h
      have hauth := hs (.inl (List.ne_nil_of_mem (List.mem_of_getElem? hk)))
      exact known_of_authState hauth (authState_reconnect ..)
    · cases h
  | opened i =>
    rw [step] at h
    split at h
    · rename_i hi
      obtain rfl := Option.some.inj h
      have hauth := hs (.inr (List.ne_nil_of_mem (List.mem_of_getElem? hi)))
      exact fun _ => hauth
    · cases h
  | closed i =>
    rw [step] at h
    split at h
    · rename_i c hi
      split at h
      · cases h
      · obtain rfl := Option.some.inj h
        have hauth := hs (.inr (List.ne_nil_of_mem (List.mem_of_getElem? hi)))
        exact known_of_authState hauth (authState_handleReconnection ..)
    · cases h

theorem known_of_reach {s : St} (h : Reach (machine opts) Free s) : Known s := by
  refine h.inv ?_ fun s e t _ hs _ hst => known_step hs hst
  intro hsome
  rcases hsome with hsome | hsome
  · exact absurd rfl hsome
  · exact absurd rfl hsome

theorem not_final_timer {s : St} {k delay : Nat} (hs : Known s) (hk : s.timers[k]? = some (some delay)) :
    ¬ Final (machine opts) view s := by
  intro hfinal
  have hauth := hs (.inl (List.ne_nil_of_mem (List.mem_of_getElem? hk)))
  have hstep : (machine opts).step s (.reconnect k true) =
      some (transportConnect true { s with timers := s.timers.set k none }) := by
    simp only [machine, step, hk, reconnect, hauth]
    rfl
  have hlength := (hfinal.quiet rfl hstep).1
  simp [view, transportConnect] at hlength

theorem not_final_credentials {s : St} {rest : List Connecting} (h : s.connects = .useVaultAuthState :: rest) :
    ¬ Final (machine opts) view s := by
  intro hfinal
  have hstep : (machine opts).step s (.credentials 0 true) =
      some (transportConnect true { s with authState := true, connects := rest }) := by
    simp only [machine, step, h]
    rfl
  have hlength := (hfinal.quiet rfl hstep).1
  simp [view, transportConnect] at hlength

theorem not_final_connect {s : St} (h : s.connects ≠ []) : ¬ Final (machine opts) view s := by
  obtain ⟨c, rest, hc⟩ := List.exists_cons_of_ne_nil h
  cases c with
  | useVaultAuthState => exact not_final_credentials hc
  | mkdir =>
    intro hfinal
    have hstep : (machine opts).step s (.directory 0) = some { s with connects := .useVaultAuthState :: rest } := by
      simp only [machine, step, hc]
      rfl
    exact not_final_credentials rfl (hfinal.step rfl hstep)

theorem not_final_opened {s : St} {i : Nat} (hdown : s.state ≠ .connected) (hi : s.sockets[i]? = some .connecting) :
    ¬ Final (machine opts) view s := by
  intro hfinal
  have hstep : (machine opts).step s (.opened i) =
      some { s with state := .connected, sockets := s.sockets.set i .connected, reconnectAttempts := 0 } := by
    simp only [machine, step, hi]
  exact hdown (eq_of_beq ((hfinal.quiet rfl hstep).2 rfl))

/-- A close that is not given up on sets a timer. -/
theorem not_final_closed {s : St} {i : Nat} {c : Socket} (hs : Known s) (hi : s.sockets[i]? = some c) (hc : c ≠ .closed)
    (hmore : ¬ Exhausted opts s) : ¬ Final (machine opts) view s := by
  intro hfinal
  have hauth := hs (.inr (List.ne_nil_of_mem (List.mem_of_getElem? hi)))
  have hstep : (machine opts).step s (.closed i) =
      some (handleReconnection opts { s with state := .disconnected, sockets := s.sockets.set i .closed }) := by
    simp only [machine, step, hi, if_neg hc]
  have hgoes : ¬ (0 < opts.maxReconnectAttempts ∧ opts.maxReconnectAttempts < s.reconnectAttempts + 1) := by
    intro hgiven
    exact hmore ⟨hgiven.1, Nat.le_of_lt_succ hgiven.2⟩
  have hknown := known_step hs hstep
  have htimer :
      (handleReconnection opts { s with state := .disconnected, sockets := s.sockets.set i .closed }).timers[s.timers.length]? =
      some (some (min (opts.reconnectBaseDelay * 2 ^ s.reconnectAttempts) opts.reconnectMaxDelay)) := by
    unfold handleReconnection
    dsimp only
    rw [hauth, if_pos rfl, if_neg hgoes]
    simp
  exact not_final_timer hknown htimer (hfinal.step rfl hstep)

theorem final_iff_silent {s : St} (hs : Known s) (hdown : s.state ≠ .connected) :
    Final (machine opts) view s ↔ Silent opts s := by
  constructor
  · intro hfinal
    refine ⟨?_, fun delay hdelay => ?_, fun hconnecting => ?_, ?_⟩
    · exact Classical.byContradiction fun hconnects => not_final_connect hconnects hfinal
    · obtain ⟨k, hk⟩ := List.mem_iff_getElem?.mp hdelay
      exact not_final_timer hs hk hfinal
    · obtain ⟨i, hi⟩ := List.mem_iff_getElem?.mp hconnecting
      exact not_final_opened hdown hi hfinal
    · refine Classical.byContradiction fun hclosed => ?_
      obtain ⟨hlive, hmore⟩ := not_or.mp hclosed
      refine hlive fun c hc => Classical.byContradiction fun hne => ?_
      obtain ⟨i, hi⟩ := List.mem_iff_getElem?.mp hc
      exact not_final_closed hs hi hne hmore hfinal
  · exact Final.of_closed fun _ _ _ hs he hst => silent_step hs he hst

theorem disconnect_final_iff {s t : St} (hs : Known s) (h : (machine opts).step s .disconnect = some t) :
    Final (machine opts) view t ↔ Settled opts s := by
  have hknown := known_step hs h
  obtain rfl := Option.some.inj h
  rw [← disconnect_silent_iff]
  refine final_iff_silent hknown ?_
  obtain ⟨timers, sockets, hafter, -⟩ := disconnect_eq s
  rw [hafter]
  exact nofun

/-! ## Both clients -/

/-- From a disconnect to the next connect no attempt is begun and the client does not become
    connected, in any run, just if the client was settled when it was told to. -/
theorem disconnect_final (imap : Imap.ImapClientOptions) (whatsApp : WhatsAppAdapterOptions) :
    (∀ s t, Reach (Imap.machine imap) Free s → Imap.step imap s .disconnect = some t →
      (Final (Imap.machine imap) Imap.view t ↔ Imap.Settled s)) ∧
    ∀ s t, Reach (machine whatsApp) Free s → step whatsApp s .disconnect = some t →
      (Final (machine whatsApp) view t ↔ Settled whatsApp s) := by
  constructor
  · intro s t _ hst
    exact Imap.disconnect_final_iff hst
  · intro s t hs hst
    exact disconnect_final_iff (known_of_reach hs) hst

def WhatsAppAdapterOptions.default : WhatsAppAdapterOptions := ⟨0, 1000, 60000⟩

def connected : List Ev := [.connect, .directory 0, .credentials 0 true, .opened 0]

/-- The adapter's socket has closed, and its timer is pending. -/
def dropped : St := ⟨.disconnected, [.closed], some 0, true, [], [some 1000], some 0, 1⟩

theorem dropped_settled : Settled .default dropped where
  connects := rfl
  timers k delay hk := by
    cases k with
    | zero => rfl
    | succ k => cases hk
  sockets i hi := by
    cases i with
    | zero => cases hi
    | succ i => cases hi
  closed := .inl (by decide)

/-- An IMAP client that is connected, and an adapter whose timer is pending. -/
theorem a_disconnect_is_final :
    (∃ s t, Reach (Imap.machine .default) Free s ∧ Imap.step .default s .disconnect = some t ∧
      Final (Imap.machine .default) Imap.view t) ∧
    ∃ s t, Reach (machine .default) Free s ∧ step .default s .disconnect = some t ∧ Final (machine .default) view t := by
  constructor
  · obtain ⟨s, hs, hsettled⟩ := Imap.connected_settled
    exact ⟨s, _, hs, rfl, ((disconnect_final .default .default).1 s _ hs rfl).mpr hsettled⟩
  · obtain ⟨s, hs, hdropped⟩ := reach_any (M := machine .default) (C := Free) (P := fun s => decide (s = dropped))
      (connected ++ [.closed 0]) (meets_free ..) (by decide)
    obtain rfl := of_decide_eq_true hdropped
    exact ⟨dropped, _, hs, rfl, ((disconnect_final .default .default).2 dropped _ hs rfl).mpr dropped_settled⟩

/-- A timer that is pending connects the IMAP client again; the close of its own socket, the
    adapter. -/
theorem a_disconnect_is_not_final :
    (∃ s t, Reach (Imap.machine .default) Free s ∧ Imap.step .default s .disconnect = some t ∧
      ¬ Final (Imap.machine .default) Imap.view t) ∧
    ∃ s t, Reach (machine .default) Free s ∧ step .default s .disconnect = some t ∧ ¬ Final (machine .default) view t := by
  constructor
  · obtain ⟨s, hs, hpending⟩ := Imap.failed_pending
    exact ⟨s, _, hs, rfl, fun hfinal => hpending ((Imap.disconnect_final_iff rfl).mp hfinal)⟩
  · obtain ⟨s, hs, hsockets⟩ := reach_any (M := machine .default) (C := Free) (P := fun s => decide (s.sockets = [.connected]))
      connected (meets_free ..) (by decide)
    refine ⟨s, _, hs, rfl, fun hfinal => ?_⟩
    have hsettled := (disconnect_final_iff (known_of_reach hs) rfl).mp hfinal
    rcases hsettled.closed with hclosed | hexhausted
    · rw [of_decide_eq_true hsockets] at hclosed
      exact absurd (hclosed _ (List.mem_singleton_self _)) (by decide)
    · exact absurd hexhausted.1 (by decide)

end FlowHelm.Channels.WhatsApp
