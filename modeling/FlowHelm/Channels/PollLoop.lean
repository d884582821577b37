/-
  FlowHelm.Channels.PollLoop — `GrammyTransport`'s polling loop against Telegram
  (src/channels/telegram/transport.ts), with the adapter's chains beside it.

  Telegram keeps an update until a `getUpdates` call names a greater offset, and hands
  over unconfirmed updates in the order of their ids, which ascend. The loop keeps its
  offset in memory: it moves past an update when it hands it to the bot, awaits at most
  the bot's `getFile`, and calls `getUpdates` again; the adapter's chain of that update
  runs on by itself. A 409 is retried, any other failure of the call ends the loop until
  the adapter connects again (`reconnect`, in the same process, with the same offset).
  A crash can come at any point; the tables stay.

  - `confirmed_is_settled`: every confirmed update is in the queue or was discarded, in
    every run in which a `getUpdates` call finds no chain of an unqueued message under
    way, no statement of `handleInbound` and no `getFile` fails, and every message has
    text, a voice note or a photo.
  - `a_poll_overtakes_its_chain`: the next call confirms an update whose first statement
    has not come back; a crash then loses it.
-/
import FlowHelm.Channels.TelegramAdapter

namespace FlowHelm.Channels.PollLoop

open Js Orchestrator Parties Runs

/-! ## Telegram -/

structure Server where
  updates : List Update
  /-- The greatest offset a `getUpdates` call has named. -/
  confirmed : Nat
  ascending : updates.Pairwise fun u v => u.updateId < v.updateId

def Server.arrive (v : Server) (u : Update) : Option Server :=
  if h : ∀ w ∈ v.updates, w.updateId < u.updateId then
    some { v with
      updates := v.updates ++ [u]
      ascending := by
        rw [List.pairwise_append]
        refine ⟨v.ascending, List.pairwise_singleton _ _, ?_⟩
        intro w hw x hx
        obtain rfl := List.mem_singleton.mp hx
        exact h w hw }
  else none

def Server.confirm (v : Server) (offset : Nat) : Server := { v with confirmed := max v.confirmed offset }

/-- The updates from `low` on. -/
def above (low : Nat) (us : List Update) : List Update := us.filter fun u => decide (low ≤ u.updateId)

def Server.unconfirmed (v : Server) : List Update := above v.confirmed v.updates

/-! ## The loop -/

inductive Loop where
  | off
  | ready
  /-- `getUpdates` is awaited. -/
  | asking
  /-- The `for` over a batch; these are still to come. -/
  | handling (rest : List Update)
  /-- `ctx.getFile` is awaited, for the first of these. -/
  | fetching (media : Media) (caption : Option String) (u : Update) (rest : List Update)

/-- Behind an update: the next of the batch, or the next call. -/
def goOn : List Update → Loop
  | [] => .ready
  | u :: rest => .handling (u :: rest)

structure St where
  server : Server
  db : Db
  up : Bool
  pollOffset : Nat
  loop : Loop
  chains : List Chain
  /-- Ghost: the updates the access control or the `/start` rule discarded. -/
  discarded : List Update

inductive Ev where
  | arrive (u : Update)
  | connect
  | getUpdates
  | updates (n : Nat)
  | conflict
  | broken
  | reconnect
  | handleUpdate
  | getFile (filePath : Option String)
  | getFileFailed
  | settle (i : Nat) (o : Outcome) (uuid : String) (now : Nat)
  | served (u : Ingest.Served)
  | crash

/-- `handlers.onMessage`. -/
def onMessage (cfg : AdapterConfig) (s : St) (u : Update) (text caption : Option String) (media : Option Media)
    (filePath : Option String) : St :=
  match handleTransportMessage cfg u text caption media filePath with
  | some c => { s with chains := s.chains ++ [c] }
  | none => { s with discarded := s.discarded ++ [u] }

/-- The loop's body, up to its next await. -/
def handleUpdate (cfg : AdapterConfig) (s : St) (u : Update) (rest : List Update) : St :=
  let s := { s with pollOffset := u.updateId + 1 }
  match u.content with
  | .text text => onMessage cfg { s with loop := goOn rest } u (some text) none none none
  | .voice caption => { s with loop := .fetching .voice caption u rest }
  | .photo caption => { s with loop := .fetching .photo caption u rest }
  | .other => { s with loop := goOn rest }

def crashed (s : St) : St := { s with up := false, pollOffset := 0, loop := .off, chains := [] }

def step (cfg : AdapterConfig) (s : St) : Ev → Option St
  | .arrive u => (s.server.arrive u).map fun v => { s with server := v }
  | .connect => if s.up then none else some { s with up := true, pollOffset := 0, loop := .ready }
  | .getUpdates => match s.loop with
    | .ready => some { s with server := s.server.confirm s.pollOffset, loop := .asking }
    | _ => none
  | .updates n => match s.loop with
    | .asking => some { s with loop := goOn (s.server.unconfirmed.take n) }
    | _ => none
  | .conflict => match s.loop with
    | .asking => some { s with loop := .ready }
    | _ => none
  | .broken => match s.loop with
    | .asking => some { s with loop := .off }
    | _ => none
  | .reconnect => match s.loop with
    | .off => if s.up then some { s with loop := .ready } else none
    | _ => none
  | .handleUpdate => match s.loop with
    | .handling (u :: rest) => some (handleUpdate cfg s u rest)
    | _ => none
  | .getFile filePath => match s.loop with
    | .fetching media caption u rest =>
      some (onMessage cfg { s with loop := goOn rest } u none caption (some media) filePath)
    | _ => none
  | .getFileFailed => match s.loop with
    | .fetching _ _ _ rest => some { s with loop := goOn rest }
    | _ => none
  | .settle i o uuid now => match s.chains[i]? with
    | some c => (c.settle cfg uuid now s.db o).map fun
      | .goes c' db => { s with db := db, chains := put s.chains i c' }
      | .crashed => crashed s
    | none => none
  | .served u => some { s with db := Ingest.serve s.db u }
  | .crash => if s.up then some (crashed s) else none

def St.init : St := ⟨⟨[], 0, .nil⟩, .empty, false, 0, .off, [], []⟩

def machine (cfg : AdapterConfig) : System St Ev := ⟨St.init, step cfg⟩

/-! ## The condition -/

/-- What must not happen to a message that is not in the queue: a `getUpdates` call while
    its chain is under way, the rejection that loses it, a `getFile` that fails, a kind
    no handler takes. -/
def Careful (s : St) : Ev → Prop
  | .getUpdates => ∀ c ∈ s.chains, Queued s.db c.update
  | .settle i o _ _ => match s.chains[i]? with
    | some c => c.loses o = true → Queued s.db c.update
    | none => True
  | .handleUpdate => match s.loop with
    | .handling (u :: _) => u.content = .other → Queued s.db u
    | _ => True
  | .getFileFailed => match s.loop with
    | .fetching _ _ u _ => Queued s.db u
    | _ => True
  | _ => True

def Settled (s : St) (u : Update) : Prop := Queued s.db u ∨ u ∈ s.discarded

/-! ## The batch -/

/-- The updates of the batch the loop has not handed over yet. -/
def Loop.rest : Loop → List Update
  | .handling rest => rest
  | .fetching _ _ _ rest => rest
  | _ => []

@[simp] theorem goOn_rest (rest : List Update) : (goOn rest).rest = rest := by
  cases rest <;> rfl

def Loop.fetches (u : Update) : Loop → Prop
  | .fetching _ _ v _ => v = u
  | _ => False

theorem goOn_ne_asking (rest : List Update) : goOn rest ≠ .asking := by
  cases rest <;> exact nofun

/-- Behind the first update of a batch that skips none, the rest skips none. -/
theorem next_batch {low : Nat} {us rest : List Update} {u : Update}
    (hasc : us.Pairwise fun u v => u.updateId < v.updateId) (h : u :: rest <+: above low us) :
    rest <+: above (u.updateId + 1) us ∧ low ≤ u.updateId ∧
      ∀ v ∈ us, low ≤ v.updateId → v.updateId < u.updateId + 1 → v = u := by
  obtain ⟨tail, ht⟩ := h
  have hpair : (u :: (rest ++ tail)).Pairwise fun u v => u.updateId < v.updateId := by
    have : u :: (rest ++ tail) = above low us := ht
    rw [this]
    exact hasc.filter _
  have hgt := (List.pairwise_cons.mp hpair).1
  have hu : low ≤ u.updateId := by
    have hmem : u ∈ above low us := ht ▸ List.mem_cons_self
    simpa [above] using (List.mem_filter.mp hmem).2
  have habove : above (u.updateId + 1) us = rest ++ tail := by
    have htwice : above (u.updateId + 1) us = above (u.updateId + 1) (above low us) := by
      unfold above
      rw [List.filter_filter]
      refine List.filter_congr ?_
      intro x _
      by_cases hx : u.updateId + 1 ≤ x.updateId
      · have hxl : low ≤ x.updateId := by omega
        simp [hx, hxl]
      · simp [hx]
    rw [htwice, ← ht]
    unfold above
    rw [List.cons_append, List.filter_cons_of_neg (by simp)]
    refine List.filter_eq_self.mpr ?_
    intro x hx
    have := hgt x hx
    simp only [decide_eq_true_eq]
    omega
  refine ⟨habove ▸ List.prefix_append rest tail, hu, ?_⟩
  intro v hv hlow hlt
  have hmem : v ∈ u :: (rest ++ tail) := by
    have : v ∈ above low us := List.mem_filter.mpr ⟨hv, by simpa using hlow⟩
    rw [← ht] at this
    exact this
  rcases List.mem_cons.mp hmem with rfl | hmem
  · rfl
  · have := hgt v hmem
    omega

/-! ## Nothing is confirmed unsettled -/

/-- The offset below which no update will be handed over. -/
def St.low (s : St) : Nat := max s.pollOffset s.server.confirmed

structure Inv (s : St) : Prop where
  settled : ∀ u ∈ s.server.updates, u.updateId < s.server.confirmed → Settled s u
  /-- An update the loop is past is settled, has a chain, or has its file fetched. -/
  handed : ∀ u ∈ s.server.updates, u.updateId < s.pollOffset →
    Settled s u ∨ (∃ c ∈ s.chains, c.update = u) ∨ s.loop.fetches u
  batch : s.loop.rest <+: above s.low s.server.updates
  asked : s.loop = .asking → s.pollOffset ≤ s.server.confirmed
  /-- No offset is past the ids Telegram will give out. -/
  known : ∀ n, (∀ u ∈ s.server.updates, u.updateId < n) → s.low ≤ n

theorem init_inv : Inv St.init where
  settled _ hd := by cases hd
  handed _ hu := by cases hu
  batch := List.nil_prefix
  asked he := by cases he
  known n _ := Nat.zero_le n

theorem Settled.mono {s t : St} {u : Update} (hdb : ∀ u, Queued s.db u → Queued t.db u)
    (hd : ∀ u ∈ s.discarded, u ∈ t.discarded) (h : Settled s u) : Settled t u := by
  rcases h with h | h
  · exact Or.inl (hdb u h)
  · exact Or.inr (hd u h)

/-- With no file fetched, an update the loop is past is settled or has a chain. -/
theorem Inv.passed {s : St} {u : Update} (h : Inv s) (hf : ¬ s.loop.fetches u) (hu : u ∈ s.server.updates)
    (hlt : u.updateId < s.pollOffset) : Settled s u ∨ ∃ c ∈ s.chains, c.update = u := by
  rcases h.handed u hu hlt with hs | hc | hfe
  · exact Or.inl hs
  · exact Or.inr hc
  · exact absurd hfe hf

/-- The loop moves between its awaits, and nothing else does. -/
theorem loop_inv {s : St} {loop : Loop} (h : Inv s) (hf : ∀ u, ¬ s.loop.fetches u) (hr : loop.rest = [])
    (ha : loop ≠ .asking) : Inv { s with loop := loop } where
  settled := h.settled
  handed := fun u hu hlt => (h.passed (hf u) hu hlt).imp_right Or.inl
  batch := by
    show loop.rest <+: _
    rw [hr]
    exact List.nil_prefix
  asked := fun he => absurd he ha
  known := h.known

theorem crashed_inv {s : St} (h : Inv s) : Inv (crashed s) where
  settled := h.settled
  handed _ _ hlt := by cases hlt
  batch := List.nil_prefix
  asked he := by cases he
  known := by
    intro n hn
    have hlow := h.known n hn
    show max 0 s.server.confirmed ≤ n
    unfold St.low at hlow
    omega

theorem arrive_inv {s : St} {u : Update} {v : Server} (h : Inv s) (hv : s.server.arrive u = some v) :
    Inv { s with server := v } := by
  unfold Server.arrive at hv
  split at hv
  case isFalse => cases hv
  case isTrue hlt =>
    obtain rfl := Option.some.inj hv
    have hlow : s.low ≤ u.updateId := h.known _ hlt
    have hpoll : s.pollOffset ≤ s.low := Nat.le_max_left _ _
    have hconf : s.server.confirmed ≤ s.low := Nat.le_max_right _ _
    -- the new update is behind no offset, so only the old ones matter
    have hold : ∀ {w : Update} {n : Nat}, w ∈ s.server.updates ++ [u] → w.updateId < n → n ≤ s.low →
        w ∈ s.server.updates := by
      intro w n hw hwn hn
      rcases List.mem_append.mp hw with hw | hw
      · exact hw
      · obtain rfl := List.mem_singleton.mp hw
        omega
    refine ⟨?_, ?_, ?_, h.asked, ?_⟩
    · intro w hw hwn
      exact h.settled w (hold hw hwn hconf) hwn
    · intro w hw hwn
      exact h.handed w (hold hw hwn hpoll) hwn
    · have happ : above s.low (s.server.updates ++ [u]) = above s.low s.server.updates ++ above s.low [u] :=
        List.filter_append _ _
      show s.loop.rest <+: above s.low (s.server.updates ++ [u])
      rw [happ]
      exact h.batch.trans (List.prefix_append _ _)
    · intro n hn
      exact h.known n fun w hw => hn w (List.mem_append_left _ hw)

theorem getUpdates_inv {s : St} (h : Inv s) (hl : s.loop = .ready) (hc : Careful s .getUpdates) :
    Inv { s with server := s.server.confirm s.pollOffset, loop := .asking } where
  settled := by
    intro u hu hlt
    have hlt : u.updateId < max s.server.confirmed s.pollOffset := hlt
    by_cases hconf : u.updateId < s.server.confirmed
    · exact h.settled u hu hconf
    · rcases h.passed (by rw [hl]; exact id) hu (by omega) with hs | ⟨c, hcm, rfl⟩
      · exact hs
      · exact Or.inl (hc c hcm)
  handed := fun u hu hlt => (h.passed (by rw [hl]; exact id) hu hlt).imp_right Or.inl
  batch := List.nil_prefix
  asked := fun _ => Nat.le_max_right _ _
  known := by
    intro n hn
    have hlow := h.known n hn
    show max s.pollOffset (max s.server.confirmed s.pollOffset) ≤ n
    unfold St.low at hlow
    omega

theorem updates_inv {s : St} {n : Nat} (h : Inv s) (hl : s.loop = .asking) :
    Inv { s with loop := goOn (s.server.unconfirmed.take n) } where
  settled := h.settled
  handed := fun u hu hlt => (h.passed (by rw [hl]; exact id) hu hlt).imp_right Or.inl
  batch := by
    have hlow : s.low = s.server.confirmed := Nat.max_eq_right (h.asked hl)
    show (goOn _).rest <+: above s.low s.server.updates
    rw [goOn_rest, hlow]
    exact List.take_prefix n _
  asked := fun he => absurd he (goOn_ne_asking _)
  known := h.known

/-- The message of an update is discarded, or has a chain from here on. -/
theorem onMessage_settles (cfg : AdapterConfig) (s : St) (u : Update) (text caption : Option String)
    (media : Option Media) (filePath : Option String) :
    let t := onMessage cfg s u text caption media filePath
    (Settled t u ∨ ∃ c ∈ t.chains, c.update = u) ∧ t.server = s.server ∧ t.db = s.db ∧ t.pollOffset = s.pollOffset ∧
      t.loop = s.loop ∧ (∀ c ∈ s.chains, c ∈ t.chains) ∧ ∀ v ∈ s.discarded, v ∈ t.discarded := by
  unfold onMessage
  cases hm : handleTransportMessage cfg u text caption media filePath with
  | none =>
    refine ⟨Or.inl (Or.inr ?_), rfl, rfl, rfl, rfl, fun _ hc => hc, fun v hv => List.mem_append_left _ hv⟩
    exact List.mem_append_right _ (List.mem_singleton_self u)
  | some c =>
    have hcu : c.update = u := by
      unfold handleTransportMessage at hm
      simp only at hm
      split at hm
      · cases hm
      · split at hm
        · cases hm
        · cases hm; rfl
    refine ⟨Or.inr ⟨c, ?_, hcu⟩, rfl, rfl, rfl, rfl, fun d hd => List.mem_append_left _ hd, fun _ hv => hv⟩
    exact List.mem_append_right _ (List.mem_singleton_self c)

/-- An update passes from the loop's hands to the adapter's. -/
theorem onMessage_inv {cfg : AdapterConfig} {s : St} {u : Update} {text caption : Option String}
    {media : Option Media} {filePath : Option String}
    (hset : ∀ v ∈ s.server.updates, v.updateId < s.server.confirmed → Settled s v)
    (hhand : ∀ v ∈ s.server.updates, v.updateId < s.pollOffset →
      v = u ∨ Settled s v ∨ (∃ c ∈ s.chains, c.update = v) ∨ s.loop.fetches v)
    (hbatch : s.loop.rest <+: above s.low s.server.updates) (hask : s.loop ≠ .asking)
    (hknown : ∀ n, (∀ u ∈ s.server.updates, u.updateId < n) → s.low ≤ n) :
    Inv (onMessage cfg s u text caption media filePath) := by
  obtain ⟨hu, hserver, hdb, hpoll, hloop, hchains, hdisc⟩ := onMessage_settles cfg s u text caption media filePath
  have hlow : (onMessage cfg s u text caption media filePath).low = s.low := by rw [St.low, hpoll, hserver, St.low]
  have hmono : ∀ v, Settled s v → Settled (onMessage cfg s u text caption media filePath) v :=
    fun v => Settled.mono (fun w hw => hdb ▸ hw) hdisc
  refine ⟨?_, ?_, ?_, ?_, ?_⟩
  · intro v hv hlt
    rw [hserver] at hv hlt
    exact hmono v (hset v hv hlt)
  · intro v hv hlt
    rw [hserver] at hv
    rw [hpoll] at hlt
    rcases hhand v hv hlt with rfl | hs | ⟨c, hc, hcv⟩ | hf
    · exact hu.imp_right Or.inl
    · exact Or.inl (hmono v hs)
    · exact Or.inr (Or.inl ⟨c, hchains c hc, hcv⟩)
    · exact Or.inr (Or.inr (hloop ▸ hf))
  · rw [hloop, hlow, hserver]
    exact hbatch
  · intro he
    rw [hloop] at he
    exact absurd he hask
  · rw [hserver, hlow]
    exact hknown

/-- The loop takes the next update of its batch: what is left skips none, and every
    update it is past but that one was handed over before. -/
theorem take_next {s : St} {u : Update} {rest : List Update} (h : Inv s) (hl : s.loop = .handling (u :: rest)) :
    (∀ v ∈ s.server.updates, v.updateId < u.updateId + 1 →
      v = u ∨ Settled s v ∨ ∃ c ∈ s.chains, c.update = v) ∧
    max (u.updateId + 1) s.server.confirmed = u.updateId + 1 ∧
    rest <+: above (u.updateId + 1) s.server.updates ∧
    ∀ n, (∀ v ∈ s.server.updates, v.updateId < n) → u.updateId + 1 ≤ n := by
  have hb : u :: rest <+: above s.low s.server.updates := by
    have := h.batch
    rw [hl] at this
    exact this
  obtain ⟨hrest, hlow, honly⟩ := next_batch s.server.ascending hb
  have hconf : s.server.confirmed ≤ s.low := Nat.le_max_right _ _
  refine ⟨?_, by omega, hrest, ?_⟩
  · intro v hv hlt
    by_cases hvl : s.low ≤ v.updateId
    · exact Or.inl (honly v hv hvl hlt)
    refine Or.inr ?_
    by_cases hvc : v.updateId < s.server.confirmed
    · exact Or.inl (h.settled v hv hvc)
    have hvp : v.updateId < s.pollOffset := by
      unfold St.low at hvl
      omega
    exact h.passed (by rw [hl]; exact id) hv hvp
  · intro n hn
    have hmem : u ∈ s.server.updates := List.mem_of_mem_filter (hb.subset List.mem_cons_self)
    have := hn u hmem
    omega

/-- Past the next update of the batch with nothing handed over: its file is fetched, or
    it was settled before. -/
theorem passed_inv {s : St} {u : Update} {rest : List Update} {loop : Loop} (h : Inv s)
    (hl : s.loop = .handling (u :: rest)) (hu : Settled s u ∨ loop.fetches u) (hr : loop.rest = rest)
    (ha : loop ≠ .asking) : Inv { s with pollOffset := u.updateId + 1, loop := loop } := by
  obtain ⟨hpast, hmax, hrest, hknown⟩ := take_next h hl
  refine ⟨h.settled, ?_, ?_, fun he => absurd he ha, ?_⟩
  · intro v hv hlt
    rcases hpast v hv hlt with rfl | hs | hc
    · rcases hu with hu | hu
      · exact Or.inl hu
      · exact Or.inr (Or.inr hu)
    · exact Or.inl hs
    · exact Or.inr (Or.inl hc)
  · show loop.rest <+: above (max (u.updateId + 1) s.server.confirmed) s.server.updates
    rw [hr, hmax]
    exact hrest
  · show ∀ n, _ → max (u.updateId + 1) s.server.confirmed ≤ n
    rw [hmax]
    exact hknown

theorem handleUpdate_inv {cfg : AdapterConfig} {s : St} {u : Update} {rest : List Update} (h : Inv s)
    (hl : s.loop = .handling (u :: rest)) (hc : Careful s .handleUpdate) : Inv (handleUpdate cfg s u rest) := by
  unfold handleUpdate
  cases hcont : u.content with
  | text text =>
    obtain ⟨hpast, hmax, hrest, hknown⟩ := take_next h hl
    refine onMessage_inv h.settled ?_ ?_ (goOn_ne_asking rest) ?_
    · intro v hv hlt
      exact (hpast v hv hlt).imp_right (Or.imp_right Or.inl)
    · show (goOn rest).rest <+: above (max (u.updateId + 1) s.server.confirmed) s.server.updates
      rw [goOn_rest, hmax]
      exact hrest
    · show ∀ n, _ → max (u.updateId + 1) s.server.confirmed ≤ n
      rw [hmax]
      exact hknown
  | voice caption => exact passed_inv (s := s) h hl (Or.inr rfl) rfl nofun
  | photo caption => exact passed_inv (s := s) h hl (Or.inr rfl) rfl nofun
  | other =>
    have hq : Queued s.db u := by
      simp only [Careful, hl] at hc
      exact hc hcont
    exact passed_inv (s := s) h hl (Or.inl (Or.inl hq)) (goOn_rest rest) (goOn_ne_asking rest)

/-- While a file is fetched, every other update the loop is past has been handed over. -/
theorem fetching_handed {s : St} {media : Media} {caption : Option String} {u : Update} {rest : List Update}
    (h : Inv s) (hl : s.loop = .fetching media caption u rest) :
    ∀ v ∈ s.server.updates, v.updateId < s.pollOffset → v = u ∨ Settled s v ∨ ∃ c ∈ s.chains, c.update = v := by
  intro v hv hlt
  rcases h.handed v hv hlt with hs | hc | hf
  · exact Or.inr (Or.inl hs)
  · exact Or.inr (Or.inr hc)
  · rw [hl] at hf
    exact Or.inl hf.symm

theorem fetching_batch {s : St} {media : Media} {caption : Option String} {u : Update} {rest : List Update}
    (h : Inv s) (hl : s.loop = .fetching media caption u rest) : (goOn rest).rest <+: above s.low s.server.updates := by
  have hb := h.batch
  rw [hl] at hb
  rw [goOn_rest]
  exact hb

theorem getFile_inv {cfg : AdapterConfig} {s : St} {media : Media} {caption : Option String} {u : Update}
    {rest : List Update} {filePath : Option String} (h : Inv s) (hl : s.loop = .fetching media caption u rest) :
    Inv (onMessage cfg { s with loop := goOn rest } u none caption (some media) filePath) := by
  refine onMessage_inv h.settled ?_ (fetching_batch (s := s) h hl) (goOn_ne_asking rest) h.known
  intro v hv hlt
  exact (fetching_handed h hl v hv hlt).imp_right (Or.imp_right Or.inl)

theorem getFileFailed_inv {s : St} {media : Media} {caption : Option String} {u : Update} {rest : List Update}
    (h : Inv s) (hl : s.loop = .fetching media caption u rest) (hq : Queued s.db u) :
    Inv { s with loop := goOn rest } := by
  refine ⟨h.settled, ?_, fetching_batch (s := s) h hl, fun he => absurd he (goOn_ne_asking rest), h.known⟩
  intro v hv hlt
  rcases fetching_handed h hl v hv hlt with rfl | hs | hc
  · exact Or.inl (Or.inl hq)
  · exact Or.inl hs
  · exact Or.inr (Or.inl hc)

/-- What is queued stays, and every chain stays or has its message queued. -/
theorem chains_inv {s : St} {db : Db} {chains : List Chain} (h : Inv s) (hdb : ∀ u, Queued s.db u → Queued db u)
    (hc : ∀ c ∈ s.chains, (∃ d ∈ chains, d.update = c.update) ∨ Queued db c.update) :
    Inv { s with db := db, chains := chains } := by
  have hmono : ∀ u, Settled s u → Settled { s with db := db, chains := chains } u :=
    fun u => Settled.mono hdb fun _ hv => hv
  refine ⟨fun u hu hlt => hmono u (h.settled u hu hlt), ?_, h.batch, h.asked, h.known⟩
  intro u hu hlt
  rcases h.handed u hu hlt with hs | ⟨c, hcm, rfl⟩ | hf
  · exact Or.inl (hmono u hs)
  · rcases hc c hcm with ⟨d, hd, hdu⟩ | hq
    · exact Or.inr (Or.inl ⟨d, hd, hdu⟩)
    · exact Or.inl (Or.inl hq)
  · exact Or.inr (Or.inr hf)

theorem settle_inv {cfg : AdapterConfig} {s : St} {i now : Nat} {o : Outcome} {uuid : String} {c : Chain}
    {c' : Option Chain} {db : Db} (h : Inv s) (hi : s.chains[i]? = some c)
    (hs : c.settle cfg uuid now s.db o = some (.goes c' db)) (hc : Careful s (.settle i o uuid now)) :
    Inv { s with db := db, chains := put s.chains i c' } := by
  obtain ⟨hdb, hchain⟩ := Chain.settle_spec hs
  have hown : (∃ d, c' = some d ∧ d.update = c.update) ∨ Queued db c.update := by
    rcases hchain with hd | hq | hloses
    · exact Or.inl hd
    · exact Or.inr hq
    · simp only [Careful, hi] at hc
      exact Or.inr (hdb _ (hc hloses))
  obtain ⟨pre, post, hl, hput⟩ := put_splits hi
  refine chains_inv h hdb ?_
  intro d hd
  rw [hput]
  rw [hl] at hd
  rcases List.mem_append.mp hd with hd | hd
  · exact Or.inl ⟨d, List.mem_append_left _ hd, rfl⟩
  rcases List.mem_cons.mp hd with rfl | hd
  · rcases hown with ⟨e, rfl, he⟩ | hq
    · exact Or.inl ⟨e, by simp, he⟩
    · exact Or.inr hq
  · exact Or.inl ⟨d, List.mem_append_right _ (List.mem_append_right _ hd), rfl⟩

theorem step_inv {cfg : AdapterConfig} {s t : St} {e : Ev} (h : Inv s) (hc : Careful s e)
    (hst : step cfg s e = some t) : Inv t := by
  cases e with
  | arrive u =>
    obtain ⟨v, hv, rfl⟩ := Option.map_eq_some_iff.mp hst
    exact arrive_inv h hv
  | connect =>
    simp only [step] at hst
    split at hst
    · cases hst
    · cases hst
      have hcr := crashed_inv h
      refine ⟨hcr.settled, ?_, List.nil_prefix, ?_, hcr.known⟩
      · intro u hu hlt
        cases hlt
      · intro he
        cases he
  | getUpdates =>
    simp only [step] at hst
    split at hst
    · rename_i hl
      cases hst
      exact getUpdates_inv h hl hc
    · cases hst
  | updates n =>
    simp only [step] at hst
    split at hst
    · rename_i hl
      cases hst
      exact updates_inv h hl
    · cases hst
  | conflict =>
    simp only [step] at hst
    split at hst
    · rename_i hl
      cases hst
      exact loop_inv h (by rw [hl]; exact fun _ => id) rfl nofun
    · cases hst
  | broken =>
    simp only [step] at hst
    split at hst
    · rename_i hl
      cases hst
      exact loop_inv h (by rw [hl]; exact fun _ => id) rfl nofun
    · cases hst
  | reconnect =>
    simp only [step] at hst
    split at hst
    · rename_i hl
      split at hst
      · cases hst
        exact loop_inv h (by rw [hl]; exact fun _ => id) rfl nofun
      · cases hst
    · cases hst
  | handleUpdate =>
    simp only [step] at hst
    split at hst
    · rename_i u rest hl
      cases hst
      exact handleUpdate_inv h hl hc
    · cases hst
  | getFile filePath =>
    simp only [step] at hst
    split at hst
    · rename_i media caption u rest hl
      cases hst
      exact getFile_inv h hl
    · cases hst
  | getFileFailed =>
    simp only [step] at hst
    split at hst
    · rename_i media caption u rest hl
      cases hst
      simp only [Careful, hl] at hc
      exact getFileFailed_inv h hl hc
    · cases hst
  | settle i o uuid now =>
    simp only [step] at hst
    split at hst
    · rename_i c hi
      obtain ⟨r, hs, rfl⟩ := Option.map_eq_some_iff.mp hst
      cases r with
      | goes c' db => exact settle_inv h hi hs hc
      | crashed => exact crashed_inv h
    · cases hst
  | served u =>
    cases hst
    refine chains_inv h ?_ fun c hcm => Or.inl ⟨c, hcm, rfl⟩
    intro v hv
    unfold Queued
    rw [Ingest.serve, Ingest.Served.keys]
    exact hv
  | crash =>
    simp only [step] at hst
    split at hst
    · cases hst
      exact crashed_inv h
    · cases hst

/-- In every run whose steps are careful, an update is confirmed only when it is in the
    queue or was discarded by the access control or the `/start` rule. -/
theorem confirmed_is_settled (cfg : AdapterConfig) {s : St} (h : Reach (machine cfg) Careful s) {u : Update}
    (hu : u ∈ s.server.updates) (hc : u.updateId < s.server.confirmed) : Settled s u := by
  have hinv : Inv s := by
    refine h.inv (I := Inv) init_inv ?_
    intro s e t _ hinv hcare hst
    exact step_inv hinv hcare hst
  exact hinv.settled u hu hc

/-! ## Runs -/

instance decidableCareful : ∀ s e, Decidable (Careful s e)
  | s, .getUpdates => inferInstanceAs (Decidable (∀ c ∈ s.chains, _))
  | s, .settle i o _ _ =>
    have : Decidable (match s.chains[i]? with
      | some c => c.loses o = true → Queued s.db c.update
      | none => True) :=
      match s.chains[i]? with
      | some _ => inferInstanceAs (Decidable (_ → _))
      | none => inferInstanceAs (Decidable True)
    this
  | s, .handleUpdate =>
    have : Decidable (match s.loop with
      | .handling (u :: _) => u.content = .other → Queued s.db u
      | _ => True) :=
      match s.loop with
      | .handling (_ :: _) => inferInstanceAs (Decidable (_ → _))
      | .handling [] => inferInstanceAs (Decidable True)
      | .off => inferInstanceAs (Decidable True)
      | .ready => inferInstanceAs (Decidable True)
      | .asking => inferInstanceAs (Decidable True)
      | .fetching .. => inferInstanceAs (Decidable True)
    this
  | s, .getFileFailed =>
    have : Decidable (match s.loop with
      | .fetching _ _ u _ => Queued s.db u
      | _ => True) :=
      match s.loop with
      | .fetching _ _ u _ => inferInstanceAs (Decidable (Queued s.db u))
      | .handling _ => inferInstanceAs (Decidable True)
      | .off => inferInstanceAs (Decidable True)
      | .ready => inferInstanceAs (Decidable True)
      | .asking => inferInstanceAs (Decidable True)
    this
  | _, .arrive _ => inferInstanceAs (Decidable True)
  | _, .connect => inferInstanceAs (Decidable True)
  | _, .updates _ => inferInstanceAs (Decidable True)
  | _, .conflict => inferInstanceAs (Decidable True)
  | _, .broken => inferInstanceAs (Decidable True)
  | _, .reconnect => inferInstanceAs (Decidable True)
  | _, .getFile _ => inferInstanceAs (Decidable True)
  | _, .served _ => inferInstanceAs (Decidable True)
  | _, .crash => inferInstanceAs (Decidable True)

def cfg : AdapterConfig := ⟨[], "/downloads", "p"⟩

def hello : Update := ⟨10, 7, 1, some ⟨1, "Ann", none, none⟩, none, 0, .text "hello"⟩

def handed : List Ev := [.arrive hello, .connect, .getUpdates, .updates 100, .handleUpdate]

/-- The chain is done before the next call. -/
def waited : List Ev := handed ++ [.settle 0 .ran "" 0, .settle 0 .ran "" 0, .settle 0 .ran "" 0, .getUpdates]

theorem a_queued_update_is_confirmed : ∃ s, exec (machine cfg) (machine cfg).init waited = some s ∧
    hello.updateId < s.server.confirmed ∧ Settled s hello :=
  ⟨_, rfl, by decide, confirmed_is_settled cfg (reach_of_exec waited (by decide) rfl) (by decide) (by decide)⟩

/-- The loop confirms an update whose chain is at its first statement; the container
    crashes, and Telegram has nothing more to hand over. -/
theorem a_poll_overtakes_its_chain : ∃ s, Reach (machine cfg) Free s ∧ hello ∈ s.server.updates ∧
    hello.updateId < s.server.confirmed ∧ ¬ Settled s hello ∧ s.server.unconfirmed = [] ∧ s.chains.length = 0 := by
  refine ⟨_, reach_of_exec (handed ++ [.getUpdates, .crash]) (meets_free _ _) rfl, ?_⟩
  unfold Settled
  decide

end FlowHelm.Channels.PollLoop
