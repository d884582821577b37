/-
  FlowHelm.Orchestrator.Slots — how many items of a chat, and of all chats, are being
  processed at a time.

  Both limits of `onNewMessage` are checked against `activeTasks`, which only a running
  `processQueueItem` is in; a `dequeueForChat` under way is not. So between a dequeue and
  its answer a second call passes the same checks, and `drainChat` dequeues without any.

  A dequeue is live while it can still bring a task: not executed, or come back with an
  item.
  - `one_task_per_chat`: while no `onNewMessage` reaches its dequeue for a chat that has
    a live one, at most one item of a chat is processed at a time.
  - `tasks_within_limit`: while `onNewMessage` reaches its dequeue only when the live
    dequeues and the tasks together leave room, the limit holds.
  - `two_notifies_overlap` / `two_chats_exceed_the_limit`: two NOTIFYs handled before
    the first dequeue answers break either.
-/
import FlowHelm.Orchestrator.Machine

namespace FlowHelm.Orchestrator

open Parties Runs

/-- The call can still bring a task. -/
def Call.live (c : Call) : Bool :=
  match c.got with
  | some none => false
  | _ => true

namespace Slots

/-- The live dequeues and the tasks of a chat. -/
def load (s : St) (chatId : String) : Nat :=
  s.calls.countP (fun c => c.live && c.chatId == chatId) + s.tasks.countP (fun t => t.chatId == chatId)

/-- The live dequeues and the tasks. -/
def total (s : St) : Nat := s.calls.countP Call.live + s.tasks.length

def OneTaskPerChat (s : St) : Prop := ∀ c, s.tasks.countP (fun t => t.chatId == c) ≤ 1

def WithinLimit (cfg : Config) (s : St) : Prop := s.tasks.length ≤ cfg.maxConcurrentContainers

/-- No `onNewMessage` reaches its dequeue for a chat with a live one. -/
def Alone (cfg : Config) (s : St) (e : Ev) : Prop :=
  ∀ c ∈ launched cfg s e, ∀ x ∈ s.calls, x.chatId = c → x.live = false

/-- The dequeues that `onNewMessage` starts find room beside the live ones and the tasks. -/
def Roomy (cfg : Config) (s : St) (e : Ev) : Prop :=
  launched cfg s e ≠ [] → total s + (launched cfg s e).length ≤ cfg.maxConcurrentContainers

/-! ## Counting -/

theorem countP_launched (cs : List String) (c : String) :
    (cs.map fun x => (⟨x, none⟩ : Call)).countP (fun x => x.live && x.chatId == c) = cs.count c := by
  induction cs with
  | nil => rfl
  | cons x cs ih =>
    simp only [List.map_cons, List.countP_cons, List.count_cons, ih]
    rfl

theorem live_launched (cs : List String) : (cs.map fun x => (⟨x, none⟩ : Call)).countP Call.live = cs.length := by
  induction cs with
  | nil => rfl
  | cons x cs ih =>
    simp only [List.map_cons, List.countP_cons, List.length_cons, ih]
    rfl

theorem load_launch (s : St) (cs : List String) (c : String) : load (launch s cs) c = load s c + cs.count c := by
  have h := countP_launched cs c
  simp only [load, launch, List.countP_append, h]
  omega

theorem total_launch (s : St) (cs : List String) : total (launch s cs) = total s + cs.length := by
  have h := live_launched cs
  simp only [total, launch, List.countP_append, h]
  omega

/-! ## What an event does to the load -/

/-- An event adds no load but by `onNewMessage` reaching its dequeue. -/
theorem load_next {cfg : Config} {s t : St} {e : Ev} (hb : Base s) (hn : Next cfg s e t) (c : String) :
    load t c ≤ load s c + (launched cfg s e).count c := by
  cases hn with
  | notified i c' pre post hi hs => rw [load_launch]; exact Nat.le_refl _
  | drainedPending i order pre post hi hs => rw [load_launch]; exact Nat.le_refl _
  | claimed k tie now c' r pre post hs => simp [load, hs, List.countP_cons, Call.live]
  | cameEmpty k tie now c' pre post hs => simp [load, hs, List.countP_cons, Call.live]; omega
  | dropped k c' pre post hs => simp [load, hs, Call.live]
  | begun k c' it pre post hs =>
    have hchat : it.message.userId = c' := hb.ofChat ⟨c', some (some it)⟩ (by simp [hs]) it rfl
    simp [load, hs, List.countP_cons, Call.live, processQueueItem, Task.chatId, Task.start_item, hchat]
    omega
  | rejected k c' pre post hc hs => simp [load, hs, List.countP_cons, stopCall]; omega
  | task k ret now t0 t' e pre post ht hs hst =>
    simp [load, perform, hs, List.countP_cons, Task.chatId, step_item hst]
  | finished k t0 pre post hs hpc =>
    rw [load_launch]
    have hc : (if s.stopping then [] else [t0.chatId]).count c ≤ if t0.chatId == c then 1 else 0 := by
      split <;> simp [List.count_cons]
    simp only [load, hs, List.countP_append, List.countP_cons]
    omega
  | died hup => exact Nat.zero_le _
  | _ => exact Nat.le_add_right _ _

/-- The same for all chats together. -/
theorem total_next {cfg : Config} {s t : St} {e : Ev} (hn : Next cfg s e t) :
    total t ≤ total s + (launched cfg s e).length := by
  cases hn with
  | notified i c' pre post hi hs => rw [total_launch]; exact Nat.le_refl _
  | drainedPending i order pre post hi hs => rw [total_launch]; exact Nat.le_refl _
  | claimed k tie now c' r pre post hs => simp [total, hs, List.countP_cons, Call.live]
  | cameEmpty k tie now c' pre post hs => simp [total, hs, List.countP_cons, Call.live]; omega
  | dropped k c' pre post hs => simp [total, hs, Call.live]
  | begun k c' it pre post hs => simp [total, hs, List.countP_cons, Call.live, processQueueItem]; omega
  | rejected k c' pre post hc hs => simp [total, hs, List.countP_cons, stopCall]; omega
  | task k ret now t0 t' e pre post ht hs hst => simp [total, perform, hs]
  | finished k t0 pre post hs hpc =>
    rw [total_launch]
    have hc : (if s.stopping then [] else [t0.chatId]).length ≤ 1 := by split <;> simp
    simp only [total, hs, List.length_append, List.length_cons]
    omega
  | died hup => exact Nat.zero_le _
  | _ => exact Nat.le_add_right _ _

/-! ## The invariant -/

structure Inv (s : St) : Prop where
  one : ∀ c, load s c ≤ 1
  keyed : ∀ t ∈ s.tasks, t.chatId ∈ s.activeTasks
  orders : ∀ order, .draining order ∈ s.starting → order.Nodup

theorem init_inv : Inv St.init := by
  refine ⟨fun c => Nat.zero_le _, ?_, ?_⟩
  · intro t ht
    cases ht
  · intro order ho
    cases ho

theorem launched_nodup (cfg : Config) {s : St} (h : Inv s) (e : Ev) : (launched cfg s e).Nodup := by
  unfold launched
  split
  · split
    · split
      · exact List.nodup_nil
      · exact (List.nodup_singleton _).filter _
    · exact List.nodup_nil
  · split
    · rename_i order ho
      exact (h.orders order (List.mem_of_getElem? ho)).filter _
    · exact List.nodup_nil
  · exact List.nodup_nil

theorem launched_accepted {cfg : Config} {s : St} {e : Ev} {c : String} (h : c ∈ launched cfg s e) :
    accepts cfg s c = true := by
  unfold launched at h
  split at h
  · split at h
    · split at h
      · cases h
      · exact (List.mem_filter.mp h).2
    · cases h
  · split at h
    · exact (List.mem_filter.mp h).2
    · cases h
  · cases h

/-- A chat that `onNewMessage` accepts and that has no live dequeue has no load. -/
theorem load_launched {cfg : Config} {s : St} {e : Ev} (h : Inv s) (ha : Alone cfg s e) {c : String}
    (hc : c ∈ launched cfg s e) : load s c = 0 := by
  have hacc := launched_accepted hc
  simp only [accepts, Bool.and_eq_true, Bool.not_eq_true', List.contains_eq_mem, decide_eq_false_iff_not] at hacc
  have h1 : s.calls.countP (fun x => x.live && x.chatId == c) = 0 := by
    rw [List.countP_eq_zero]
    intro x hx hl
    simp only [Bool.and_eq_true, beq_iff_eq] at hl
    have := ha c hc x hx hl.2
    rw [this] at hl
    cases hl.1
  have h2 : s.tasks.countP (fun t => t.chatId == c) = 0 := by
    rw [List.countP_eq_zero]
    intro t ht hl
    rw [beq_iff_eq] at hl
    exact hacc.1 (hl ▸ h.keyed t ht)
  unfold load
  omega

theorem one_next {cfg : Config} {s t : St} {e : Ev} (hb : Base s) (h : Inv s) (ha : Alone cfg s e)
    (hn : Next cfg s e t) (c : String) : load t c ≤ 1 := by
  have hle := load_next hb hn c
  have hone := h.one c
  by_cases hc : c ∈ launched cfg s e
  · have h0 := load_launched h ha hc
    have h1 := List.nodup_iff_count_le_one.mp (launched_nodup cfg h e) c
    omega
  · have h0 : (launched cfg s e).count c = 0 := List.count_eq_zero.mpr hc
    omega

theorem keyed_next {cfg : Config} {s t : St} {e : Ev} (h : Inv s) (hn : Next cfg s e t) :
    ∀ x ∈ t.tasks, x.chatId ∈ t.activeTasks := by
  intro x hx
  cases hn with
  | begun k c it pre post hs =>
    simp only [processQueueItem, List.mem_append, List.mem_singleton] at hx ⊢
    rcases hx with hx | rfl
    · have hk := h.keyed x hx
      split
      · exact hk
      · exact List.mem_append_left _ hk
    · unfold Task.chatId
      rw [Task.start_item]
      split
      · rename_i hm
        simpa using hm
      · exact List.mem_append_right _ (List.mem_singleton.mpr rfl)
  | task k ret now t0 t' e pre post ht hs hst =>
    rcases mem_moved hs hx with rfl | hx
    · have hk := h.keyed t0 (by simp [hs])
      unfold Task.chatId at hk ⊢
      rw [step_item hst]
      exact hk
    · exact h.keyed x hx
  | finished k t0 pre post hs hpc =>
    have hx : x ∈ pre ++ post := hx
    have hk := h.keyed x (mem_others hs hx)
    -- a second task of the chat would be load two
    have hne : x.chatId ≠ t0.chatId := by
      intro he
      have h1 := h.one t0.chatId
      have h2 : 0 < (pre ++ post).countP (fun t => t.chatId == t0.chatId) :=
        List.countP_pos_iff.mpr ⟨x, hx, by simp [he]⟩
      simp only [load, hs, List.countP_append, List.countP_cons, beq_self_eq_true, if_true] at h1 h2
      omega
    exact List.mem_filter.mpr ⟨hk, by simpa using hne⟩
  | died hup => cases hx
  | _ => exact h.keyed x hx

theorem orders_next {cfg : Config} {s t : St} {e : Ev} (h : Inv s) (hn : Next cfg s e t) :
    ∀ order, .draining order ∈ t.starting → order.Nodup := by
  intro order ho
  cases hn with
  | started hup =>
    rcases List.mem_append.mp ho with ho | ho
    · exact h.orders order ho
    · cases List.mem_singleton.mp ho
  | subscribed i pre post hs =>
    rcases mem_moved hs ho with ho | ho
    · cases ho
    · exact h.orders order ho
  | queried i o pre post hs hp =>
    rcases mem_moved hs ho with ho | ho
    · cases ho
      exact hp.nodup_iff.mpr (List.nodup_dedup _)
    · exact h.orders order ho
  | drainedPending i o pre post hi hs => exact h.orders order (mem_others hs ho)
  | died hup => cases ho
  | _ => exact h.orders order ho

theorem inv {cfg : Config} {s : St} (h : Reach (machine cfg) (Alone cfg) s) : Inv s := by
  refine h.inv init_inv ?_
  intro s e t hr hi ha hst
  have hn : Next cfg s e t := step_next hst
  exact ⟨one_next (base hr) hi ha hn, keyed_next hi hn, orders_next hi hn⟩

/-! ## Two messages, their NOTIFYs handled at once or one by one -/

instance (cfg : Config) (s : St) (e : Ev) : Decidable (Alone cfg s e) :=
  inferInstanceAs (Decidable (∀ c ∈ launched cfg s e, ∀ x ∈ s.calls, x.chatId = c → x.live = false))

instance (cfg : Config) (s : St) (e : Ev) : Decidable (Roomy cfg s e) :=
  inferInstanceAs (Decidable (launched cfg s e ≠ [] → total s + (launched cfg s e).length ≤ cfg.maxConcurrentContainers))

def cfg (maxConcurrentContainers : Nat) : Config := ⟨maxConcurrentContainers, false, true, true⟩

def msg (id userId : String) : InboundMessage :=
  ⟨id, .telegram, userId, "Ada", some "hello", none, none, none, 0, false⟩

/-- The process comes up with an empty table. -/
def comeUp : List Ev := [.boot 0, .start, .subscribed 0, .query 0 [], .drainPending 0]

/-- Two messages, both NOTIFYs handled, then both dequeues answered. -/
def bothAtOnce (a b : InboundMessage) : List Ev :=
  comeUp ++ [.insert a 3 0, .insert b 3 0, .notify 0, .notify 0, .claim 0 0 0, .claim 1 0 0, .resume 0, .resume 0]

/-- Two messages, the first taken up before the second NOTIFY is handled. -/
def oneByOne (a b : InboundMessage) : List Ev :=
  comeUp ++ [.insert a 3 0, .insert b 3 0, .notify 0, .claim 0 0 0, .resume 0, .notify 0]

/-- The first task, from its start to the delivery of its answer. -/
def untilSent : List Ev :=
  [.ok, .missing, .ok, .ok, .ok, .result ⟨Js.Json.text "Hi", [], .num false 0 0, .num false 0 0, true, none⟩,
    .sent true].map (.task 0 · 0)

/-! ## The two limits -/

/-- In every run in which no `onNewMessage` reaches its dequeue for a chat with a live
    one, no two items of a chat are processed at a time. -/
theorem one_task_per_chat (cfg : Config) (s : St) (h : Reach (machine cfg) (Alone cfg) s) : OneTaskPerChat s := by
  intro c
  have h1 := (inv h).one c
  unfold load at h1
  omega

theorem one_by_one_is_one_task : ∃ s, exec (machine (cfg 5)) St.init (oneByOne (msg "1" "tg:1") (msg "2" "tg:1")) =
    some s ∧ OneTaskPerChat s := by
  refine ⟨_, rfl, one_task_per_chat (cfg 5) _ (reach_of_exec (oneByOne (msg "1" "tg:1") (msg "2" "tg:1")) ?_ rfl)⟩
  decide

theorem two_notifies_overlap : ∃ s, Reach (machine (cfg 5)) Free s ∧ ¬ OneTaskPerChat s := by
  refine ⟨_, reach_of_exec (bothAtOnce (msg "1" "tg:1") (msg "2" "tg:1")) (meets_free _ _) rfl, ?_⟩
  intro h
  exact absurd (h "tg:1") (by decide)

/-- In every run whose NOTIFYs and startup drains find room beside the live dequeues and
    the tasks, the concurrency limit holds. -/
theorem tasks_within_limit (cfg : Config) (s : St) (h : Reach (machine cfg) (Roomy cfg) s) : WithinLimit cfg s := by
  have hinv : total s ≤ cfg.maxConcurrentContainers := by
    refine h.inv (I := fun s => total s ≤ cfg.maxConcurrentContainers) (Nat.zero_le _) ?_
    intro s e t _ hi hroom hst
    have hle := total_next (step_next hst : Next cfg s e t)
    by_cases hc : launched cfg s e = []
    · rw [hc] at hle
      exact Nat.le_trans hle hi
    · exact Nat.le_trans hle (hroom hc)
  unfold total at hinv
  unfold WithinLimit
  omega

theorem one_by_one_is_within_limit : ∃ s, exec (machine (cfg 1)) St.init (oneByOne (msg "1" "tg:1") (msg "2" "tg:2")) =
    some s ∧ WithinLimit (cfg 1) s := by
  refine ⟨_, rfl, tasks_within_limit (cfg 1) _ (reach_of_exec (oneByOne (msg "1" "tg:1") (msg "2" "tg:2")) ?_ rfl)⟩
  decide

theorem two_chats_exceed_the_limit : ∃ s, Reach (machine (cfg 1)) Free s ∧ ¬ WithinLimit (cfg 1) s := by
  refine ⟨_, reach_of_exec (bothAtOnce (msg "1" "tg:1") (msg "2" "tg:2")) (meets_free _ _) rfl, ?_⟩
  unfold WithinLimit
  decide

end Slots

end FlowHelm.Orchestrator
