/-
  FlowHelm.Orchestrator.Drain — which pending messages something will still take up.

  A pending row is served while its chat has a task (whose `finally` dequeues again), a
  live dequeue, a NOTIFY in flight, or a `start()` in progress that will read it. Each
  event keeps the waiting chats served but three: a NOTIFY or the startup drain turned
  away because the concurrency limit is reached (`drainChat` dequeues only for its own
  chat, so nobody comes back for this one), and `retryDeadLetter`, which fires no NOTIFY.

  - `served_next`: the step lemma, over all the events.
  - `none_stranded`: while whoever is turned away is served otherwise, a quiescent state
    has no pending row.
  - `turned_away_is_stranded`: a message of a second chat at a limit of one.
-/
import FlowHelm.Orchestrator.Slots

namespace FlowHelm.Orchestrator.Drain

open Parties Runs

/-- A `start()` in progress that will still call `onNewMessage` for the chat, if it has
    a pending row. -/
def reads (chatId : String) : Starting → Prop
  | .draining order => chatId ∈ order
  | _ => True

def Served (s : St) (chatId : String) : Prop :=
  (∃ t ∈ s.tasks, t.chatId = chatId) ∨ (∃ x ∈ s.calls, x.live = true ∧ x.chatId = chatId) ∨
    chatId ∈ s.notifies ∨ ∃ a ∈ s.starting, reads chatId a

def Waiting (s : St) (chatId : String) : Prop := ∃ r ∈ s.queue.rows, r.status = .pending ∧ r.chatId = chatId

def Active (s : St) : Prop := s.started = true ∧ s.stopping = false

/-- `onNewMessage` returns at the concurrency limit. -/
def turnedAway (cfg : Config) (s : St) (chatId : String) : Bool :=
  !s.activeTasks.contains chatId && decide (cfg.maxConcurrentContainers ≤ s.activeTasks.length)

/-- The chats a `start()` has read and not drained yet. -/
def order : Starting → List String
  | .draining order => order
  | _ => []

/-- Who is turned away with a message waiting is served otherwise, and so is the chat of
    a dead letter put back. -/
def Compensated (cfg : Config) (s : St) : Ev → Prop
  | .notify i => ∀ c ∈ s.notifies[i]?, Active s → turnedAway cfg s c = true → Waiting s c →
      Served { s with notifies := s.notifies.eraseIdx i } c
  | .drainPending i => ∀ a ∈ s.starting[i]?, Active s → ∀ c ∈ order a, turnedAway cfg s c = true → Waiting s c →
      Served { s with starting := s.starting.eraseIdx i } c
  | .retryDeadLetter id _ => Active s → ∀ r ∈ s.queue.rows, Queue.isDeadLetter id r = true → Served s r.chatId
  | _ => True

/-- Started, not stopping, and nothing in flight. -/
def Quiescent (s : St) : Prop :=
  s.up = true ∧ Active s ∧ s.tasks = [] ∧ s.calls = [] ∧ s.notifies = [] ∧ s.starting = []

def NoneStranded (s : St) : Prop := Quiescent s → ∀ r ∈ s.queue.rows, r.status ≠ .pending

/-! ## The invariant -/

structure Inv (s : St) : Prop where
  /-- A key of `activeTasks` is a running task's chat. -/
  busy : ∀ c ∈ s.activeTasks, ∃ t ∈ s.tasks, t.chatId = c
  listening : s.started = true → 0 < s.listeners ∨ .subscribing ∈ s.starting
  served : Active s → ∀ r ∈ s.queue.rows, r.status = .pending → Served s r.chatId

theorem init_inv : Inv St.init := by
  refine ⟨?_, ?_, ?_⟩
  · intro c hc
    cases hc
  · intro hst
    cases hst
  · intro _ r hr
    cases hr

theorem busy_next {cfg : Config} {s t : St} {e : Ev} (h : Inv s) (hn : Next cfg s e t) :
    ∀ c ∈ t.activeTasks, ∃ x ∈ t.tasks, x.chatId = c := by
  intro c hc
  cases hn with
  | begun k c' it pre post hs =>
    have hkey : c ∈ s.activeTasks ∨ c = it.message.userId := by
      simp only [processQueueItem] at hc
      split at hc
      · exact Or.inl hc
      · rcases List.mem_append.mp hc with hc | hc
        · exact Or.inl hc
        · exact Or.inr (List.mem_singleton.mp hc)
    rcases hkey with hc | rfl
    · obtain ⟨x, hx, hxc⟩ := h.busy c hc
      exact ⟨x, List.mem_append_left _ hx, hxc⟩
    · refine ⟨Task.start cfg it, List.mem_append_right _ (List.mem_singleton.mpr rfl), ?_⟩
      unfold Task.chatId
      rw [Task.start_item]
  | task k ret now t0 t' e pre post ht hs hst =>
    obtain ⟨x, hx, hxc⟩ := h.busy c hc
    rcases mem_splits hs hx with rfl | hx
    · refine ⟨t', List.mem_append_right _ (List.mem_cons_self ..), ?_⟩
      unfold Task.chatId at hxc ⊢
      rw [step_item hst]
      exact hxc
    · exact ⟨x, mem_others rfl hx, hxc⟩
  | finished k t0 pre post hs hpc =>
    obtain ⟨hc, hne⟩ := List.mem_filter.mp hc
    obtain ⟨x, hx, hxc⟩ := h.busy c hc
    have hx0 : x ≠ t0 := by
      intro he
      simp [he ▸ hxc] at hne
    refine ⟨x, ?_, hxc⟩
    show x ∈ pre ++ post
    rw [hs] at hx
    simp at hx ⊢
    tauto
  | died hup => cases hc
  | _ => exact h.busy c hc

theorem listening_next {cfg : Config} {s t : St} {e : Ev} (h : Inv s) (hn : Next cfg s e t)
    (hst : t.started = true) : 0 < t.listeners ∨ .subscribing ∈ t.starting := by
  cases hn with
  | started hup => exact Or.inr (List.mem_append_right _ (List.mem_singleton.mpr rfl))
  | subscribed i pre post hs => exact Or.inl (Nat.succ_pos _)
  | queried i order pre post hs hp =>
    rcases h.listening hst with hl | hm
    · exact Or.inl hl
    · exact Or.inr (by rw [hs] at hm; simp at hm ⊢; exact hm)
  | drainedPending i order pre post hi hs =>
    rcases h.listening hst with hl | hm
    · exact Or.inl hl
    · exact Or.inr (by rw [hs] at hm; simpa [launch] using hm)
  | died hup => cases hst
  | _ => exact h.listening hst

/-! ## Who stays served -/

theorem Served.task {s : St} {x : Task} (h : x ∈ s.tasks) : Served s x.chatId := Or.inl ⟨x, h, rfl⟩

theorem Served.call {s : St} {x : Call} (h : x ∈ s.calls) (hl : x.live = true) : Served s x.chatId :=
  Or.inr (Or.inl ⟨x, h, hl, rfl⟩)

theorem Served.notify {s : St} {c : String} (h : c ∈ s.notifies) : Served s c := Or.inr (Or.inr (Or.inl h))

theorem Served.start {s : St} {c : String} {a : Starting} (h : a ∈ s.starting) (hr : reads c a) : Served s c :=
  Or.inr (Or.inr (Or.inr ⟨a, h, hr⟩))

/-- Where only the tasks and the calls have moved. -/
theorem Served.moved {s t : St} {c : String} (h : Served s c) (hn : t.notifies = s.notifies) (hst : t.starting = s.starting)
    (htask : ∀ x ∈ s.tasks, x.chatId = c → Served t c)
    (hcall : ∀ x ∈ s.calls, x.live = true → x.chatId = c → Served t c) : Served t c := by
  rcases h with ⟨x, hx, hxc⟩ | ⟨x, hx, hl, hxc⟩ | hm | ⟨a, ha, hr⟩
  · exact htask x hx hxc
  · exact hcall x hx hl hxc
  · exact .notify (hn ▸ hm)
  · exact .start (hst ▸ ha) hr

theorem Served.launch {s : St} {c : String} (h : Served s c) (cs : List String) : Served (launch s cs) c := by
  rcases h with ht | ⟨x, hx, hl, rfl⟩ | hm | ha
  · exact Or.inl ht
  · exact .call (List.mem_append_left _ hx) hl
  · exact .notify hm
  · exact Or.inr (Or.inr (Or.inr ha))

theorem served_launched {s : St} {c : String} {cs : List String} (h : c ∈ cs) : Served (launch s cs) c := by
  have hm : (⟨c, none⟩ : Call) ∈ (FlowHelm.Orchestrator.launch s cs).calls :=
    List.mem_append_right _ (List.mem_map.mpr ⟨c, h, rfl⟩)
  exact Served.call hm rfl

/-- A chat with a message waiting whose `onNewMessage` this event calls stays served:
    it gets its dequeue, has a task, or is served otherwise. -/
theorem served_called (cfg : Config) {s u : St} {c : String} {cs : List String} (h : Inv s) (hu : u.tasks = s.tasks)
    (hcs : accepts cfg s c = true → c ∈ cs) (hc : turnedAway cfg s c = true → Served u c) : Served (launch u cs) c := by
  by_cases hkey : c ∈ s.activeTasks
  · obtain ⟨x, hx, rfl⟩ := h.busy c hkey
    exact Served.launch (.task (hu ▸ hx)) cs
  by_cases hlim : s.activeTasks.length < cfg.maxConcurrentContainers
  · exact served_launched (hcs (by simp [accepts, hkey, hlim]))
  · have hlim : cfg.maxConcurrentContainers ≤ s.activeTasks.length := by omega
    exact Served.launch (hc (by simp [turnedAway, hkey, hlim])) cs

/-- A waiting chat that is served stays served over every event, while whoever is turned
    away is compensated. -/
theorem served_kept {cfg : Config} {s t : St} {e : Ev} {c : String} (hb : Base s) (h : Inv s)
    (hcomp : Compensated cfg s e) (hn : Next cfg s e t) (ha : Active t) (hw : Waiting s c)
    (hs : Active s → Served s c) : Served t c := by
  cases hn with
  | started hup => exact .start (List.mem_append_right _ (List.mem_singleton.mpr rfl)) trivial
  | rejected k c' pre post hc he => exact absurd ha.2 (by simp [stopCall])
  | stopCalled hup => exact absurd ha.2 (by simp [stopCall])
  | died hup => exact absurd ha.1 (by simp [crashed])
  | booted now hup =>
    have hst := (hb.down hup).2.2.2.2.2
    rw [show s.started = true from ha.1] at hst
    cases hst
  | retried | drained | timedOut | stopReturned => exact hs ha
  | insert m k now hf =>
    rcases hs ha with ht | hx | hm | hst
    · exact Or.inl ht
    · exact Or.inr (Or.inl hx)
    · exact .notify (List.mem_append_left _ hm)
    · exact Or.inr (Or.inr (Or.inr hst))
  | notified i c' pre post hi he herase =>
    have hact : Active s := ha
    by_cases hcc : c = c'
    · subst hcc
      refine served_called cfg h rfl ?_ ?_
      · intro hacc
        simp [launched, hi, hact.2, hacc]
      · intro haway
        rw [← herase]
        exact hcomp c hi hact haway hw
    · refine Served.launch ?_ _
      rcases hs hact with ht | hx | hm | hst
      · exact Or.inl ht
      · exact Or.inr (Or.inl hx)
      · rw [he] at hm
        simp only [List.mem_append, List.mem_cons, hcc, false_or] at hm
        exact .notify (List.mem_append.mpr hm)
      · exact Or.inr (Or.inr (Or.inr hst))
  | drainedPending i order pre post hi he herase =>
    have hact : Active s := ha
    by_cases hcc : c ∈ order
    · refine served_called cfg h rfl ?_ ?_
      · intro hacc
        simp [launched, hi, hcc, hacc]
      · intro haway
        rw [← herase]
        exact hcomp _ hi hact c hcc haway hw
    · refine Served.launch ?_ _
      rcases hs hact with ht | hx | hm | ⟨a, hm, hr⟩
      · exact Or.inl ht
      · exact Or.inr (Or.inl hx)
      · exact .notify hm
      · rcases mem_splits he hm with rfl | hm
        · exact absurd hr hcc
        · exact .start hm hr
  | claimed k tie now c' r pre post he hr hp hrc =>
    refine (hs ha).moved rfl rfl (fun x hx hxc => Or.inl ⟨x, hx, hxc⟩) fun x hx hl hxc => ?_
    rcases mem_splits he hx with rfl | hx
    · exact Or.inr (Or.inl ⟨_, List.mem_append_right _ (List.mem_cons_self ..), rfl, hxc⟩)
    · exact Or.inr (Or.inl ⟨x, mem_others rfl hx, hl, hxc⟩)
  | cameEmpty k tie now c' pre post he hnone =>
    refine (hs ha).moved rfl rfl (fun x hx hxc => Or.inl ⟨x, hx, hxc⟩) fun x hx hl hxc => ?_
    rcases mem_splits he hx with rfl | hx
    · obtain ⟨r, hr, hp, hrc⟩ := hw
      exact absurd (hrc.trans hxc.symm) (hnone r hr hp)
    · exact Or.inr (Or.inl ⟨x, mem_others rfl hx, hl, hxc⟩)
  | dropped k c' pre post he =>
    refine (hs ha).moved rfl rfl (fun x hx hxc => Or.inl ⟨x, hx, hxc⟩) fun x hx hl hxc => ?_
    rcases mem_splits he hx with rfl | hx
    · cases hl
    · exact Or.inr (Or.inl ⟨x, hx, hl, hxc⟩)
  | begun k c' it pre post he =>
    refine (hs ha).moved rfl rfl (fun x hx hxc => Or.inl ⟨x, List.mem_append_left _ hx, hxc⟩) fun x hx hl hxc => ?_
    rcases mem_splits he hx with rfl | hx
    · have hchat := hb.ofChat ⟨c', some (some it)⟩ (by simp [he]) it rfl
      refine Or.inl ⟨Task.start cfg it, List.mem_append_right _ (List.mem_singleton.mpr rfl), ?_⟩
      unfold Task.chatId
      rw [Task.start_item, hchat]
      exact hxc
    · exact Or.inr (Or.inl ⟨x, hx, hl, hxc⟩)
  | task k ret now t0 t' e pre post ht he hst =>
    refine (hs ha).moved rfl rfl (fun x hx hxc => ?_) fun x hx hl hxc => Or.inr (Or.inl ⟨x, hx, hl, hxc⟩)
    rcases mem_splits he hx with rfl | hx
    · refine Or.inl ⟨t', List.mem_append_right _ (List.mem_cons_self ..), ?_⟩
      unfold Task.chatId at hxc ⊢
      rw [step_item hst]
      exact hxc
    · exact Or.inl ⟨x, mem_others rfl hx, hxc⟩
  | finished k t0 pre post he hpc =>
    have hact : Active s := ha
    by_cases hcc : c = t0.chatId
    · exact served_launched (by simp [hact.2, hcc])
    · refine Served.launch ?_ _
      refine (hs hact).moved rfl rfl (fun x hx hxc => ?_) fun x hx hl hxc => Or.inr (Or.inl ⟨x, hx, hl, hxc⟩)
      rcases mem_splits he hx with rfl | hx
      · exact absurd hxc.symm hcc
      · exact Or.inl ⟨x, hx, hxc⟩
  | subscribed i pre post he =>
    rcases hs ha with ht | hx | hm | ⟨a, hm, hr⟩
    · exact Or.inl ht
    · exact Or.inr (Or.inl hx)
    · exact .notify hm
    · exact .start (List.mem_append_right _ (List.mem_cons_self ..)) trivial
  | queried i order pre post he hp =>
    rcases hs ha with ht | hx | hm | ⟨a, hm, hr⟩
    · exact Or.inl ht
    · exact Or.inr (Or.inl hx)
    · exact .notify hm
    · -- what the query reads includes every chat with a message waiting
      obtain ⟨r, hrow, hrp, hrc⟩ := hw
      have hread : c ∈ order := by
        rw [hp.mem_iff]
        unfold Queue.pendingChatIds
        rw [List.mem_dedup]
        refine List.mem_map.mpr ⟨r, List.mem_filter.mpr ⟨hrow, ?_⟩, hrc⟩
        simp [Queue.isPending, hrp]
      exact .start (List.mem_append_right _ (List.mem_cons_self ..)) hread

/-- A task's `fail` puts back a row of its own chat. -/
theorem performed_row {s : St} {t0 : Task} (hb : Base s) (ht : t0 ∈ s.tasks) {now : Nat} {e : Effect} {r : QueueRow}
    (hr : r ∈ (e.onQueue s.queue t0.item.id now).rows) (hp : r.status = .pending) :
    r ∈ s.queue.rows ∨ r.chatId = t0.chatId := by
  cases e with
  | acknowledge =>
    rcases Queue.mem_set hr with ⟨hr, -⟩ | ⟨r0, h0, -, rfl⟩
    · exact Or.inl hr
    · cases hp
  | fail error =>
    rcases Queue.mem_set hr with ⟨hr, -⟩ | ⟨r0, h0, hid, rfl⟩
    · exact Or.inl hr
    · have hpay := hb.payload (Or.inr ⟨t0, ht, rfl⟩) h0 (by simpa using hid)
      refine Or.inr ?_
      show r0.chatId = t0.chatId
      rw [r0.chatOk, hpay]
      rfl
  | _ => exact Or.inl hr

theorem served_next {cfg : Config} {s t : St} {e : Ev} (hb : Base s) (h : Inv s) (hcomp : Compensated cfg s e)
    (hn : Next cfg s e t) (ha : Active t) : ∀ r ∈ t.queue.rows, r.status = .pending → Served t r.chatId := by
  intro r hr hp
  have hkept : r ∈ s.queue.rows → Served t r.chatId := fun h0 =>
    served_kept hb h hcomp hn ha ⟨r, h0, hp, rfl⟩ fun hact => h.served hact r h0 hp
  cases hn with
  | insert m k now hf =>
    rcases Queue.mem_enqueue.mp hr with hr | rfl
    · exact hkept hr
    · rcases h.listening ha.1 with hl | hm
      · refine .notify (List.mem_append_right _ ?_)
        exact List.mem_replicate.mpr ⟨by omega, rfl⟩
      · exact .start hm trivial
  | retried id now =>
    rcases Queue.mem_set hr with ⟨hr, -⟩ | ⟨r0, h0, hd, rfl⟩
    · exact hkept hr
    · exact hcomp ha r0 h0 hd
  | claimed k tie now c r1 pre post he h1 hp1 hrc =>
    rcases Queue.mem_set hr with ⟨hr, -⟩ | ⟨r0, h0, hd, rfl⟩
    · exact hkept hr
    · cases hp
  | task k ret now t0 t' e pre post ht he hst =>
    rcases performed_row hb (List.mem_of_getElem? ht) hr hp with hr | hrc
    · exact hkept hr
    · refine Or.inl ⟨t', List.mem_append_right _ (List.mem_cons_self ..), ?_⟩
      unfold Task.chatId at hrc ⊢
      rw [step_item hst]
      exact hrc.symm
  | booted now hup =>
    have hst := (hb.down hup).2.2.2.2.2
    rw [show s.started = true from ha.1] at hst
    cases hst
  | _ => exact hkept hr

theorem inv {cfg : Config} {s : St} (h : Reach (machine cfg) (Compensated cfg) s) : Inv s := by
  refine h.inv init_inv ?_
  intro s e t hr hi hcomp hst
  have hn : Next cfg s e t := step_next hst
  exact ⟨busy_next hi hn, listening_next hi hn, served_next (base hr) hi hcomp hn⟩

/-! ## No stranded message -/

/-- In every run in which whoever is turned away is served otherwise, no quiescent state
    has a pending row. -/
theorem none_stranded (cfg : Config) (s : St) (h : Reach (machine cfg) (Compensated cfg) s) : NoneStranded s := by
  intro ⟨hup, ha, ht, hc, hnt, hst⟩ r hr hp
  rcases (inv h).served ha r hr hp with ⟨x, hx, -⟩ | ⟨x, hx, -⟩ | hm | ⟨a, hm, -⟩
  · rw [ht] at hx
    cases hx
  · rw [hc] at hx
    cases hx
  · rw [hnt] at hm
    cases hm
  · rw [hst] at hm
    cases hm

/-- The first task answers, and its chat's next dequeue comes back empty. -/
def answered : List Ev :=
  Slots.untilSent ++ [.ok, .missing, .ok, .ok, .missing, .ok].map (.task 0 · 0) ++ [.finish 0, .claim 0 0 0, .resume 0]

/-! ### The condition can be computed -/

instance (c : String) : ∀ a, Decidable (reads c a)
  | .draining order => inferInstanceAs (Decidable (c ∈ order))
  | .subscribing => inferInstanceAs (Decidable True)
  | .querying => inferInstanceAs (Decidable True)

instance (s : St) (c : String) : Decidable (Served s c) :=
  inferInstanceAs (Decidable ((∃ t ∈ s.tasks, t.chatId = c) ∨ (∃ x ∈ s.calls, x.live = true ∧ x.chatId = c) ∨
    c ∈ s.notifies ∨ ∃ a ∈ s.starting, reads c a))

instance (s : St) (c : String) : Decidable (Waiting s c) :=
  inferInstanceAs (Decidable (∃ r ∈ s.queue.rows, r.status = .pending ∧ r.chatId = c))

instance (s : St) : Decidable (Active s) := inferInstanceAs (Decidable (s.started = true ∧ s.stopping = false))

instance (cfg : Config) (s : St) : ∀ e, Decidable (Compensated cfg s e)
  | .notify i => inferInstanceAs (Decidable (∀ c ∈ s.notifies[i]?, Active s → turnedAway cfg s c = true → Waiting s c →
      Served { s with notifies := s.notifies.eraseIdx i } c))
  | .drainPending i => inferInstanceAs (Decidable (∀ a ∈ s.starting[i]?, Active s → ∀ c ∈ order a,
      turnedAway cfg s c = true → Waiting s c → Served { s with starting := s.starting.eraseIdx i } c))
  | .retryDeadLetter id _ => inferInstanceAs (Decidable (Active s → ∀ r ∈ s.queue.rows,
      Queue.isDeadLetter id r = true → Served s r.chatId))
  | .insert .. | .claim .. | .resume _ | .reject _ | .task .. | .finish _ | .start | .subscribed _ | .query .. | .stop
  | .drained _ | .drainTimeout _ | .stopReturn _ | .crash | .boot _ => inferInstanceAs (Decidable True)

open Slots in
/-- With room for both chats both messages are answered, and nothing is left behind. -/
theorem room_for_both_strands_none : ∃ s, exec (machine (cfg 5)) St.init
    (oneByOne (msg "1" "tg:1") (msg "2" "tg:2") ++ answered ++ answered ++ [.claim 0 0 0, .resume 0]) = some s ∧
      Quiescent s ∧ NoneStranded s := by
  refine ⟨_, rfl, ⟨rfl, ⟨rfl, rfl⟩, rfl, rfl, rfl, rfl⟩, none_stranded (cfg 5) _ (reach_of_exec
    (oneByOne (msg "1" "tg:1") (msg "2" "tg:2") ++ answered ++ answered ++ [.claim 0 0 0, .resume 0]) ?_ rfl)⟩
  decide

open Slots in
/-- A limit of one: the second chat's NOTIFY is turned away while the first is answered,
    and nothing takes its message up afterwards. -/
theorem turned_away_is_stranded : ∃ s, Reach (machine (cfg 1)) Free s ∧ ¬ NoneStranded s := by
  refine ⟨_, reach_of_exec (oneByOne (msg "1" "tg:1") (msg "2" "tg:2") ++ answered) (meets_free _ _) rfl, ?_⟩
  intro h
  exact absurd (h ⟨rfl, ⟨rfl, rfl⟩, rfl, rfl, rfl, rfl⟩ _ (List.mem_cons_of_mem _ (List.mem_singleton.mpr rfl))) (by decide)

end FlowHelm.Orchestrator.Drain
