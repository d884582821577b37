/-
  FlowHelm.Orchestrator.Stop — what a `stop()` that did not time out leaves behind.

  `stop()` waits for `processingCount` to reach zero. The counter goes up when a dequeue's
  answer is taken up, not when the dequeue is sent: an item can be marked processing,
  or be about to be, while the drain sees zero, and its task starts after `stop()` has
  returned. A `start()` still in progress does the same, and so does one that comes
  between the drain and the return; a `fail` that is refused, and a dequeue that is
  executed and rejected, leave a row processing for good.

  - `held_kept`: in orderly runs a processing row is held by somebody.
  - `quiet_next`: behind a clean drain nothing of the process is left that could claim.
  - `stop_leaves_nothing`: in orderly runs, after a `stop()` that did not time out and
    until the next `start()`, no row is processing and no task is there.
  - `a_claimed_item_outlives_the_stop`: a dequeue under way at the drain.
-/
import FlowHelm.Orchestrator.Holders
import FlowHelm.Orchestrator.Slots

namespace FlowHelm.Orchestrator.Stop

open Parties Runs

/-- After a clean `stop()`, until the next `start()`: no row is processing, and no task
    has started. -/
def Halted (s : St) : Prop := s.stopped = true → s.tasks = [] ∧ ∀ r ∈ s.queue.rows, r.status ≠ .processing

/-- The `stop()` has seen its drain through. -/
def closed : Ending → Bool
  | .closing clean => clean
  | _ => false

/-- The statement was refused. -/
def refused : Ret → Bool
  | .threw _ => true
  | _ => false

def hasItem (c : Call) : Bool :=
  match c.got with
  | some (some _) => true
  | _ => false

/-- The drain ends with no dequeue and no `start()` under way and the orchestrator still
    stopping; no `start()` comes between the drain and the return; the database refuses
    no `fail`, and rejects no dequeue it has executed. -/
def Orderly (s : St) : Ev → Prop
  | .drained _ => s.stopping = true ∧ s.starting.isEmpty = true ∧ ∀ c ∈ s.calls, c.live = false
  | .start => ∀ a ∈ s.ending, closed a = false
  | .task k ret _ => ∀ t ∈ s.tasks[k]?, t.pc.failing = true → refused ret = false
  | .reject k => ∀ c ∈ s.calls[k]?, hasItem c = false
  | _ => True

/-! ## A processing row is held -/

theorem start_holds (cfg : Config) (it : QueuedItem) : (Task.start cfg it).holds it.id = true := by
  simp only [Task.holds, Task.start_item, beq_self_eq_true, Bool.true_and]
  unfold Task.start
  simp only []
  split
  · split <;> rfl
  · have h := (Task.afterAudio_inner ⟨it, it.message.text, .finally, false⟩).1
    simp only [Pc.inner, Bool.and_eq_true] at h
    exact h.2

/-- The effect is a statement on the task's row. -/
def onRow : Effect → Bool
  | .acknowledge => true
  | .fail _ => true
  | _ => false

/-- A step that leaves its row alone keeps hold of it. -/
theorem held_kept {cfg : Config} {t t' : Task} {r : Ret} {e : Effect} (h : t.step cfg r = some (t', e))
    (href : t.pc.failing = true → refused r = false) (he : onRow e = false) {id : Nat}
    (hold : t.holds id = true) : t'.holds id = true := by
  have hitem := step_item h
  simp only [Task.holds, Bool.and_eq_true, hitem] at hold ⊢
  refine ⟨hold.1, ?_⟩
  have hset := hold.2
  cases Task.step_move h with
  | heard x hpc => rfl
  | unheard x hpc => rfl
  | unlinked hpc =>
    have hin := (Task.afterAudio_inner t).1
    simp only [Pc.inner, Bool.and_eq_true] at hin
    exact hin.2
  | kept x hpc =>
    have hin := (Task.afterAudio_inner t).1
    simp only [Pc.inner, Bool.and_eq_true] at hin
    exact hin.2
  | quiet r pc hin hout =>
    show (!pc.settled) = true
    cases pc <;> simp [Pc.inner, Pc.failing, Pc.settled] at hout ⊢
  | hand hpc => rfl
  | sent res d hpc => rfl
  | acked hpc => cases he
  | ackLost x hpc => rfl
  | failed r x pc hpc hs => cases he
  | failRefused x y hpc =>
    have := href (by rw [hpc]; rfl)
    cases this
  | notice r pc hpc hs => simp [hpc] at hset

def Claimed (s : St) : Prop := s.up = true → ∀ r ∈ s.queue.rows, r.status = .processing → 0 < s.holders r.id

theorem claimed_next {cfg : Config} {s t : St} {e : Ev} (h : Claimed s) (hc : Orderly s e)
    (hn : Next cfg s e t) : Claimed t := by
  intro hup r hr hp
  cases hn with
  | insert m k now hf =>
    rcases Queue.mem_enqueue.mp hr with hr | rfl
    · exact h hup r hr hp
    · cases hp
  | retried id now =>
    rcases Queue.mem_set hr with ⟨hr, -⟩ | ⟨r0, h0, -, rfl⟩
    · exact h hup r hr hp
    · cases hp
  | notified i c pre post hi hs => rw [Holders.holders_launch]; exact h hup r hr hp
  | drainedPending i order pre post hi hs => rw [Holders.holders_launch]; exact h hup r hr hp
  | claimed k tie now c x pre post hs hx hxp hrc =>
    rcases Queue.mem_set hr with ⟨hr, -⟩ | ⟨r0, h0, hid, rfl⟩
    · have hpos := h hup r hr hp
      have hnone : Call.holds r.id ⟨c, none⟩ = false := rfl
      simp only [St.holders, hs, List.countP_append, List.countP_cons, hnone, Bool.false_eq_true, if_false] at hpos ⊢
      omega
    · have hid : r0.id = x.id := by simpa using hid
      have hholds : Call.holds (Queue.setClaimed now r0).id
          ⟨c, some (some (rowToItem (Queue.setClaimed now x)))⟩ = true := by
        simp [Call.holds, rowToItem, Queue.setClaimed, hid]
      simp only [St.holders, List.countP_append, List.countP_cons, hholds, if_true]
      omega
  | cameEmpty k tie now c pre post hs =>
    have hpos := h hup r hr hp
    simpa [St.holders, hs, Call.holds] using hpos
  | dropped k c pre post hs =>
    have hpos := h hup r hr hp
    simpa [St.holders, hs, Call.holds] using hpos
  | begun k c it pre post hs =>
    have hpos := h hup r hr hp
    have hle : (if Call.holds r.id ⟨c, some (some it)⟩ then 1 else 0) ≤
        if (Task.start cfg it).holds r.id then 1 else 0 := by
      by_cases hid : it.id = r.id
      · rw [← hid, start_holds]
        simp only [if_true]
        split <;> omega
      · simp [Call.holds, hid]
    simp only [St.holders, processQueueItem, hs, List.countP_append, List.countP_cons, List.countP_nil] at hpos ⊢
    omega
  | rejected k c pre post hk hs =>
    have hpos := h hup r hr hp
    have hno : Call.holds r.id c = false := by
      have hitem := hc c hk
      unfold hasItem at hitem
      unfold Call.holds
      split
      · rename_i it hg
        simp [hg] at hitem
      · rfl
    simpa [St.holders, stopCall, hs, hno] using hpos
  | task k ret now t0 t' e pre post hk hs hst =>
    have hr : r ∈ (e.onQueue s.queue t0.item.id now).rows := hr
    have hkeep : ∀ r ∈ s.queue.rows, r.status = .processing → (onRow e = false ∨ r.id ≠ t0.item.id) →
        0 < s.calls.countP (Call.holds r.id) + (pre ++ t' :: post).countP (Task.holds r.id) := by
      intro r hr hp hor
      have hpos := h hup r hr hp
      have hle : (if t0.holds r.id then 1 else 0) ≤ if t'.holds r.id then 1 else 0 := by
        by_cases hh : t0.holds r.id = true
        · rcases hor with he | hne
          · simp [hh, held_kept hst (hc t0 hk) he hh]
          · simp only [Task.holds, Bool.and_eq_true, beq_iff_eq] at hh
            exact absurd hh.1.symm hne
        · simp [hh]
      simp only [St.holders, hs, List.countP_append, List.countP_cons] at hpos ⊢
      omega
    cases e with
    | acknowledge =>
      rcases Queue.mem_set hr with ⟨hr, hne⟩ | ⟨r0, h0, -, rfl⟩
      · exact hkeep r hr hp (Or.inr (by simpa using hne))
      · cases hp
    | fail error =>
      rcases Queue.mem_set hr with ⟨hr, hne⟩ | ⟨r0, h0, -, rfl⟩
      · exact hkeep r hr hp (Or.inr (by simpa using hne))
      · rcases Queue.fail_status r0 error now with ⟨hst', -⟩ | ⟨hst', -⟩ <;> rw [hst'] at hp <;> cases hp
    | _ => exact hkeep r hr hp (Or.inl rfl)
  | finished k t0 pre post hs hpc =>
    have hpos := h hup r hr hp
    have hno : t0.holds r.id = false := by simp [Task.holds, hpc, Pc.settled]
    rw [Holders.holders_launch]
    simpa [St.holders, hs, hno] using hpos
  | died hup' => cases hup
  | booted now hup' => exact absurd hp (Queue.recover_status hr)
  | _ => exact h hup r hr hp

/-! ## Behind a clean drain -/

structure Inv (s : St) : Prop where
  claimed : Claimed s
  counted : s.processingCount = s.tasks.length
  /-- A `stop()` in progress, or behind, is of this process. -/
  alive : s.stopped = true ∨ s.ending ≠ [] → s.up = true
  /-- Behind a clean drain nothing is left that could claim an item. -/
  quiet : s.stopped = true ∨ .closing true ∈ s.ending →
    s.stopping = true ∧ s.starting = [] ∧ s.tasks = [] ∧ ∀ c ∈ s.calls, c.live = false

theorem init_inv : Inv St.init := by
  refine ⟨?_, rfl, ?_, ?_⟩
  · intro hup
    cases hup
  · intro h
    rcases h with h | h
    · cases h
    · exact absurd rfl h
  · intro h
    rcases h with h | h
    · cases h
    · cases h

theorem counted_next {cfg : Config} {s t : St} {e : Ev} (h : s.processingCount = s.tasks.length)
    (hn : Next cfg s e t) : t.processingCount = t.tasks.length := by
  cases hn with
  | begun k c it pre post hs =>
    show s.processingCount + 1 = ((s.tasks ++ [Task.start cfg it]).length : Int)
    rw [h, List.length_append]
    rfl
  | task k ret now t0 t' e pre post hk hs hst =>
    show s.processingCount = ((pre ++ t' :: post).length : Int)
    rw [h, hs]
    simp
  | finished k t0 pre post hs hpc =>
    show s.processingCount - 1 = ((pre ++ post).length : Int)
    rw [h, hs]
    simp
    omega
  | died hup => rfl
  | _ => exact h

theorem alive_next {cfg : Config} {s t : St} {e : Ev} (hb : Base s) (h : s.stopped = true ∨ s.ending ≠ [] → s.up = true)
    (hn : Next cfg s e t) (hs : t.stopped = true ∨ t.ending ≠ []) : t.up = true := by
  cases hn with
  | rejected k c pre post hk he =>
    by_contra hup
    have hidle := hb.down (by simpa [stopCall] using hup)
    rw [hidle.1] at he
    simp at he
  | started hup => exact hup
  | stopCalled hup => exact hup
  | drained i pre post he hc => exact h (Or.inr (by simp [he]))
  | timedOut i pre post he hc => exact h (Or.inr (by simp [he]))
  | stopReturned i clean pre post he => exact h (Or.inr (by simp [he]))
  | died hup =>
    rcases hs with hs | hs
    · cases hs
    · exact absurd rfl hs
  | booted now hup => rfl
  | _ => exact h hs

theorem quiet_next {cfg : Config} {s t : St} {e : Ev} (h : Inv s) (hc : Orderly s e) (hn : Next cfg s e t)
    (hs : t.stopped = true ∨ .closing true ∈ t.ending) :
    t.stopping = true ∧ t.starting = [] ∧ t.tasks = [] ∧ ∀ c ∈ t.calls, c.live = false := by
  cases hn with
  | notified i c pre post hi he =>
    obtain ⟨hst, hstart, ht, hcalls⟩ := h.quiet hs
    have hno : launched cfg s (.notify i) = [] := by simp [launched, hi, hst]
    rw [hno, launch_nil]
    exact ⟨hst, hstart, ht, hcalls⟩
  | claimed k tie now c r pre post he =>
    have hlive := (h.quiet hs).2.2.2 ⟨c, none⟩ (by simp [he])
    cases hlive
  | cameEmpty k tie now c pre post he =>
    have hlive := (h.quiet hs).2.2.2 ⟨c, none⟩ (by simp [he])
    cases hlive
  | dropped k c pre post he =>
    obtain ⟨hst, hstart, ht, hcalls⟩ := h.quiet hs
    refine ⟨hst, hstart, ht, ?_⟩
    intro x hx
    exact hcalls x (mem_others he hx)
  | begun k c it pre post he =>
    have hlive := (h.quiet hs).2.2.2 ⟨c, some (some it)⟩ (by simp [he])
    cases hlive
  | rejected k c pre post hk he =>
    have hs : s.stopped = true ∨ .closing true ∈ s.ending := by
      rcases hs with hs | hs
      · exact Or.inl hs
      · exact Or.inr (by simpa [stopCall] using hs)
    obtain ⟨hst, hstart, ht, hcalls⟩ := h.quiet hs
    refine ⟨rfl, hstart, ht, ?_⟩
    intro x hx
    exact hcalls x (mem_others he hx)
  | task k ret now t0 t' e pre post hk he hst =>
    have ht := (h.quiet hs).2.2.1
    rw [he] at ht
    simp at ht
  | finished k t0 pre post he hpc =>
    have ht := (h.quiet hs).2.2.1
    rw [he] at ht
    simp at ht
  | started hup =>
    rcases hs with hs | hs
    · cases hs
    · have := hc _ hs
      cases this
  | subscribed i pre post he =>
    have hstart := (h.quiet hs).2.1
    rw [he] at hstart
    simp at hstart
  | queried i order pre post he hp =>
    have hstart := (h.quiet hs).2.1
    rw [he] at hstart
    simp at hstart
  | drainedPending i order pre post hi he =>
    have hstart := (h.quiet hs).2.1
    rw [he] at hstart
    simp at hstart
  | stopCalled hup =>
    have hs : s.stopped = true ∨ .closing true ∈ s.ending := by
      rcases hs with hs | hs
      · exact Or.inl hs
      · exact Or.inr (by simpa [stopCall] using hs)
    obtain ⟨-, hstart, ht, hcalls⟩ := h.quiet hs
    exact ⟨rfl, hstart, ht, hcalls⟩
  | drained i pre post he hcount =>
    obtain ⟨hst, hstart, hcalls⟩ := hc
    refine ⟨hst, List.isEmpty_iff.mp hstart, ?_, hcalls⟩
    have hlen := h.counted
    show s.tasks = []
    exact List.eq_nil_of_length_eq_zero (by omega)
  | timedOut i pre post he hcount =>
    refine h.quiet ?_
    rcases hs with hs | hs
    · exact Or.inl hs
    · exact Or.inr (by rw [he]; simpa using hs)
  | stopReturned i clean pre post he =>
    refine h.quiet ?_
    rcases hs with hs | hs
    · cases clean with
      | true => exact Or.inr (by simp [he])
      | false => exact Or.inl (by simpa using hs)
    · exact Or.inr (by rw [he]; simp at hs ⊢; tauto)
  | died hup => rcases hs with hs | hs <;> cases hs
  | insert | retried | booted => exact h.quiet hs

theorem inv {cfg : Config} {s : St} (h : Reach (machine cfg) Orderly s) : Inv s := by
  refine h.inv init_inv ?_
  intro s e t hr hi hc hst
  have hn : Next cfg s e t := step_next hst
  exact ⟨claimed_next hi.claimed hc hn, counted_next hi.counted hn, alive_next (base hr) hi.alive hn,
    quiet_next hi hc hn⟩

/-! ## A clean stop -/

/-- In every orderly run, after a `stop()` that did not time out and until the next
    `start()`, no row is processing and no task has started. -/
theorem stop_leaves_nothing (cfg : Config) (s : St) (h : Reach (machine cfg) Orderly s) : Halted s := by
  intro hs
  have hi := inv h
  obtain ⟨-, -, ht, hcalls⟩ := hi.quiet (Or.inl hs)
  refine ⟨ht, ?_⟩
  intro r hr hp
  have hpos := hi.claimed (hi.alive (Or.inl hs)) r hr hp
  have hnone : s.calls.countP (Call.holds r.id) = 0 := by
    rw [List.countP_eq_zero]
    intro c hc hh
    have hlive := hcalls c hc
    unfold Call.holds at hh
    unfold Call.live at hlive
    split at hlive
    · rename_i hg
      simp [hg] at hh
    · cases hlive
  simp [St.holders, ht, hnone] at hpos

instance (s : St) : ∀ e, Decidable (Orderly s e)
  | .drained _ => inferInstanceAs (Decidable (s.stopping = true ∧ s.starting.isEmpty = true ∧ ∀ c ∈ s.calls, c.live = false))
  | .start => inferInstanceAs (Decidable (∀ a ∈ s.ending, closed a = false))
  | .task k ret _ => inferInstanceAs (Decidable (∀ t ∈ s.tasks[k]?, t.pc.failing = true → refused ret = false))
  | .reject k => inferInstanceAs (Decidable (∀ c ∈ s.calls[k]?, hasItem c = false))
  | .insert .. | .retryDeadLetter .. | .notify _ | .claim .. | .resume _ | .finish _ | .subscribed _ | .query ..
  | .drainPending _ | .stop | .drainTimeout _ | .stopReturn _ | .crash | .boot _ => inferInstanceAs (Decidable True)

open Slots in
/-- A message is answered while `stop()` waits for it. -/
def stopAfterwards : List Ev :=
  comeUp ++ [.insert (msg "1" "tg:1") 3 0, .notify 0, .claim 0 0 0, .resume 0, .stop] ++ untilSent ++
    [.ok, .missing, .ok, .ok, .missing, .ok].map (.task 0 · 0) ++ [.finish 0, .drained 0, .stopReturn 0]

theorem a_drained_stop_is_halted : ∃ s, exec (machine (Slots.cfg 5)) St.init stopAfterwards = some s ∧
    s.stopped = true ∧ Halted s := by
  refine ⟨_, rfl, rfl, stop_leaves_nothing (Slots.cfg 5) _ (reach_of_exec stopAfterwards ?_ rfl)⟩
  decide

open Slots in
/-- `stop()` comes while a dequeue is under way, and returns at once. -/
def stopBetween : List Ev :=
  comeUp ++ [.insert (msg "1" "tg:1") 3 0, .notify 0, .claim 0 0 0, .stop, .drained 0, .stopReturn 0, .resume 0]

/-- The dequeue had marked its item processing, and its task starts behind the return. -/
theorem a_claimed_item_outlives_the_stop : ∃ s, Reach (machine (Slots.cfg 5)) Free s ∧ ¬ Halted s := by
  refine ⟨_, reach_of_exec stopBetween (meets_free _ _) rfl, ?_⟩
  intro h
  have hnone := (h rfl).1
  cases hnone

end FlowHelm.Orchestrator.Stop
