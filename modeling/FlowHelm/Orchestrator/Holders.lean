/-
  FlowHelm.Orchestrator.Holders — a queue item is held at most once.

  An item is held by the call that claimed it, then by its task until the task's own
  statement on the row (the acknowledge, or the `fail`) is behind it. The table keeps the
  two apart: a held row is neither pending nor a dead letter, so neither a dequeue nor a
  `retryDeadLetter` can hand it out again, and `recoverStuckMessages` runs before anything
  of the process is in memory.

  - `holders_next`: only a dequeue adds a holder.
  - `inv`: over every run, at most one holder, whose row is processing or completed.
-/
import FlowHelm.Orchestrator.Machine

namespace FlowHelm.Orchestrator

open Runs

/-- The task's statement on the row of id `id` is still ahead of it. -/
def Task.holds (id : Nat) (t : Task) : Bool := t.item.id == id && !t.pc.settled

def St.holders (s : St) (id : Nat) : Nat := s.calls.countP (Call.holds id) + s.tasks.countP (Task.holds id)

namespace Holders

/-! ## Counting -/

theorem held_of_holders {s : St} {id : Nat} (h : 0 < s.holders id) : ∃ it, s.Held it ∧ it.id = id := by
  unfold St.holders at h
  by_cases hc : 0 < s.calls.countP (Call.holds id)
  · obtain ⟨x, hx, hh⟩ := List.countP_pos_iff.mp hc
    unfold Call.holds at hh
    split at hh
    · rename_i it hg
      exact ⟨it, Or.inl ⟨x, hx, hg⟩, by simpa using hh⟩
    · cases hh
  · have ht : 0 < s.tasks.countP (Task.holds id) := by omega
    obtain ⟨x, hx, hh⟩ := List.countP_pos_iff.mp ht
    simp only [Task.holds, Bool.and_eq_true, beq_iff_eq] at hh
    exact ⟨x.item, Or.inr ⟨x, hx, rfl⟩, hh.1⟩

theorem holders_launch (s : St) (cs : List String) (id : Nat) : (launch s cs).holders id = s.holders id := by
  have h0 : (cs.map fun x => (⟨x, none⟩ : Call)).countP (Call.holds id) = 0 := by
    rw [List.countP_eq_zero]
    intro x hx
    obtain ⟨y, -, rfl⟩ := List.mem_map.mp hx
    simp [Call.holds]
  simp only [St.holders, launch, List.countP_append, h0]
  rfl

/-- A task's step never makes it a holder. -/
theorem step_holds {cfg : Config} {t t' : Task} {r : Ret} {e : Effect} (h : t.step cfg r = some (t', e)) (id : Nat)
    (hh : t'.holds id = true) : t.holds id = true := by
  have hitem := step_item h
  simp only [Task.holds, Bool.and_eq_true, hitem] at hh ⊢
  refine ⟨hh.1, ?_⟩
  have hset := hh.2
  cases Task.step_move h with
  | heard x hpc => simp [hpc, Pc.settled]
  | unheard x hpc => simp [hpc, Pc.settled]
  | unlinked hpc => simp [hpc, Pc.settled]
  | kept x hpc => simp [hpc, Pc.settled]
  | quiet r pc hin =>
    simp only [Pc.inner, Bool.and_eq_true] at hin
    exact hin.2
  | hand hpc => simp [hpc, Pc.settled]
  | sent res d hpc => simp [hpc, Pc.settled]
  | acked hpc => simp [Pc.settled] at hset
  | ackLost x hpc =>
    cases hp : t.pc <;> simp [hp, Pc.acking, Pc.settled] at hpc ⊢
  | failed r x pc hpc => simp [hpc, Pc.settled]
  | failRefused x y hpc => simp [hpc, Pc.settled]
  | notice r pc hpc hs =>
    simp [hs] at hset

theorem holders_task {s : St} {cfg : Config} {t t' : Task} {r : Ret} {e : Effect} {pre post : List Task}
    (hs : s.tasks = pre ++ t :: post) (h : t.step cfg r = some (t', e)) (id : Nat) :
    s.calls.countP (Call.holds id) + (pre ++ t' :: post).countP (Task.holds id) ≤ s.holders id := by
  have hle : (if t'.holds id then 1 else 0) ≤ if t.holds id then 1 else 0 := by
    by_cases hh : t'.holds id = true
    · simp [hh, step_holds h id hh]
    · simp [hh]
  simp only [St.holders, hs, List.countP_append, List.countP_cons]
  omega

/-- Only a dequeue adds a holder, and only of the row it took and marked. -/
theorem holders_next {cfg : Config} {s t : St} {e : Ev} (hn : Next cfg s e t) (id : Nat) :
    t.holders id ≤ s.holders id ∨
      (t.holders id = s.holders id + 1 ∧ (∃ r ∈ s.queue.rows, r.id = id ∧ r.status = .pending) ∧
        ∀ r ∈ t.queue.rows, r.id = id → r.status = .processing) := by
  cases hn with
  | notified i c pre post hi hs => exact Or.inl (Nat.le_of_eq (holders_launch _ _ _))
  | drainedPending i order pre post hi hs => exact Or.inl (Nat.le_of_eq (holders_launch _ _ _))
  | claimed k tie now c r pre post hs hr hp hrc =>
    by_cases hid : r.id = id
    · refine Or.inr ⟨?_, ⟨r, hr, hid, hp⟩, ?_⟩
      · simp [St.holders, hs, Call.holds, rowToItem, Queue.setClaimed, hid]
        omega
      · intro x hx hxid
        rcases Queue.mem_set hx with ⟨-, hne⟩ | ⟨r0, h0, -, rfl⟩
        · simp [hxid, hid] at hne
        · rfl
    · refine Or.inl ?_
      simp [St.holders, hs, Call.holds, rowToItem, Queue.setClaimed, hid]
  | cameEmpty k tie now c pre post hs => exact Or.inl (by simp [St.holders, hs, Call.holds])
  | dropped k c pre post hs => exact Or.inl (by simp [St.holders, hs, Call.holds])
  | begun k c it pre post hs =>
    refine Or.inl ?_
    have hle : (if (Task.start cfg it).holds id then 1 else 0) ≤ if Call.holds id ⟨c, some (some it)⟩ then 1 else 0 := by
      unfold Task.holds Call.holds
      rw [Task.start_item]
      by_cases hid : it.id == id
      · simp only [hid, if_true]
        split <;> omega
      · simp [hid]
    simp only [St.holders, processQueueItem, hs, List.countP_append, List.countP_cons, List.countP_nil]
    omega
  | rejected k c pre post hc hs =>
    refine Or.inl ?_
    simp only [St.holders, stopCall, hs, List.countP_append, List.countP_cons]
    omega
  | task k ret now t0 t' e pre post ht hs hst => exact Or.inl (holders_task hs hst id)
  | finished k t0 pre post hs hpc =>
    refine Or.inl ?_
    rw [holders_launch]
    simp only [St.holders, hs, List.countP_append, List.countP_cons]
    omega
  | died hup => exact Or.inl (Nat.zero_le _)
  | _ => exact Or.inl (Nat.le_refl _)

/-! ## The invariant -/

def free (r : QueueRow) : Prop := r.status = .pending ∨ r.status = .deadLetter

structure Inv (s : St) : Prop where
  one : ∀ id, s.holders id ≤ 1
  /-- A held row cannot be handed out again. -/
  kept : ∀ r ∈ s.queue.rows, free r → s.holders r.id = 0

theorem init_inv : Inv St.init := by
  refine ⟨fun id => Nat.zero_le _, ?_⟩
  intro r hr
  cases hr

theorem one_next {cfg : Config} {s t : St} {e : Ev} (h : Inv s) (hn : Next cfg s e t) (id : Nat) :
    t.holders id ≤ 1 := by
  have hone := h.one id
  rcases holders_next hn id with hle | ⟨heq, ⟨r, hr, rfl, hp⟩, -⟩
  · omega
  · have h0 := h.kept r hr (Or.inl hp)
    omega

/-- A task that reports a failure holds its row until then. -/
theorem fail_holds {cfg : Config} {t t' : Task} {r : Ret} {error : String}
    (h : t.step cfg r = some (t', .fail error)) : t.holds t.item.id = true ∧ t'.pc.settled = true := by
  have hm := Task.step_move h
  generalize he : Effect.fail error = e at hm
  cases hm with
  | failed r x pc hpc hs => exact ⟨by simp [Task.holds, hpc, Pc.settled], hs⟩
  | sent res d hpc => cases d <;> cases he
  | _ => cases he

/-- A row that is free after an event was unheld before it, or is unheld now. -/
theorem free_next {cfg : Config} {s t : St} {e : Ev} (hb : Base s) (h : Inv s) (hn : Next cfg s e t) {r : QueueRow}
    (hr : r ∈ t.queue.rows) (hf : free r) : s.holders r.id = 0 ∨ t.holders r.id = 0 := by
  cases hn with
  | insert m k now hfr =>
    rcases Queue.mem_enqueue.mp hr with hr | rfl
    · exact Or.inl (h.kept r hr hf)
    · by_contra hne
      obtain ⟨it, hi, hid⟩ := held_of_holders (Nat.pos_of_ne_zero fun h0 => hne (Or.inl h0))
      obtain ⟨r0, h0, hid0, -⟩ := hb.row it hi
      have hlt := s.queue.below r0 h0
      have heq : it.id = s.queue.nextId := hid
      omega
  | retried id now =>
    rcases Queue.mem_set hr with ⟨hr, -⟩ | ⟨r0, h0, hd, rfl⟩
    · exact Or.inl (h.kept r hr hf)
    · simp only [Queue.isDeadLetter, Bool.and_eq_true, beq_iff_eq] at hd
      exact Or.inl (h.kept r0 h0 (Or.inr hd.2))
  | claimed k tie now c r1 pre post hs h1 hp hrc =>
    rcases Queue.mem_set hr with ⟨h0, -⟩ | ⟨r0, h0, hid, rfl⟩
    · exact Or.inl (h.kept r h0 hf)
    · rcases hf with hf | hf <;> cases hf
  | task k ret now t0 t' e pre post ht hs hst =>
    have hr : r ∈ (e.onQueue s.queue t0.item.id now).rows := hr
    cases e with
    | acknowledge =>
      rcases Queue.mem_set hr with ⟨hr, -⟩ | ⟨r0, h0, hid, rfl⟩
      · exact Or.inl (h.kept r hr hf)
      · rcases hf with hf | hf <;> cases hf
    | fail error =>
      rcases Queue.mem_set hr with ⟨hr, -⟩ | ⟨r0, h0, hid, rfl⟩
      · exact Or.inl (h.kept r hr hf)
      · -- the task was the row's only holder, and is not one any more
        obtain ⟨hh, hset⟩ := fail_holds hst
        have hid : r0.id = t0.item.id := by simpa using hid
        have hone := h.one r0.id
        have hnot : t'.holds r0.id = false := by simp [Task.holds, hset]
        rw [← hid] at hh
        refine Or.inr ?_
        show s.calls.countP (Call.holds r0.id) + (pre ++ t' :: post).countP (Task.holds r0.id) = 0
        simp only [St.holders, hs, List.countP_append, List.countP_cons, hh, if_true] at hone
        simp only [List.countP_append, List.countP_cons, hnot, Bool.false_eq_true, if_false]
        omega
    | _ => exact Or.inl (h.kept r hr hf)
  | booted now hup =>
    obtain ⟨hc, ht, -⟩ := hb.down hup
    exact Or.inl (by simp [St.holders, hc, ht])
  | _ => exact Or.inl (h.kept r hr hf)

theorem kept_next {cfg : Config} {s t : St} {e : Ev} (hb : Base s) (h : Inv s) (hn : Next cfg s e t) :
    ∀ r ∈ t.queue.rows, free r → t.holders r.id = 0 := by
  intro r hr hf
  rcases free_next hb h hn hr hf with h0 | h0
  · rcases holders_next hn r.id with hle | ⟨-, -, hproc⟩
    · omega
    · have hp := hproc r hr rfl
      rcases hf with hf | hf <;> rw [hp] at hf <;> cases hf
  · exact h0

theorem inv {cfg : Config} {C : St → Ev → Prop} {s : St} (h : Reach (machine cfg) C s) : Inv s := by
  refine h.inv init_inv ?_
  intro s e t hr hi _ hst
  have hn : Next cfg s e t := step_next hst
  exact ⟨one_next hi hn, kept_next (base hr) hi hn⟩

end Holders

end FlowHelm.Orchestrator
