/-
  FlowHelm.Orchestrator.Delivery — how often a queue item's response reaches the channel.

  The send is not undone when a later step of the attempt fails, and the retry does not
  know of it: nothing records that a response went out. docs/database.md asks for
  at-least-once delivery only. What does hold is one response for each attempt cut short
  behind its send, and one more.

  - `open_step` / `deliver_step`: how an attempt that has delivered goes on, and where
    the delivery comes from.
  - `once_and_once_per_interruption`: over every run, an item's responses are at most one
    more than its attempts cut short behind their send.
  - `a_failing_store_sends_twice`: `storeMessage` fails behind the send.
-/
import FlowHelm.Orchestrator.Holders
import FlowHelm.Orchestrator.Slots

namespace FlowHelm.Orchestrator.Delivery

open Runs

def AtMostOnce (s : St) : Prop := ∀ id, s.sent.count id ≤ 1

/-- One response, and one for each attempt cut short behind its send. -/
def OncePerInterruption (s : St) : Prop := ∀ id, s.sent.count id ≤ s.interrupted.count id + 1

/-! ## An attempt that has delivered -/

theorem open_holds {t : Task} (h : t.open = true) : t.holds t.item.id = true := by
  simp only [Task.open, Bool.and_eq_true] at h
  have hr := h.2
  simp only [Task.holds, beq_self_eq_true, Bool.true_and]
  cases hp : t.pc <;> simp [hp, Pc.replying, Pc.settled] at hr ⊢

/-- It stays open, fails, or is acknowledged. -/
theorem open_step {cfg : Config} {t t' : Task} {r : Ret} {e : Effect} (h : t.step cfg r = some (t', e))
    (ho : t.open = true) :
    e ≠ .deliver ∧ (t'.open = true ∨ t'.pc.failing = true ∨ (e = .acknowledge ∧ t'.pc.settled = true)) := by
  simp only [Task.open, Bool.and_eq_true] at ho
  obtain ⟨hd, hr⟩ := ho
  cases Task.step_move h with
  | heard x hpc => simp [hpc, Pc.replying] at hr
  | unheard x hpc => simp [hpc, Pc.replying] at hr
  | unlinked hpc => simp [hpc, Pc.replying] at hr
  | kept x hpc => simp [hpc, Pc.replying] at hr
  | quiet r pc hin hout hrep =>
    have hnext := hrep hr
    simp only [Bool.or_eq_true] at hnext
    refine ⟨nofun, ?_⟩
    rcases hnext with hnext | hnext
    · exact Or.inl (by simp [Task.open, hd, hnext])
    · exact Or.inr (Or.inl hnext)
  | hand hpc => simp [hpc, Pc.replying] at hr
  | sent res d hpc => simp [hpc, Pc.replying] at hr
  | acked hpc => exact ⟨nofun, Or.inr (Or.inr ⟨rfl, rfl⟩)⟩
  | ackLost x hpc => exact ⟨nofun, Or.inr (Or.inl rfl)⟩
  | failed r x pc hpc hs => simp [hpc, Pc.replying] at hr
  | failRefused x y hpc => simp [hpc, Pc.replying] at hr
  | notice r pc hpc hs =>
    cases hp : t.pc <;> simp [hp, Pc.settled, Pc.replying] at hpc hr

/-- Only an attempt that has not delivered delivers. -/
theorem deliver_step {cfg : Config} {t t' : Task} {r : Ret} (h : t.step cfg r = some (t', .deliver)) :
    t.open = false ∧ t.holds t.item.id = true ∧ t'.open = true := by
  have hm := Task.step_move h
  generalize he : Effect.deliver = e at hm
  cases hm with
  | sent res d hpc =>
    cases d with
    | false => cases he
    | true => simp [Task.open, Task.holds, hpc, Pc.replying, Pc.settled]
  | _ => cases he

/-! ## The account of an item -/

def opens (s : St) (id : Nat) : Nat := s.tasks.countP fun t => t.item.id == id && t.open

/-- Completed, and nobody holds it. -/
def Done (s : St) (id : Nat) : Prop := s.holders id = 0 ∧ ∃ r ∈ s.queue.rows, r.id = id ∧ r.status = .completed

/-- Either every response is accounted for by an interruption, or the last one's attempt
    can still complete, or has. -/
def Account (s : St) (id : Nat) : Prop :=
  s.sent.count id ≤ s.interrupted.count id ∨
    (s.sent.count id = s.interrupted.count id + 1 ∧ (0 < opens s id ∨ Done s id))

/-- A completed item that nobody holds stays so. -/
theorem done_next {cfg : Config} {s t : St} {e : Ev} {id : Nat} (hn : Next cfg s e t) (h : Done s id) : Done t id := by
  obtain ⟨h0, r, hr, hid, hst⟩ := h
  have hdiff : ∀ x ∈ s.queue.rows, x.id = id → x.status = .completed := by
    intro x hx hxid
    rw [Queue.eq_of_id hx hr (hxid.trans hid.symm)]
    exact hst
  refine ⟨?_, ?_⟩
  · rcases Holders.holders_next hn id with hle | ⟨-, ⟨x, hx, hxid, hp⟩, -⟩
    · omega
    · rw [hdiff x hx hxid] at hp
      cases hp
  have hleft : ∀ {p : QueueRow → Bool} {set : QueueRow → QueueRow}, p r = false →
      r ∈ s.queue.rows.map fun r => if p r then set r else r :=
    fun hp => List.mem_map.mpr ⟨r, hr, by simp [hp]⟩
  cases hn with
  | insert m k now hf => exact ⟨r, Queue.mem_enqueue.mpr (Or.inl hr), hid, hst⟩
  | retried i now => exact ⟨r, hleft (by simp [Queue.isDeadLetter, hst]), hid, hst⟩
  | claimed k tie now c x pre post hs hx hp hrc =>
    refine ⟨r, hleft ?_, hid, hst⟩
    by_contra he
    have hxid : r.id = x.id := by simpa using he
    rw [hdiff x hx (hxid.symm.trans hid)] at hp
    cases hp
  | booted now hup => exact ⟨r, hleft (by simp [hst]), hid, hst⟩
  | task k ret now t0 t' e pre post ht hs hstep =>
    show ∃ x ∈ (e.onQueue s.queue t0.item.id now).rows, x.id = id ∧ x.status = .completed
    cases e with
    | acknowledge =>
      refine ⟨_, List.mem_map.mpr ⟨r, hr, rfl⟩, ?_⟩
      split
      · exact ⟨hid, rfl⟩
      · exact ⟨hid, hst⟩
    | fail error =>
      refine ⟨r, hleft ?_, hid, hst⟩
      by_contra he
      have hxid : r.id = t0.item.id := by simpa using he
      have hh := (Holders.fail_holds hstep).1
      rw [← hxid, hid] at hh
      have hpos : 0 < s.tasks.countP (Task.holds id) :=
        List.countP_pos_iff.mpr ⟨t0, List.mem_of_getElem? ht, hh⟩
      unfold St.holders at h0
      omega
    | _ => exact ⟨r, hr, hid, hst⟩
  | _ => exact ⟨r, hr, hid, hst⟩

/-! ## One event -/

/-- The state behind a step of the task between `pre` and `post`. -/
def behind (s : St) (pre post : List Task) (t0 t' : Task) (now : Nat) (e : Effect) : St :=
  perform { s with tasks := pre ++ t' :: post, interrupted := s.interrupted ++ cut t0 t' } t0.item.id now e

theorem opens_split {s : St} (pre post : List Task) (t : Task) (hs : s.tasks = pre ++ t :: post) (id : Nat) :
    opens s id = (pre ++ post).countP (fun t => t.item.id == id && t.open) +
      if t.item.id == id && t.open then 1 else 0 := by
  unfold opens
  rw [hs, List.countP_append, List.countP_append, List.countP_cons]
  omega

section Task

variable {cfg : Config} {s : St} {now : Nat} {ret : Ret} {t0 t' : Task} {e : Effect} {pre post : List Task}

/-- While a task that is not open holds an item, no attempt on it is open. -/
theorem opens_of_holder (hh : Holders.Inv s) (hs : s.tasks = pre ++ t0 :: post) (ho : t0.open = false)
    (hold : t0.holds t0.item.id = true) : opens s t0.item.id = 0 := by
  have hone := hh.one t0.item.id
  have hle : (pre ++ post).countP (fun t => t.item.id == t0.item.id && t.open) ≤
      (pre ++ post).countP (Task.holds t0.item.id) := by
    refine List.countP_mono_left ?_
    intro t _ hto
    simp only [Bool.and_eq_true, beq_iff_eq] at hto
    exact hto.1 ▸ open_holds hto.2
  rw [opens_split pre post t0 hs, ho, Bool.and_false]
  simp only [St.holders, hs, List.countP_append, List.countP_cons, hold, if_true] at hone
  simp only [List.countP_append, Bool.false_eq_true, if_false] at hle ⊢
  omega

/-- The step of another item's task. -/
theorem account_other {id : Nat} (hs : s.tasks = pre ++ t0 :: post) (hstep : t0.step cfg ret = some (t', e))
    (hid : t0.item.id ≠ id) (h : Account s id) (hd : Done s id → Done (behind s pre post t0 t' now e) id) :
    Account (behind s pre post t0 t' now e) id := by
  have hcut : (cut t0 t').count id = 0 := by
    unfold cut
    split <;> simp [hid]
  have hsent : (e.sent t0.item.id).count id = 0 := by
    cases e <;> simp [Effect.sent, hid]
  have hopens : opens (behind s pre post t0 t' now e) id = opens s id := by
    rw [opens_split pre post t0 hs, opens_split pre post t' rfl, step_item hstep]
    simp [hid]
  unfold Account at h ⊢
  rw [hopens]
  simp only [behind, perform, List.count_append, hcut, hsent, Nat.add_zero] at hd ⊢
  rcases h with h | ⟨heq, h | h⟩
  · exact Or.inl h
  · exact Or.inr ⟨heq, Or.inl h⟩
  · exact Or.inr ⟨heq, Or.inr (hd h)⟩

/-- An attempt that had delivered stays open, is cut short, or completes. -/
theorem account_open (hb : Base s) (hh : Holders.Inv s) (hs : s.tasks = pre ++ t0 :: post)
    (hstep : t0.step cfg ret = some (t', e)) (ho : t0.open = true) (h : Account s t0.item.id) :
    Account (behind s pre post t0 t' now e) t0.item.id := by
  obtain ⟨hnd, hgo⟩ := open_step hstep ho
  have hsent : (behind s pre post t0 t' now e).sent = s.sent := by
    have : e.sent t0.item.id = [] := by
      cases e <;> first | rfl | exact absurd rfl hnd
    simp [behind, perform, this]
  have hle : s.sent.count t0.item.id ≤ s.interrupted.count t0.item.id + 1 := by
    rcases h with h | ⟨heq, -⟩ <;> omega
  unfold Account
  rw [hsent]
  by_cases hf : t'.pc.failing = true
  · have hint : (behind s pre post t0 t' now e).interrupted.count t0.item.id =
        s.interrupted.count t0.item.id + 1 := by
      simp [behind, perform, cut, ho, hf]
    exact Or.inl (by omega)
  have hint : (behind s pre post t0 t' now e).interrupted = s.interrupted := by simp [behind, perform, cut, hf]
  rw [hint]
  by_cases heq : s.sent.count t0.item.id ≤ s.interrupted.count t0.item.id
  · exact Or.inl heq
  refine Or.inr ⟨by omega, ?_⟩
  rcases hgo with ho' | hf' | ⟨rfl, hset⟩
  · refine Or.inl ?_
    rw [opens_split pre post t' rfl, step_item hstep]
    simp [ho']
  · exact absurd hf' hf
  · -- acknowledged: the row is completed, and its only holder is through
    have hone := hh.one t0.item.id
    refine Or.inr ⟨?_, ?_⟩
    · have hnot : t'.holds t0.item.id = false := by simp [Task.holds, hset]
      simp only [St.holders, hs, List.countP_append, List.countP_cons, open_holds ho, if_true] at hone
      simp only [St.holders, behind, perform, List.countP_append, List.countP_cons, hnot, Bool.false_eq_true, if_false]
      omega
    · obtain ⟨r, hr, hrid, -⟩ := hb.row t0.item (Or.inr ⟨t0, by simp [hs], rfl⟩)
      exact ⟨Queue.setStatus .completed now r, List.mem_map.mpr ⟨r, hr, by simp [hrid]⟩, hrid, rfl⟩

/-- A delivery: no earlier response of the item is unaccounted for. -/
theorem account_deliver (hh : Holders.Inv s) (hs : s.tasks = pre ++ t0 :: post)
    (hstep : t0.step cfg ret = some (t', .deliver)) (h : Account s t0.item.id) :
    Account (behind s pre post t0 t' now .deliver) t0.item.id := by
  obtain ⟨ho, hold, ho'⟩ := deliver_step hstep
  have h0 := opens_of_holder hh hs ho hold
  have hle : s.sent.count t0.item.id ≤ s.interrupted.count t0.item.id := by
    rcases h with h | ⟨-, h | ⟨hnone, -⟩⟩
    · exact h
    · omega
    · have hpos : 0 < s.tasks.countP (Task.holds t0.item.id) :=
        List.countP_pos_iff.mpr ⟨t0, by simp [hs], hold⟩
      unfold St.holders at hnone
      omega
  have hsent : (behind s pre post t0 t' now .deliver).sent.count t0.item.id = s.sent.count t0.item.id + 1 := by
    simp [behind, perform, Effect.sent]
  have hint : (behind s pre post t0 t' now .deliver).interrupted = s.interrupted := by
    simp [behind, perform, cut, ho]
  have hopens : 0 < opens (behind s pre post t0 t' now .deliver) t0.item.id := by
    rw [opens_split pre post t' rfl, step_item hstep]
    simp [ho']
  unfold Account
  rw [hsent, hint]
  by_cases heq : s.sent.count t0.item.id + 1 ≤ s.interrupted.count t0.item.id
  · exact Or.inl heq
  · exact Or.inr ⟨by omega, Or.inl hopens⟩

/-- Any other step of the item's task. -/
theorem account_quiet (hs : s.tasks = pre ++ t0 :: post) (ho : t0.open = false) (hnd : e ≠ .deliver)
    (h : Account s t0.item.id)
    (hd : Done s t0.item.id → Done (behind s pre post t0 t' now e) t0.item.id) :
    Account (behind s pre post t0 t' now e) t0.item.id := by
  have hsent : (behind s pre post t0 t' now e).sent = s.sent := by
    have : e.sent t0.item.id = [] := by
      cases e <;> first | rfl | exact absurd rfl hnd
    simp [behind, perform, this]
  have hint : (behind s pre post t0 t' now e).interrupted = s.interrupted := by simp [behind, perform, cut, ho]
  have hopens : opens s t0.item.id ≤ opens (behind s pre post t0 t' now e) t0.item.id := by
    rw [opens_split pre post t0 hs, opens_split pre post t' rfl, ho]
    simp
  unfold Account at h ⊢
  rw [hsent, hint]
  rcases h with h | ⟨heq, h | h⟩
  · exact Or.inl h
  · exact Or.inr ⟨heq, Or.inl (by omega)⟩
  · exact Or.inr ⟨heq, Or.inr (hd h)⟩

end Task

/-! ## Every event -/

theorem account_next {cfg : Config} {s t : St} {e : Ev} (hb : Base s) (hh : Holders.Inv s) (hn : Next cfg s e t)
    {id : Nat} (h : Account s id) : Account t id := by
  have hd : Done s id → Done t id := done_next hn
  have hsame : t.sent = s.sent → t.interrupted = s.interrupted → opens s id ≤ opens t id → Account t id := by
    intro hs hi ho
    unfold Account at h ⊢
    rw [hs, hi]
    rcases h with h | ⟨heq, h | h⟩
    · exact Or.inl h
    · exact Or.inr ⟨heq, Or.inl (by omega)⟩
    · exact Or.inr ⟨heq, Or.inr (hd h)⟩
  cases hn with
  | task k ret now t0 t' e pre post ht hs hstep =>
    by_cases hid : t0.item.id = id
    · subst hid
      by_cases ho : t0.open = true
      · exact account_open hb hh hs hstep ho h
      have ho : t0.open = false := by simpa using ho
      by_cases hdel : e = .deliver
      · subst hdel
        exact account_deliver hh hs hstep h
      · exact account_quiet hs ho hdel h hd
    · exact account_other hs hstep hid h hd
  | begun k c it pre post hs =>
    refine hsame rfl rfl ?_
    show opens s id ≤ (s.tasks ++ [Task.start cfg it]).countP _
    rw [List.countP_append]
    exact Nat.le_add_right _ _
  | finished k t0 pre post hs hpc =>
    refine hsame rfl rfl ?_
    have hno : t0.open = false := by simp [Task.open, hpc, Pc.replying]
    rw [opens_split pre post t0 hs, hno]
    simp [opens, launch]
  | died hup =>
    -- every open attempt is cut short
    have hcount : ((s.tasks.filter Task.open).map (·.item.id)).count id = opens s id := by
      unfold opens
      rw [List.count, List.countP_map, List.countP_filter]
      refine List.countP_congr ?_
      intro t _
      simp
    unfold Account at h ⊢
    simp only [crashed, List.count_append, hcount]
    rcases h with h | ⟨heq, h | h⟩
    · exact Or.inl (by omega)
    · exact Or.inl (by omega)
    · by_cases h0 : opens s id = 0
      · exact Or.inr ⟨by omega, Or.inr (hd h)⟩
      · exact Or.inl (by omega)
  | _ => exact hsame rfl rfl (Nat.le_refl _)

/-- In every run, an item's responses are at most one more than its attempts cut short
    behind their send: at most one when none was. -/
theorem once_and_once_per_interruption (cfg : Config) (s : St) (h : Reach (machine cfg) Free s) :
    OncePerInterruption s := by
  have hinv : ∀ id, Account s id := by
    refine h.inv (I := fun s => ∀ id, Account s id) ?_ ?_
    · intro id
      exact Or.inl (Nat.le_refl _)
    · intro s e t hr hi _ hst id
      exact account_next (base hr) (Holders.inv hr) (step_next hst : Next cfg s e t) (hi id)
  intro id
  rcases hinv id with h | ⟨h, -⟩ <;> omega

open Slots in
/-- A message is taken up and its answer delivered. -/
def firstSend : List Ev := comeUp ++ [.insert (msg "1" "tg:1") 3 0, .notify 0, .claim 0 0 0, .resume 0] ++ untilSent

open Slots in
/-- `storeMessage` fails behind the send, and the retry sends again. -/
def sentAgain : List Ev :=
  firstSend ++ [.task 0 .ok 0, .task 0 .missing 0, .task 0 (.threw "connection closed") 0, .task 0 .ok 0, .finish 0,
    .claim 0 0 0, .resume 0] ++ untilSent

open Slots in
theorem a_failing_store_is_one_interruption : ∃ s, exec (machine (cfg 5)) St.init sentAgain = some s ∧
    s.sent = [1, 1] ∧ s.interrupted = [1] ∧ OncePerInterruption s :=
  ⟨_, rfl, rfl, rfl, once_and_once_per_interruption (cfg 5) _ (reach_of_exec sentAgain (meets_free _ _) rfl)⟩

open Slots in
theorem a_failing_store_sends_twice : ∃ s, Reach (machine (cfg 5)) Free s ∧ ¬ AtMostOnce s := by
  refine ⟨_, reach_of_exec sentAgain (meets_free _ _) rfl, ?_⟩
  intro h
  exact absurd (h 1) (by decide)

end FlowHelm.Orchestrator.Delivery
