/-
  FlowHelm.Orchestrator.Attempts — the retry budget of a queue item over any sequence
  of queue operations and restarts.

  `dequeue` counts an attempt, `fail` compares the count with `max_attempts`, and
  `start()` puts every item in flight back to `pending` without looking at either. So
  the budget is kept only while the restarts keep it: an item that takes the process
  down on its last attempt comes back for one more, each time.

  - `Within`: no item has more attempts, or was handed out more often, than its
    `max_attempts` allows.
  - `Spares`: the condition on a step. An enqueue allows at least one attempt, and a
    restart finds no item in flight on its last one.
  - `attempts_within_budget`: runs of sparing steps stay `Within`, and any other step
    can be continued past it.
  - `a_crash_loop_exceeds_the_budget`: four crashes, `max_attempts` 3.
-/
import FlowHelm.Lib.Runs
import FlowHelm.Orchestrator.MessageQueue

namespace FlowHelm.Orchestrator.Attempts

open Runs Queue

structure St where
  queue : Queue
  /-- The ids handed out by a dequeue, newest last. -/
  handed : List Nat

inductive Ev where
  | enqueue (m : InboundMessage) (maxAttempts : Int) (now : Nat)
  | dequeue (tie now : Nat)
  | dequeueForChat (chatId : String) (tie now : Nat)
  | acknowledge (queueId now : Nat)
  | fail (queueId : Nat) (error : String) (now : Nat)
  /-- The process dies at this point and `start()` runs in the next one. -/
  | restart (now : Nat)

def record (s : St) : Option QueuedItem × Queue → St
  | (some it, q) => ⟨q, s.handed ++ [it.id]⟩
  | (none, q) => { s with queue := q }

def next (s : St) : Ev → St
  | .enqueue m k now => { s with queue := s.queue.enqueue m k now }
  | .dequeue tie now => record s (s.queue.dequeue tie now)
  | .dequeueForChat c tie now => record s (s.queue.dequeueForChat c tie now)
  | .acknowledge id now => { s with queue := s.queue.acknowledge id now }
  | .fail id error now => { s with queue := s.queue.fail id error now }
  | .restart now => { s with queue := s.queue.recoverStuckMessages now }

def system : System St Ev := ⟨⟨.empty, []⟩, fun s e => some (next s e)⟩

def Within (s : St) : Prop :=
  ∀ r ∈ s.queue.rows, (r.attempts : Int) ≤ r.maxAttempts ∧ (s.handed.count r.id : Int) ≤ r.maxAttempts

def Spares (s : St) : Ev → Prop
  | .enqueue _ maxAttempts _ => 1 ≤ maxAttempts
  | .restart _ => ∀ r ∈ s.queue.rows, r.status = .processing → (r.attempts : Int) < r.maxAttempts
  | _ => True

/-! ## The invariant -/

structure Inv (s : St) : Prop where
  counted : ∀ r ∈ s.queue.rows, s.handed.count r.id = r.attempts
  issued : ∀ i ∈ s.handed, i < s.queue.nextId
  within : ∀ r ∈ s.queue.rows, (r.attempts : Int) ≤ r.maxAttempts
  /-- A pending item still has an attempt left. -/
  spare : ∀ r ∈ s.queue.rows, r.status = .pending → (r.attempts : Int) < r.maxAttempts

theorem init_inv : Inv system.init := by
  refine ⟨?_, ?_, ?_, ?_⟩ <;> intro r hr <;> cases hr

/-- An UPDATE that keeps ids, attempts and budgets, and puts back only items with an
    attempt left. -/
theorem update_inv {s : St} (h : Inv s) (p : QueueRow → Bool) (set : QueueRow → QueueRow) (hid)
    (ha : ∀ r, (set r).attempts = r.attempts) (hm : ∀ r, (set r).maxAttempts = r.maxAttempts)
    (hs : ∀ r ∈ s.queue.rows, p r = true → (set r).status = .pending → (r.attempts : Int) < r.maxAttempts) :
    Inv { s with queue := s.queue.update p set hid } := by
  refine ⟨fun r hr => ?_, h.issued, fun r hr => ?_, fun r hr hp => ?_⟩ <;>
    obtain ⟨r0, h0, rfl⟩ := List.mem_map.mp hr
  · have hc := h.counted r0 h0
    split
    · rw [hid, ha]; exact hc
    · exact hc
  · have hw := h.within r0 h0
    split
    · rw [ha, hm]; exact hw
    · exact hw
  · split at hp
    · rename_i hpr
      simp only [hpr, if_true, ha, hm]
      exact hs r0 h0 hpr hp
    · rename_i hpr
      simp only [hpr, if_false, Bool.false_eq_true]
      exact h.spare r0 h0 hp

theorem claim_inv {s : St} (h : Inv s) (p : QueueRow → Bool) (hp : ∀ r, p r = true → r.status = .pending)
    (tie now : Nat) : Inv (record s (claim s.queue p tie now)) := by
  rcases hc : claim s.queue p tie now with ⟨_ | it, q⟩
  · obtain ⟨-, rfl⟩ := claim_none hc
    exact h
  obtain ⟨r1, h1, hp1, -, rfl, rfl⟩ := claim_spec hc
  have hspare := h.spare r1 h1 (hp r1 hp1)
  simp only [record]
  -- the row taken is the only one with its id, so only its count moves
  refine ⟨fun r hr => ?_, fun i hi => ?_, fun r hr => ?_, fun r hr hst => ?_⟩
  · obtain ⟨r0, h0, rfl⟩ := List.mem_map.mp hr
    have hc0 := h.counted r0 h0
    by_cases e : r0.id = r1.id
    · simp [rowToItem, setClaimed, e, List.count_append, ← hc0]
    · simp [rowToItem, setClaimed, e, List.count_append, hc0, Ne.symm e]
  · rcases List.mem_append.mp hi with hi | hi
    · exact h.issued i hi
    · simp only [List.mem_singleton] at hi; subst hi
      exact s.queue.below r1 h1
  · obtain ⟨r0, h0, rfl⟩ := List.mem_map.mp hr
    by_cases e : r0.id = r1.id
    · obtain rfl := eq_of_id h0 h1 e
      simp only [beq_self_eq_true, if_true, setClaimed]; omega
    · simpa [e] using h.within r0 h0
  · obtain ⟨r0, h0, rfl⟩ := List.mem_map.mp hr
    by_cases e : r0.id = r1.id
    · simp [e, setClaimed] at hst
    · simp only [beq_iff_eq, e, if_false] at hst ⊢
      exact h.spare r0 h0 hst

theorem enqueue_inv {s : St} (h : Inv s) (m : InboundMessage) {k : Int} (hk : 1 ≤ k) (now : Nat) :
    Inv { s with queue := s.queue.enqueue m k now } := by
  have hfresh : s.handed.count s.queue.nextId = 0 :=
    List.count_eq_zero.mpr fun hm => Nat.lt_irrefl _ (h.issued _ hm)
  refine ⟨fun r hr => ?_, fun i hi => ?_, fun r hr => ?_, fun r hr hp => ?_⟩
  · rcases mem_enqueue.mp hr with hr | rfl
    · exact h.counted r hr
    · exact hfresh
  · have := h.issued i hi; show i < s.queue.nextId + 1; omega
  · rcases mem_enqueue.mp hr with hr | rfl
    · exact h.within r hr
    · show ((0 : Nat) : Int) ≤ k; omega
  · rcases mem_enqueue.mp hr with hr | rfl
    · exact h.spare r hr hp
    · show ((0 : Nat) : Int) < k; omega

theorem step_inv {s : St} (h : Inv s) (e : Ev) (hc : Spares s e) : Inv (next s e) := by
  cases e with
  | enqueue m k now => exact enqueue_inv h m hc now
  | dequeue tie now => exact claim_inv h isPending (fun r hr => by simpa [isPending] using hr) tie now
  | dequeueForChat c tie now =>
    refine claim_inv h _ (fun r hr => ?_) tie now
    simp only [isPending, Bool.and_eq_true, beq_iff_eq] at hr
    exact hr.1
  | acknowledge id now =>
    exact update_inv h _ _ _ (fun _ => rfl) (fun _ => rfl) (fun r _ _ hp => by simp [setStatus] at hp)
  | fail id error now =>
    refine update_inv h _ _ _ (fun _ => rfl) (fun _ => rfl) (fun r _ _ hp => ?_)
    rcases fail_status r error now with ⟨-, hlt⟩ | ⟨hd, -⟩
    · exact hlt
    · simp [hd] at hp
  | restart now =>
    exact update_inv h _ _ _ (fun _ => rfl) (fun _ => rfl) (fun r hr hp _ => hc r hr (by simpa using hp))

theorem inv_within {s : St} (h : Inv s) : Within s := fun r hr =>
  ⟨h.within r hr, by rw [h.counted r hr]; exact h.within r hr⟩

/-! ## A spent item left pending is handed out again -/

/-- Every other item of the ids can be acknowledged out of the way. -/
theorem settle_others (ids : List Nat) {s : St} {r : QueueRow} (hr : r ∈ s.queue.rows) (hid : r.id ∉ ids) :
    ∃ t, Path system s t ∧ r ∈ t.queue.rows ∧
      ∀ x ∈ t.queue.rows, x.status = .pending → x ∈ s.queue.rows ∧ x.id ∉ ids := by
  induction ids generalizing s with
  | nil => exact ⟨s, .refl s, hr, fun x hx _ => ⟨hx, by simp⟩⟩
  | cons i ids ih =>
    have hne : r.id ≠ i := fun e => hid (by simp [e])
    let s1 := next s (.acknowledge i 0)
    have hr1 : r ∈ s1.queue.rows := List.mem_map.mpr ⟨r, hr, by simp [hne]⟩
    obtain ⟨t, hp, hrt, hx⟩ := ih hr1 (fun h => hid (List.mem_cons_of_mem _ h))
    refine ⟨t, .cons (.acknowledge i 0) rfl hp, hrt, fun x hxt hst => ?_⟩
    obtain ⟨hx1, hxi⟩ := hx x hxt hst
    obtain ⟨x0, hx0, rfl⟩ := List.mem_map.mp hx1
    by_cases e : x0.id = i
    · simp [e, setStatus] at hst
    · simp only [beq_iff_eq, e, if_false, List.mem_cons, false_or] at hxi ⊢
      exact ⟨hx0, hxi⟩

theorem pending_is_taken {s : St} {r : QueueRow} (hr : r ∈ s.queue.rows) (hp : r.status = .pending) :
    ∃ t, Path system s t ∧ setClaimed 0 r ∈ t.queue.rows := by
  obtain ⟨u, hpath, hru, hx⟩ := settle_others ((s.queue.rows.map (·.id)).filter (· != r.id)) hr (by simp)
  have hpr : isPending r = true := by simp [isPending, hp]
  obtain ⟨it, q', hc⟩ := claim_finds hru hpr 0 0
  obtain ⟨r1, h1, hp1, -, -, rfl⟩ := claim_spec hc
  obtain ⟨h1s, hid⟩ := hx r1 h1 (by simpa [isPending] using hp1)
  have hid1 : r1.id = r.id := by
    by_contra hne
    exact hid (List.mem_filter.mpr ⟨List.mem_map_of_mem h1s, by simpa using hne⟩)
  refine ⟨next u (.dequeue 0 0), hpath.trans (.single (.dequeue 0 0) rfl), ?_⟩
  have : setClaimed 0 r ∈ (u.queue.update (·.id == r1.id) (setClaimed 0) fun _ => rfl).rows :=
    List.mem_map.mpr ⟨r, hru, by simp [hid1]⟩
  simpa only [next, Queue.dequeue, hc, record] using this

theorem spent_exceeds {s : St} {r : QueueRow} (hr : r ∈ s.queue.rows) (hp : r.status = .pending)
    (hspent : r.maxAttempts ≤ r.attempts) : ∃ t, Path system s t ∧ ¬ Within t := by
  obtain ⟨t, hpath, ht⟩ := pending_is_taken hr hp
  refine ⟨t, hpath, fun hw => ?_⟩
  have h1 : ((r.attempts + 1 : Nat) : Int) ≤ r.maxAttempts := (hw _ ht).1
  omega

/-! ## The budget -/

/-- Over every run whose enqueues allow an attempt and whose restarts find no item in
    flight on its last one, no item exceeds its budget; and from any other step some
    continuation exceeds it. -/
theorem attempts_within_budget (s : St) (h : Reach system Spares s) :
    Within s ∧ ∀ e t, ¬ Spares s e → system.step s e = some t → ∃ u, Path system t u ∧ ¬ Within u := by
  have hinv : Inv s := h.inv init_inv fun s e t _ hi hc he => Option.some.inj he ▸ step_inv hi e hc
  refine ⟨inv_within hinv, ?_⟩
  intro e t hc he
  obtain rfl := Option.some.inj he
  cases e with
  | enqueue m k now =>
    have hnew : newRow s.queue.nextId m k now ∈ (s.queue.enqueue m k now).rows := mem_enqueue.mpr (Or.inr rfl)
    refine spent_exceeds hnew rfl ?_
    have hk : ¬ 1 ≤ k := hc
    show k ≤ ((0 : Nat) : Int); omega
  | restart now =>
    simp only [Spares, not_forall] at hc
    obtain ⟨r, hr, hst, hspent⟩ := hc
    have hspent : r.maxAttempts ≤ r.attempts := by omega
    have hback : setStatus .pending now r ∈ (s.queue.recoverStuckMessages now).rows :=
      List.mem_map.mpr ⟨r, hr, by simp [hst]⟩
    exact spent_exceeds hback rfl hspent
  | dequeue tie now => exact absurd trivial hc
  | dequeueForChat c tie now => exact absurd trivial hc
  | acknowledge id now => exact absurd trivial hc
  | fail id error now => exact absurd trivial hc

def hello : InboundMessage :=
  ⟨"7", .telegram, "tg:1", "Ada", some "hello", none, none, none, 0, false⟩

/-- An item that takes the process down on every attempt, over `n` restarts. -/
def crashLoop : Nat → List Ev
  | 0 => []
  | n + 1 => .dequeueForChat "tg:1" 0 0 :: .restart 0 :: crashLoop n

/-- Four crashes hand an item with a budget of three out four times. -/
theorem a_crash_loop_exceeds_the_budget : ∃ s, Reach system Free s ∧ ¬ Within s := by
  refine ⟨_, reach_of_exec (.enqueue hello 3 0 :: crashLoop 4) (meets_free _ _) rfl, fun hw => ?_⟩
  exact absurd (hw _ (List.mem_singleton.mpr rfl)).1 (by decide)

/-- One crash on the first of three attempts is spared, and the budget holds after it. -/
theorem one_crash_is_within_budget :
    ∃ s, exec system system.init (.enqueue hello 3 0 :: crashLoop 1) = some s ∧ Within s := by
  refine ⟨_, rfl, (attempts_within_budget _ (reach_of_exec (.enqueue hello 3 0 :: crashLoop 1) ?_ rfl)).1⟩
  refine ⟨by show (1 : Int) ≤ 3; decide, trivial, fun r hr _ => ?_, trivial⟩
  obtain rfl := List.mem_singleton.mp hr
  decide

end FlowHelm.Orchestrator.Attempts
