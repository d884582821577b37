/-
  FlowHelm.Orchestrator.ChatOrder — in what order `dequeueForChat` returns the messages of a chat.

  The messages of a chat come with timestamps that do not decrease, so the pending item of the
  smallest id has the least `created_at`. A dequeue orders by that column alone: among equally old
  items the database may take any, and an item that `fail` put back is one it has just rewritten.

  - `Aged`: in each chat, what was enqueued later is not older.
  - `returns_first`: a dequeue returns the pending item of the smallest id, whichever equally old
    one the database takes, just when no other pending item of the chat is as old.
  - `a_retry_is_overtaken`: two messages of one millisecond, the first of which failed once.
-/
import FlowHelm.Lib.Runs
import FlowHelm.Orchestrator.MessageQueue

namespace FlowHelm.Orchestrator.ChatOrder

open Runs Queue

inductive Ev where
  | enqueue (m : InboundMessage) (maxAttempts : Int) (now : Nat)
  | dequeueForChat (chatId : String) (tie now : Nat)
  | acknowledge (queueId now : Nat)
  | fail (queueId : Nat) (error : String) (now : Nat)

/-- A message comes when none of its chat has come later. -/
def step (q : Queue) : Ev → Option Queue
  | .enqueue m maxAttempts now =>
    if ∀ r ∈ q.rows, r.chatId = m.userId → r.createdAt ≤ now then some (q.enqueue m maxAttempts now) else none
  | .dequeueForChat chatId tie now => some (q.dequeueForChat chatId tie now).2
  | .acknowledge queueId now => some (q.acknowledge queueId now)
  | .fail queueId error now => some (q.fail queueId error now)

def system : System Queue Ev := ⟨.empty, step⟩

/-! ## Order -/

def pendingOf (q : Queue) (chatId : String) : List QueueRow := q.rows.filter fun r => isPending r && r.chatId == chatId

/-- The item of the smallest id, or nothing where none is pending. -/
def ReturnsFirst (q : Queue) (chatId : String) (tie now : Nat) : Prop :=
  (q.dequeueForChat chatId tie now).1.map (·.id) = ((pendingOf q chatId).map (·.id)).min?

/-- Two pending items that are equally old are one, or a third one is older. -/
def Untied (q : Queue) (chatId : String) : Prop :=
  ∀ r ∈ pendingOf q chatId, ∀ s ∈ pendingOf q chatId, r.createdAt = s.createdAt →
    r.id = s.id ∨ ∃ u ∈ pendingOf q chatId, u.createdAt < r.createdAt

def Aged (q : Queue) : Prop := q.rows.Pairwise fun r s => r.chatId = s.chatId → r.createdAt ≤ s.createdAt

theorem aged_update {q : Queue} (h : Aged q) (p : QueueRow → Bool) (set : QueueRow → QueueRow) (hid)
    (hchat : ∀ r, (set r).chatId = r.chatId) (hcreated : ∀ r, (set r).createdAt = r.createdAt) : Aged (q.update p set hid) := by
  have hc : ∀ r, (if p r then set r else r).chatId = r.chatId := fun r => by split <;> simp [hchat]
  have ht : ∀ r, (if p r then set r else r).createdAt = r.createdAt := fun r => by split <;> simp [hcreated]
  show (q.rows.map fun r => if p r then set r else r).Pairwise _
  rw [List.pairwise_map]
  simp only [hc, ht]
  exact h

theorem aged_claim {q : Queue} (h : Aged q) (p : QueueRow → Bool) (tie now : Nat) : Aged (claim q p tie now).2 := by
  rcases hc : claim q p tie now with ⟨_ | it, q'⟩
  · obtain ⟨-, rfl⟩ := claim_none hc
    exact h
  · obtain ⟨r, -, -, -, -, rfl⟩ := claim_spec hc
    exact aged_update h _ (setClaimed now) (fun _ => rfl) (fun _ => rfl) fun _ => rfl

theorem step_aged {q q' : Queue} {e : Ev} (h : Aged q) (hs : step q e = some q') : Aged q' := by
  cases e with
  | enqueue m maxAttempts now =>
    rw [step] at hs
    split at hs
    · rename_i hlast
      obtain rfl := Option.some.inj hs
      refine List.pairwise_append.mpr ⟨h, List.pairwise_singleton .., fun r hr s hs => ?_⟩
      obtain rfl := List.mem_singleton.mp hs
      exact hlast r hr
    · cases hs
  | dequeueForChat chatId tie now =>
    obtain rfl := Option.some.inj hs
    exact aged_claim h _ tie now
  | acknowledge queueId now =>
    obtain rfl := Option.some.inj hs
    exact aged_update h _ _ _ (fun _ => rfl) fun _ => rfl
  | fail queueId error now =>
    obtain rfl := Option.some.inj hs
    exact aged_update h _ _ _ (fun _ => rfl) fun _ => rfl

theorem reach_aged {q : Queue} (h : Reach system Free q) : Aged q := by
  refine h.inv List.Pairwise.nil fun q e q' _ hq _ hs => ?_
  exact step_aged hq hs

/-- Of two items of a chat the one with the smaller id is not younger. -/
theorem createdAt_le {q : Queue} (h : Aged q) {r s : QueueRow} (hr : r ∈ q.rows) (hs : s ∈ q.rows) (hchat : r.chatId = s.chatId)
    (hid : r.id ≤ s.id) : r.createdAt ≤ s.createdAt := by
  by_contra hlt
  have hne : r ≠ s := by
    rintro rfl
    omega
  -- a pair of rows stands in the table in the order of its ids
  have hboth := q.ascending.and h
  have hpair := List.pairwise_iff_getElem.mp hboth
  obtain ⟨i, hi, rfl⟩ := List.mem_iff_getElem.mp hr
  obtain ⟨j, hj, rfl⟩ := List.mem_iff_getElem.mp hs
  rcases Nat.lt_trichotomy i j with hij | rfl | hij
  · exact hlt ((hpair i j hi hj hij).2 hchat)
  · exact hne rfl
  · have := (hpair j i hj hi hij).1
    omega

/-! ## Dequeue -/

theorem mem_pendingOf {q : Queue} {chatId : String} {r : QueueRow} :
    r ∈ pendingOf q chatId ↔ r ∈ q.rows ∧ (isPending r && r.chatId == chatId) = true := List.mem_filter

theorem chat_of_pending {q : Queue} {chatId : String} {r : QueueRow} (h : r ∈ pendingOf q chatId) : r.chatId = chatId := by
  have hp := (mem_pendingOf.mp h).2
  simp only [Bool.and_eq_true, beq_iff_eq] at hp
  exact hp.2

/-- Any of the oldest items is one the database may take. -/
theorem some_tie_takes {q : Queue} {chatId : String} {r : QueueRow} (h : r ∈ pendingOf q chatId)
    (hleast : ∀ s ∈ pendingOf q chatId, r.createdAt ≤ s.createdAt) (now : Nat) :
    ∃ tie, (q.dequeueForChat chatId tie now).1.map (·.id) = some r.id := by
  have hdue : r ∈ oldest (pendingOf q chatId) := List.mem_filter.mpr ⟨h, by simpa using hleast⟩
  obtain ⟨i, hi, hget⟩ := List.mem_iff_getElem.mp hdue
  have htake : (oldest (pendingOf q chatId))[i % (oldest (pendingOf q chatId)).length]? = some r := by
    rw [Nat.mod_eq_of_lt hi, List.getElem?_eq_getElem hi, hget]
  refine ⟨i, ?_⟩
  unfold pendingOf at htake
  simp only [Queue.dequeueForChat, claim, htake]
  rfl

theorem untied_returnsFirst {q : Queue} (hq : Aged q) {chatId : String} (h : Untied q chatId) (tie now : Nat) :
    ReturnsFirst q chatId tie now := by
  unfold ReturnsFirst
  rcases hc : q.dequeueForChat chatId tie now with ⟨_ | it, q'⟩
  · have hnone : pendingOf q chatId = [] := by
      refine List.filter_eq_nil_iff.mpr fun r hr => ?_
      simpa using (claim_none hc).1 r hr
    simp [hnone]
  · obtain ⟨r, hr, hp, hleast, rfl, -⟩ := claim_spec hc
    have hpending : r ∈ pendingOf q chatId := mem_pendingOf.mpr ⟨hr, hp⟩
    have hleastId : ∀ i ∈ (pendingOf q chatId).map (·.id), r.id ≤ i := by
      intro i hi
      obtain ⟨s, hs, rfl⟩ := List.mem_map.mp hi
      obtain ⟨hsrow, hsp⟩ := mem_pendingOf.mp hs
      by_contra hlt
      simp only [Nat.not_le] at hlt
      -- the item of the smaller id is as old as the one that was taken
      have hage := createdAt_le hq hsrow hr ((chat_of_pending hs).trans (chat_of_pending hpending).symm) (by omega)
      have hsame : r.createdAt = s.createdAt := Nat.le_antisymm (hleast s hsrow hsp) hage
      rcases h r hpending s hs hsame with hid | ⟨u, hu, holder⟩
      · omega
      · obtain ⟨hurow, hup⟩ := mem_pendingOf.mp hu
        have := hleast u hurow hup
        omega
    exact (List.min?_eq_some_iff.mpr ⟨List.mem_map_of_mem (f := (·.id)) hpending, hleastId⟩).symm

/-- In every run, a dequeue returns the pending item of the chat with the smallest id, whichever
    of the oldest the database takes, just when there is one oldest. -/
theorem returns_first {q : Queue} (h : Reach system Free q) (chatId : String) :
    (∀ tie now, ReturnsFirst q chatId tie now) ↔ Untied q chatId := by
  refine ⟨fun hfirst r hr s hs hsame => ?_, untied_returnsFirst (reach_aged h)⟩
  by_cases holder : ∃ u ∈ pendingOf q chatId, u.createdAt < r.createdAt
  · exact .inr holder
  · have hleast : ∀ u ∈ pendingOf q chatId, r.createdAt ≤ u.createdAt := by
      intro u hu
      by_contra hlt
      exact holder ⟨u, hu, by omega⟩
    obtain ⟨i, hi⟩ := some_tie_takes hr hleast 0
    obtain ⟨j, hj⟩ := some_tie_takes hs (hsame ▸ hleast) 0
    have hri := hi.symm.trans (hfirst i 0)
    have hsj := hj.symm.trans (hfirst j 0)
    exact .inl (Option.some.inj (hri.trans hsj.symm))

/-! ## Runs -/

def message (id : String) : InboundMessage := ⟨id, .telegram, "tg:1", "Ada", some "hello", none, none, none, 0, false⟩

/-- The first of two messages fails and is put back, ahead of the second. -/
theorem a_retry_comes_first : ∃ q, Reach system Free q ∧ (∀ tie now, ReturnsFirst q "tg:1" tie now) ∧
    (pendingOf q "tg:1").map (·.id) = [1, 2] := by
  obtain ⟨q, hq, hrun⟩ := reach_any (M := system) (C := Free)
    (P := fun q => decide (((pendingOf q "tg:1").map fun r => (r.id, r.createdAt)) = [(1, 0), (2, 1)]))
    [.enqueue (message "1") 3 0, .enqueue (message "2") 3 1, .dequeueForChat "tg:1" 0 2, .fail 1 "timeout" 3]
    (meets_free ..) (by decide)
  have hpending := of_decide_eq_true hrun
  have hids : (pendingOf q "tg:1").map (·.id) = [1, 2] := by
    simpa [List.map_map, Function.comp_def] using congrArg (List.map Prod.fst) hpending
  refine ⟨q, hq, (returns_first hq "tg:1").mpr fun r hr s hs hsame => .inl ?_, hids⟩
  have hrp : (r.id, r.createdAt) ∈ [(1, 0), (2, 1)] := hpending ▸ List.mem_map.mpr ⟨r, hr, rfl⟩
  have hsp : (s.id, s.createdAt) ∈ [(1, 0), (2, 1)] := hpending ▸ List.mem_map.mpr ⟨s, hs, rfl⟩
  simp only [List.mem_cons, Prod.mk.injEq, List.not_mem_nil, or_false] at hrp hsp
  omega

/-- Two messages of one millisecond: the first fails once, and the second comes out before it. -/
theorem a_retry_is_overtaken : ∃ q, Reach system Free q ∧ ¬ReturnsFirst q "tg:1" 1 3 := by
  obtain ⟨q, hq, hrun⟩ := reach_any (M := system) (C := Free)
    (P := fun q => (q.dequeueForChat "tg:1" 1 3).1.map (·.id) == some 2 && ((pendingOf q "tg:1").map (·.id)).min? == some 1)
    [.enqueue (message "1") 3 0, .enqueue (message "2") 3 0, .dequeueForChat "tg:1" 0 1, .fail 1 "timeout" 2]
    (meets_free ..) (by decide)
  simp only [Bool.and_eq_true, beq_iff_eq] at hrun
  refine ⟨q, hq, fun h => ?_⟩
  have htwo := hrun.1.symm.trans (h.trans hrun.2)
  exact absurd (Option.some.inj htwo) (by decide)

end FlowHelm.Orchestrator.ChatOrder
