/-
  FlowHelm.Memory.Thresholds — whether the two thresholds of consolidation count what the
  work that follows them is about.

  `run` goes on when enough messages of sessions with no linked message are there, and then
  takes up every ended session with an unlinked one. `condenseIfReady` looks for one session
  with enough uncondensed d0 summaries, and then condenses those of the session's chat.
  Messages left unlinked in a session that has linked ones, and summaries of a chat spread
  over its sessions, are work neither count sees.

  - `count_completes`: a run completes the pending messages just if the count reaches the
    minimum when they do.
  - `chats_stay_below_threshold`: a run leaves no chat enough uncondensed d0 summaries just
    if each chat with enough when condensation starts has a session with enough.
  - `a_partly_linked_session_is_left` / `two_sessions_are_not_condensed`: runs where they do not.
-/
import FlowHelm.Memory.Partition

namespace FlowHelm.Memory

open Js Script Prog Runs

/-! ## Messages -/

/-- The messages of ended sessions that no summary is made from. -/
def Tables.pending (t : Tables) : List Working := t.endedMessages.filter fun m => !t.linked m

/-- A run in which nothing fails comes to its end, and leaves every pending message linked. -/
def Completes (cfg : ConsolidationConfig) (s : Db) : Prop :=
  Returns service (Consolidation.run cfg) (fun _ t => ∀ m ∈ s.pending, t.linked m) s

theorem pending_selected {cfg : ConsolidationConfig} {t : Tables}
    (h : cfg.minUnconsolidatedMessages ≤ t.unconsolidated.length) {m : Working} (hm : m ∈ t.pending) :
    m ∈ t.working ∧ ∃ session ∈ selectedSessions cfg t, m.sessionId = some session.id := by
  obtain ⟨hended, hlinked⟩ := List.mem_filter.mp hm
  obtain ⟨hworking, hsession⟩ := List.mem_filter.mp hended
  obtain ⟨session, hs, hp⟩ := List.any_eq_true.mp hsession
  obtain ⟨hid, hend⟩ := (Bool.and_eq_true ..).mp hp
  refine ⟨hworking, session, ?_, beq_iff_eq.mp hid⟩
  rw [selectedSessions, if_neg (Nat.not_lt.mpr h)]
  refine List.mem_filter.mpr ⟨hs, ?_⟩
  rw [hend, Bool.true_and, List.any_eq_true]
  exact ⟨m, hworking, by rw [hid, hlinked]; rfl⟩

theorem completes_of_count {cfg : ConsolidationConfig} {s : Db}
    (h : cfg.minUnconsolidatedMessages ≤ s.unconsolidated.length) : Completes cfg s := by
  refine must_returns (wp_mono ?_ (fun _ _ h => h) (must_run cfg s))
  rintro _ t ⟨_, hl⟩ m hm
  obtain ⟨hworking, session, hs, hid⟩ := pending_selected h hm
  exact hl session hs m hworking hid

/-- Below the minimum the run is its count. -/
theorem play_below {cfg : ConsolidationConfig} {s : Db} (h : s.unconsolidated.length < cfg.minUnconsolidatedMessages) :
    play service (Consolidation.run cfg) s [.ran .countUnconsolidated s.unconsolidated.length] = some (.ret 0, s) := by
  have hx : service.exec .countUnconsolidated s s.unconsolidated.length = some s :=
    exec_some (o := .countUnconsolidated) (rfl : s.unconsolidated.length = _) s.valid
  refine (play_perform hx []).trans ?_
  rw [if_pos h]
  rfl

theorem not_completes {cfg : ConsolidationConfig} {s : Db} (hmin : cfg.minUnconsolidatedMessages ≤ s.pending.length)
    (h : s.unconsolidated.length < cfg.minUnconsolidatedMessages) : ¬Completes cfg s := by
  rintro ⟨_, hall⟩
  obtain ⟨_, _, hend⟩ := hall _ _ s (by simp [Did.isRan]) rfl (play_below h)
  obtain ⟨m, hm⟩ := List.exists_mem_of_length_pos (lt_of_lt_of_le cfg.min_pos hmin)
  have hlinked := (List.mem_filter.mp hm).2
  rw [hend m hm] at hlinked
  cases hlinked

/-- Where enough messages are pending, a run completes them just if the count sees enough. -/
theorem count_completes (cfg : ConsolidationConfig) (s : Db) :
    (cfg.minUnconsolidatedMessages ≤ s.pending.length → Completes cfg s) ↔
      s.pending.length < cfg.minUnconsolidatedMessages ∨ cfg.minUnconsolidatedMessages ≤ s.unconsolidated.length := by
  constructor
  · intro h
    by_contra hnot
    rw [not_or, Nat.not_lt, Nat.not_le] at hnot
    exact not_completes hnot.1 hnot.2 (h hnot.1)
  · rintro (h | h) hmin
    · omega
    · exact completes_of_count h

/-- The summary of the third message fails, and the run with it. -/
def secondChunkFails : Moves :=
  threeMessages ++ .event (.start .consolidation) :: List.replicate 12 (.next .consolidation) ++
    [.event (.step .consolidation (.refused (.summarize (formatMessages [said "c" 3 2]) 400 .d0System))),
      .event (.finish .consolidation)]

theorem a_partly_linked_session_is_left : ∃ x, Reach (world smallConfig).system Free x ∧
    smallConfig.consolidation.minUnconsolidatedMessages ≤ x.db.pending.length ∧
    ¬Completes smallConfig.consolidation x.db := by
  obtain ⟨x, hx, hp⟩ := reach_any (M := (world smallConfig).system) (C := Free)
    (P := fun x => decide (smallConfig.consolidation.minUnconsolidatedMessages ≤ x.db.pending.length ∧
      x.db.unconsolidated.length < smallConfig.consolidation.minUnconsolidatedMessages))
    (played secondChunkFails) (meets_free _ _) (by decide +kernel)
  obtain ⟨hmin, hbelow⟩ := of_decide_eq_true hp
  exact ⟨x, hx, hmin, not_completes hmin hbelow⟩

/-! ## Summaries -/

/-- A run whose count reaches the minimum comes to its condensation, and does nothing after it. -/
theorem run_condenses {cfg : ConsolidationConfig} {s t : Db} {n : Nat} {tr : List (Did Op Ans)}
    (hcount : cfg.minUnconsolidatedMessages ≤ s.unconsolidated.length)
    (hp : play service (Consolidation.run cfg) s tr = some (.ret n, t)) :
    ∃ u tr₁ tr₂, tr = tr₁ ++ tr₂ ∧
      play service (Consolidation.run cfg) s tr₁ = some ((condenseIfReady cfg).bind fun _ => .ret n, u) ∧
      play service (condenseIfReady cfg) u tr₂ = some (.ret (), t) := by
  obtain ⟨cnt, s₁, tr₁, rfl, hx₁, hp₁⟩ := play_perform_ret hp
  obtain rfl := exec_reads (fun _ _ => rfl) s cnt s₁ hx₁
  obtain rfl : cnt = s₁.unconsolidated.length := (exec_spec hx₁).1
  have hcnt := Nat.not_lt.mpr hcount
  rw [if_neg hcnt] at hp₁
  obtain ⟨sessions, s₂, tr₂, rfl, hx₂, hp₂⟩ := play_perform_ret hp₁
  obtain ⟨trₐ, tr₃, _, s₃, rfl, hsessions, hp₃⟩ := play_bind_ret hp₂
  obtain ⟨now, s₄, tr₄, rfl, hx₄, hp₄⟩ := play_perform_ret hp₃
  obtain ⟨_, u, tr₅, rfl, hx₅, hp₅⟩ := play_perform_ret hp₄
  obtain ⟨trᵦ, tr₆, _, v, rfl, hcondense, hp₆⟩ := play_bind_ret hp₅
  obtain ⟨rfl, hn, rfl⟩ := play_ret hp₆
  cases hn
  refine ⟨u, .ran .countUnconsolidated s₁.unconsolidated.length :: .ran .sessionsToConsolidate sessions :: trₐ ++
    [.ran .now now, .ran (.setLastConsolidation now) ()], trᵦ, by simp, ?_, hcondense⟩
  refine (play_perform hx₁ _).trans ?_
  rw [if_neg hcnt]
  refine (play_perform hx₂ _).trans ?_
  refine (play_append ..).trans ?_
  refine (congrArg (Option.bind · _) (play_lift _ hsessions)).trans ?_
  refine (play_perform hx₄ _).trans ?_
  exact play_perform hx₅ _

theorem uncondensed_below (cfg : ConsolidationConfig) {u t : Db} {tr : List (Did Op Ans)} (hran : ∀ d ∈ tr, d.isRan)
    (hp : play service (condenseIfReady cfg) u tr = some (.ret (), t)) (chatId : String) :
    (t.uncondensedOf chatId).length < cfg.consolidationThreshold ↔
      (cfg.consolidationThreshold ≤ (u.uncondensedOf chatId).length → u.ready cfg.consolidationThreshold chatId) := by
  obtain ⟨_, hleft⟩ := must_play (E := fun _ _ => False) (must_condenseIfReady cfg u) hran hp
  obtain ⟨hready, hother⟩ := hleft chatId
  by_cases hr : u.ready cfg.consolidationThreshold chatId
  · rw [hready hr]
    exact ⟨fun _ _ => hr, fun _ => cfg.threshold_pos⟩
  · rw [hother hr]
    exact ⟨fun hlt hle => (Nat.not_le.mpr hlt hle).elim, fun h => Nat.not_le.mp fun hle => hr (h hle)⟩

/-- What a run in which nothing fails leaves uncondensed, `u` being the state in which its
    condensation starts. -/
theorem chats_stay_below_threshold (cfg : ConsolidationConfig) {s t : Db} {q : Script Nat} {tr : List (Did Op Ans)}
    (hcount : cfg.minUnconsolidatedMessages ≤ s.unconsolidated.length) (hran : ∀ d ∈ tr, d.isRan) (hq : q.isDone)
    (hp : play service (Consolidation.run cfg) s tr = some (q, t)) :
    ∃ n u tr₁ tr₂, q = .ret n ∧ tr = tr₁ ++ tr₂ ∧
      play service (Consolidation.run cfg) s tr₁ = some ((condenseIfReady cfg).bind fun _ => .ret n, u) ∧
      ((∀ chatId, (t.uncondensedOf chatId).length < cfg.consolidationThreshold) ↔
        ∀ chatId, cfg.consolidationThreshold ≤ (u.uncondensedOf chatId).length →
          u.ready cfg.consolidationThreshold chatId) := by
  have hend := must_play (must_run cfg s) hran hp
  cases q with
  | throw e => exact hend.elim
  | op o k err => cases hq
  | ret n =>
    obtain ⟨u, tr₁, tr₂, rfl, hfirst, hcondense⟩ := run_condenses hcount hp
    refine ⟨n, u, tr₁, tr₂, rfl, rfl, hfirst, forall_congr' fun chatId => ?_⟩
    exact uncondensed_below cfg (fun d hd => hran d (List.mem_append_right _ hd)) hcondense chatId

/-! ## Concrete runs -/

def consolidationRun (n : Nat) (s : Db) : List (Did Op Ans) :=
  succeed service (fun o t => terse.answer o t.toTables) n (Consolidation.run smallConfig.consolidation) s

theorem one_session_is_condensed : ∃ x n t, Reach (world smallConfig).system Free x ∧
    play service (Consolidation.run smallConfig.consolidation) x.db (consolidationRun 40 x.db) = some (.ret n, t) ∧
    t.semantic.length = 3 ∧ ∃ u tr₁, play service (Consolidation.run smallConfig.consolidation) x.db tr₁ =
        some ((condenseIfReady smallConfig.consolidation).bind fun _ => .ret n, u) ∧
      ((∀ chatId, (t.uncondensedOf chatId).length < 2) ↔
        ∀ chatId, 2 ≤ (u.uncondensedOf chatId).length → u.ready 2 chatId) := by
  obtain ⟨x, hx, hp⟩ := reach_any (M := (world smallConfig).system) (C := Free)
    (P := fun x => decide (1 ≤ x.db.unconsolidated.length ∧ ∀ d ∈ consolidationRun 40 x.db, d.isRan) &&
      (play service (Consolidation.run smallConfig.consolidation) x.db (consolidationRun 40 x.db)).any fun (q, t) =>
        q.isDone && t.semantic.length == 3)
    (played threeMessages) (meets_free _ _) (by decide +kernel)
  obtain ⟨hstart, hend⟩ := (Bool.and_eq_true ..).mp hp
  obtain ⟨hcount, hran⟩ := of_decide_eq_true hstart
  obtain ⟨⟨q, t⟩, hplay, hdone⟩ := (Option.any_eq_true _ _).mp hend
  obtain ⟨hq, hthree⟩ := (Bool.and_eq_true ..).mp hdone
  obtain ⟨n, u, tr₁, _, rfl, _, hfirst, hiff⟩ := chats_stay_below_threshold smallConfig.consolidation hcount hran hq hplay
  exact ⟨x, n, t, hx, hplay, beq_iff_eq.mp hthree, u, tr₁, hfirst, hiff⟩

/-- Two sessions of one chat, ended with a message each. -/
def twoSessions : Moves :=
  request 0 (.createProfile "home" none) ++
    [.event (.env (.upsertChat "tg:1" 0)), .event (.env (.startSession "tg:1")), .event (.env (.startSession "tg:1")),
      .event (.env (.storeMessage (said "a" 1 1))), .event (.env (.storeMessage (said "b" 2 2))),
      .event (.env (.endSession 1)), .event (.env (.endSession 2))]

theorem two_sessions_are_not_condensed : ∃ x q t, Reach (world smallConfig).system Free x ∧
    (∀ d ∈ consolidationRun 40 x.db, d.isRan) ∧ q.isDone ∧ x.db.unconsolidated.length = 2 ∧
    play service (Consolidation.run smallConfig.consolidation) x.db (consolidationRun 40 x.db) = some (q, t) ∧
    smallConfig.consolidation.consolidationThreshold ≤ (t.uncondensedOf "tg:1").length := by
  obtain ⟨x, hx, hp⟩ := reach_any (M := (world smallConfig).system) (C := Free)
    (P := fun x => decide (x.db.unconsolidated.length = 2 ∧ ∀ d ∈ consolidationRun 40 x.db, d.isRan) &&
      (play service (Consolidation.run smallConfig.consolidation) x.db (consolidationRun 40 x.db)).any fun (q, t) =>
        q.isDone && decide (smallConfig.consolidation.consolidationThreshold ≤ (t.uncondensedOf "tg:1").length))
    (played twoSessions) (meets_free _ _) (by decide +kernel)
  obtain ⟨hstart, hend⟩ := (Bool.and_eq_true ..).mp hp
  obtain ⟨hcount, hran⟩ := of_decide_eq_true hstart
  obtain ⟨⟨q, t⟩, hplay, hdone⟩ := (Option.any_eq_true _ _).mp hend
  obtain ⟨hq, hleft⟩ := (Bool.and_eq_true ..).mp hdone
  exact ⟨x, q, t, hx, hran, hq, hcount, hplay, of_decide_eq_true hleft⟩

end FlowHelm.Memory
