/-
  FlowHelm.Agent.IdleTimeout — whether an idle container is stopped under a task's command.

  The timer of a chat is armed when its container is kept and again when a command has been
  answered, not when one is given; it fires while a command runs that was given late enough.
  Nor does a call that comes during the clean-up know of it: the container is still kept, and
  healthy until it is stopped.

  - `idle_path_apart`: the clean-up never meets a command while no timer fires during a call
    that uses the container and no call comes before a clean-up has stopped it; any other
    timer or call can lead to one.
  - `a_late_message_is_cut_short`: a second message shortly before the timer fires.
-/
import FlowHelm.Agent.WarmContainers

namespace FlowHelm.Agent.Warm

open Runs Parties

/-- No container is being stopped or removed by its clean-up while a command runs in it. -/
def Safe (s : St) : Prop :=
  ∀ k ∈ s.cleanups, k.idle = true → k.phase ≠ .backup → ∀ t ∈ s.tasks, ∀ r, t.phase ≠ .executing k.containerId r

/-- A call comes while no clean-up of the chat's running container is under way, and a timer
    fires while no call runs a command in the chat's container or is about to. -/
def Apart (s : St) : Ev → Prop
  | .execute chatId => ∀ c, s.warmContainers.lookup chatId = some c → s.status c = some .running →
    ∀ k ∈ s.cleanups, k.idle = true → k.containerId ≠ c
  | .expire i => ∀ id chatId, s.timers[i]? = some (id, chatId) → ∀ c, s.warmContainers.lookup chatId = some c →
    ∀ t ∈ s.tasks, (∀ r, t.phase ≠ .executing c r) ∧ (t.phase = .checking c → s.status c ≠ some .running)
  | _ => True

/-! ## Runs apart -/

/-- No call uses, or comes to use, a container its clean-up has taken up. -/
def Spared (s : St) : Prop :=
  ∀ k ∈ s.cleanups, k.idle = true → ∀ t ∈ s.tasks, (∀ r, t.phase ≠ .executing k.containerId r) ∧
    (t.phase = .checking k.containerId → s.status k.containerId ≠ some .running)

theorem Spared.safe {s : St} (h : Spared s) : Safe s := fun k hk hidle _ t ht => (h k hk hidle t ht).1

/-- A call that asks nothing of a container. -/
def Aside (t : Task) : Prop := ∀ c, t.phase ≠ .checking c ∧ ∀ r, t.phase ≠ .executing c r

theorem Spared.mono {s t : St} (h : Spared s)
    (hcleanups : ∀ k ∈ t.cleanups, k.idle = true → ∃ l ∈ s.cleanups, l.idle = true ∧ l.containerId = k.containerId)
    (htasks : ∀ u ∈ t.tasks, Aside u ∨ u ∈ s.tasks)
    (hstatus : ∀ k ∈ s.cleanups, t.status k.containerId = some .running → s.status k.containerId = some .running) :
    Spared t := by
  intro k hk hidle u hu
  obtain ⟨l, hl, hlidle, heq⟩ := hcleanups k hk hidle
  rcases htasks u hu with haside | hmem
  · exact ⟨(haside _).2, fun hchecking => absurd hchecking (haside _).1⟩
  · have hs := h l hl hlidle u hmem
    rw [heq] at hs
    exact ⟨hs.1, fun hchecking hrunning => hs.2 hchecking (heq ▸ hstatus l hl (heq ▸ hrunning))⟩

/-- Where only the calls change. -/
theorem Spared.tasks {s : St} {ts : List Task} (h : Spared s) (hts : ∀ u ∈ ts, Aside u ∨ u ∈ s.tasks) :
    Spared { s with tasks := ts } :=
  h.mono (fun k hk hidle => ⟨k, hk, hidle, rfl⟩) hts fun _ _ hrunning => hrunning

/-- A call that steps aside. -/
theorem aside_moved {ts pre post : List Task} {t u : Task} (hts : ts = pre ++ t :: post) (hu : Aside u) :
    ∀ v ∈ pre ++ u :: post, Aside v ∨ v ∈ ts := by
  intro v hv
  rcases mem_moved hts hv with rfl | hv
  · exact .inl hu
  · exact .inr hv

theorem spared_setStatus {s : St} {c : Nat} {st : Status} (h : Spared s)
    (hst : st ≠ .running ∨ ∀ k ∈ s.cleanups, k.containerId ≠ c) : Spared (setStatus s c st) := by
  refine h.mono (fun k hk hidle => ⟨k, hk, hidle, rfl⟩) (fun _ hu => .inr hu) ?_
  intro k hk hrunning
  rw [status_setStatus] at hrunning
  by_cases hck : c = k.containerId
  · rw [if_pos hck] at hrunning
    rcases hst with hst | hne
    · obtain ⟨_, -, heq⟩ := Option.map_eq_some_iff.mp hrunning
      exact absurd heq hst
    · exact absurd hck.symm (hne k hk)
  · rw [if_neg hck] at hrunning
    exact hrunning

theorem spared_endCleanup {s : St} {i : Nat} {k : Cleanup} (h : Spared s) : Spared (endCleanup s i k) := by
  have hmem : ∀ l ∈ put s.cleanups i none, l ∈ s.cleanups := fun l hl => List.mem_of_mem_eraseIdx hl
  unfold endCleanup
  split
  · exact h.mono (fun l hl hidle => ⟨l, hmem l hl, hidle, rfl⟩) (fun _ hu => .inr hu) fun _ _ hrunning => hrunning
  · exact h.mono (fun l hl hidle => ⟨l, hmem l hl, hidle, rfl⟩) (fun _ hu => .inr hu) fun _ _ hrunning => hrunning

theorem spared_next {s t : St} {e : Ev} (hb : Base s) (h : Spared s) (ha : Apart s e) (hn : Next s e t) : Spared t := by
  cases hn with
  | executed chatId =>
    intro k hk hidle u hu
    rcases List.mem_append.mp hu with hu | hu
    · exact h k hk hidle u hu
    · rw [List.mem_singleton.mp hu]
      unfold beginTask
      split
      · rename_i c hc
        refine ⟨nofun, fun hchecking hrunning => ?_⟩
        obtain rfl := Phase.checking.inj hchecking
        exact ha _ hc hrunning k hk hidle rfl
      · exact ⟨nofun, nofun⟩
  | healthy i chatId c pre post hi htasks hrunning =>
    intro k hk hidle u hu
    rcases mem_moved htasks hu with rfl | hu
    · refine ⟨fun r heq => ?_, nofun⟩
      obtain ⟨rfl, -⟩ := Phase.executing.inj heq
      exact (h k hk hidle ⟨chatId, .checking k.containerId⟩ (by rw [htasks]; simp)).2 rfl hrunning
    · exact h k hk hidle u hu
  | unhealthy i chatId c pre post hi htasks =>
    exact h.mono (fun k hk hidle => ⟨k, hk, hidle, rfl⟩) (aside_moved htasks fun _ => ⟨nofun, nofun⟩) fun _ _ hr => hr
  | prepared i chatId pre post htasks => exact h.tasks (aside_moved htasks fun _ => ⟨nofun, nofun⟩)
  | threw e u pre post htasks hu he => exact h.tasks fun v hv => .inr (mem_others htasks hv)
  | created i chatId pre post htasks =>
    refine h.mono (fun k hk hidle => ⟨k, hk, hidle, rfl⟩) (aside_moved htasks fun _ => ⟨nofun, nofun⟩) ?_
    intro k hk hrunning
    unfold St.status at hrunning
    rw [status_append (hb.cleanups k hk)] at hrunning
    exact hrunning
  | started i chatId c pre post hi htasks =>
    have hc : ∀ k ∈ s.cleanups, k.containerId ≠ c := by
      refine hb.untouched (c, chatId) ?_
      rw [htasks, drafts_append, drafts_cons]
      simp [Phase.creates]
    exact (spared_setStatus h (.inr hc)).tasks (aside_moved htasks fun _ => ⟨nofun, nofun⟩)
  | left e u c pre post htasks hu he => exact h.tasks fun v hv => .inr (mem_others htasks hv)
  | kept i restored chatId c pre post hi htasks =>
    have hc : ∀ k ∈ s.cleanups, k.containerId ≠ c := by
      refine hb.untouched (c, chatId) ?_
      rw [htasks, drafts_append, drafts_cons]
      simp [Phase.creates]
    intro k hk hidle u hu
    rcases mem_moved htasks hu with rfl | hu
    · refine ⟨fun r heq => ?_, nofun⟩
      obtain ⟨heq, -⟩ := Phase.executing.inj heq
      exact hc k hk heq.symm
    · have hs := h k hk hidle u hu
      exact ⟨hs.1, fun hchecking hrunning => hs.2 hchecking ((status_setSession s c _ restored).symm.trans hrunning)⟩
  | resumeFailed i chatId c pre post htasks =>
    intro k hk hidle u hu
    rcases mem_moved htasks hu with rfl | hu
    · refine ⟨fun r heq => ?_, nofun⟩
      obtain ⟨rfl, -⟩ := Phase.executing.inj heq
      exact (h k hk hidle ⟨chatId, .executing k.containerId false⟩ (by rw [htasks]; simp)).1 false rfl
    · have hs := h k hk hidle u hu
      exact ⟨hs.1, fun hchecking hrunning => hs.2 hchecking ((status_setSession s c _ none).symm.trans hrunning)⟩
  | answered i sessionId chatId c retried pre post htasks =>
    exact h.mono (fun k hk hidle => ⟨k, hk, hidle, rfl⟩) (fun v hv => .inr (mem_others htasks hv))
      fun k _ hrunning => (status_setSession s c _ _).symm.trans hrunning
  | expired i timers => exact h
  | idle i id chatId c hi hc =>
    intro k hk hidle u hu
    rcases List.mem_append.mp hk with hk | hk
    · exact h k hk hidle u hu
    · rw [List.mem_singleton.mp hk]
      exact ha id chatId hi c hc u hu
  | backedUp i chatId c idle pre post hcleanups =>
    refine h.mono ?_ (fun _ hu => .inr hu) fun _ _ hr => hr
    intro k hk hidle
    rcases mem_moved hcleanups hk with rfl | hk
    · exact ⟨⟨chatId, c, .backup, idle⟩, by rw [hcleanups]; simp, hidle, rfl⟩
    · exact ⟨k, hk, hidle, rfl⟩
  | stopped i chatId c idle pre post hcleanups hremoved =>
    refine (spared_setStatus h (.inl (by decide))).mono ?_ (fun _ hu => .inr hu) fun _ _ hr => hr
    intro k hk hidle
    rcases mem_moved hcleanups hk with rfl | hk
    · exact ⟨⟨chatId, c, .stopping, idle⟩, by show _ ∈ s.cleanups; rw [hcleanups]; simp, hidle, rfl⟩
    · exact ⟨k, hk, hidle, rfl⟩
  | ended e i k pre post hi hcleanups he => exact spared_endCleanup h
  | removed i chatId c idle pre post hi hcleanups => exact spared_endCleanup (spared_setStatus h (.inl (by decide)))
  | shutdown hclosing =>
    refine h.mono ?_ (fun _ hu => .inr hu) fun _ _ hr => hr
    intro k hk hidle
    rcases List.mem_append.mp hk with hk | hk
    · exact ⟨k, hk, hidle, rfl⟩
    · obtain ⟨e, -, rfl⟩ := List.mem_map.mp hk
      cases hidle
  | shutdownDone n hclosing hidle => exact h
  | died c hrunning => exact spared_setStatus h (.inl (by decide))

theorem spared {s : St} (h : Reach machine Apart s) : Spared s := by
  refine h.inv nofun ?_
  intro s e t hr hs ha he
  exact spared_next (base hr) hs ha (step_next he)

/-! ## What leads to a cut -/

/-- With a command in it, a container that is taken up can be stopped. -/
theorem cut_of_executing {s : St} {k : Cleanup} (hk : k ∈ s.cleanups) (hidle : k.idle = true) {t : Task} (ht : t ∈ s.tasks)
    {r : Bool} (hr : t.phase = .executing k.containerId r) : ∃ u, Path machine s u ∧ ¬Safe u := by
  by_cases hphase : k.phase = .backup
  · obtain ⟨chatId, c, phase, idle⟩ := k
    obtain rfl : phase = .backup := hphase
    obtain ⟨i, hi⟩ := List.mem_iff_getElem?.mp hk
    obtain ⟨pre, post, hcleanups, hmove⟩ := move_cleanup hi
    have hstep : step s (.backedUp i) = some (moveCleanup s i (some ⟨chatId, c, .stopping, idle⟩)) := by
      simp only [step, hi]
    refine ⟨_, .single (.backedUp i) hstep, fun hsafe => ?_⟩
    rw [hmove _ _ rfl] at hsafe
    exact hsafe ⟨chatId, c, .stopping, idle⟩ (by simp) hidle (by simp) t ht r hr
  · exact ⟨s, .refl s, fun hsafe => hsafe k hk hidle hphase t ht r hr⟩

theorem cut_of_checking {s : St} {k : Cleanup} (hk : k ∈ s.cleanups) (hidle : k.idle = true) {t : Task} (ht : t ∈ s.tasks)
    (hchecking : t.phase = .checking k.containerId) (hrunning : s.status k.containerId = some .running) :
    ∃ u, Path machine s u ∧ ¬Safe u := by
  obtain ⟨chatId, phase⟩ := t
  obtain rfl : phase = .checking k.containerId := hchecking
  obtain ⟨i, hi⟩ := List.mem_iff_getElem?.mp ht
  obtain ⟨pre, post, htasks, hmove⟩ := move_task hi
  have hstep : step s (.healthy i) = some (moveTask s i (some ⟨chatId, .executing k.containerId false⟩)) := by
    simp only [step, hi]
    rw [if_pos hrunning]
  rw [hmove _ _ rfl] at hstep
  obtain ⟨u, hpath, hcut⟩ := cut_of_executing (s := { s with tasks := pre ++ ⟨chatId, .executing k.containerId false⟩ :: post })
    hk hidle (t := ⟨chatId, .executing k.containerId false⟩) (by simp) rfl
  exact ⟨u, .cons (.healthy i) hstep hpath, hcut⟩

/-- A timer or a call that is not apart can lead to a container stopped under a command. -/
theorem not_apart_cuts {s t : St} {e : Ev} (hst : machine.step s e = some t) (he : ¬Apart s e) :
    ∃ u, Path machine t u ∧ ¬Safe u := by
  cases e with
  | execute chatId =>
    obtain ⟨c, hc, hrunning, k, hk, hidle, hkc⟩ : ∃ c, s.warmContainers.lookup chatId = some c ∧
        s.status c = some .running ∧ ∃ k ∈ s.cleanups, k.idle = true ∧ k.containerId = c := by
      simpa [Apart] using he
    obtain rfl := Option.some.inj hst
    have hbegin : beginTask s chatId = ⟨chatId, .checking c⟩ := by
      unfold beginTask
      rw [hc]
    have hmem : ⟨chatId, .checking c⟩ ∈ s.tasks ++ [beginTask s chatId] := by
      rw [hbegin]
      simp
    subst hkc
    exact cut_of_checking hk hidle hmem rfl hrunning
  | expire i =>
    obtain ⟨id, chatId, hi, c, hc, u, hu, hbad⟩ : ∃ id chatId, s.timers[i]? = some (id, chatId) ∧
        ∃ c, s.warmContainers.lookup chatId = some c ∧ ∃ u ∈ s.tasks,
          ¬((∀ r, u.phase ≠ .executing c r) ∧ (u.phase = .checking c → s.status c ≠ some .running)) := by
      simpa only [Apart, not_forall, exists_prop] using he
    have htaken : t = { s with timers := s.timers.eraseIdx i, cleanups := s.cleanups ++ [beginCleanup s chatId c true] } := by
      have hstep : step s (.expire i) = some t := hst
      simp only [step, hi, hc] at hstep
      exact (Option.some.inj hstep).symm
    have hmem : beginCleanup s chatId c true ∈ t.cleanups := by
      rw [htaken]
      simp
    subst htaken
    by_cases hexecuting : ∃ r, u.phase = .executing c r
    · obtain ⟨r, hr⟩ := hexecuting
      exact cut_of_executing hmem rfl hu hr
    · obtain ⟨hchecking, hrunning⟩ : u.phase = .checking c ∧ s.status c = some .running := by
        by_contra hnot
        exact hbad ⟨fun r hr => hexecuting ⟨r, hr⟩, fun h1 h2 => hnot ⟨h1, h2⟩⟩
      exact cut_of_checking hmem rfl hu hchecking hrunning
  | _ => exact absurd trivial he

/-- No clean-up meets a command in runs apart; what is not apart can lead to it. -/
theorem idle_path_apart (s : St) :
    (Reach machine Apart s → Safe s) ∧
      ∀ e t, machine.step s e = some t → ¬Apart s e → ∃ u, Path machine t u ∧ ¬Safe u :=
  ⟨fun h => (spared h).safe, fun _ _ => not_apart_cuts⟩

/-- A second message comes shortly before the timer of the first fires. -/
theorem a_late_message_is_cut_short : ∃ s, Reach machine (fun _ e => e ≠ .shutdown) s ∧ ¬Safe s := by
  obtain ⟨s, hs, hp⟩ := reach_any (M := machine) (C := fun _ e => e ≠ .shutdown)
    (P := fun s => s.cleanups == [⟨"a", 0, .stopping, true⟩] && s.tasks == [⟨"a", .executing 0 false⟩])
    [.execute "a", .prepared 0, .created 0, .started 0, .setUp 0 none, .answered 0 "s", .execute "a", .healthy 0,
      .expire 0, .backedUp 0] (by decide) (by decide)
  refine ⟨s, hs, fun hsafe => ?_⟩
  obtain ⟨hcleanups, htasks⟩ := (Bool.and_eq_true ..).mp hp
  have hk : ⟨"a", 0, .stopping, true⟩ ∈ s.cleanups := by
    rw [beq_iff_eq.mp hcleanups]
    exact .head _
  have ht : ⟨"a", .executing 0 false⟩ ∈ s.tasks := by
    rw [beq_iff_eq.mp htasks]
    exact .head _
  exact hsafe _ hk rfl nofun _ ht false rfl

end FlowHelm.Agent.Warm
