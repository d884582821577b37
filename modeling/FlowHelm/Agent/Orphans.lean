/-
  FlowHelm.Agent.Orphans — whether a container that was created is kept until it is removed.

  A container is lost where its chat's entry goes and it does not: a health check that fails, a
  clean-up whose stop or remove fails, or that ends when another container is kept by then,
  a second container kept for the chat, a `shutdown` over; and where it fails to start before
  there is an entry. A container still being created when a `shutdown` is over runs on.

  - `kept_until_removed`: step by step, no container is lost and none runs on just if the
    entry that goes, or is replaced, is of a container that is removed, a container that was
    created starts and is set up, and none is when a `shutdown` is over.
  - `a_start_that_fails_leaves_a_container`: a run with one that is lost.
-/
import FlowHelm.Agent.WarmContainers

namespace FlowHelm.Agent.Warm

open Runs Parties

def Live (s : St) (c : Nat) : Prop := ∃ st, s.status c = some st ∧ st ≠ .removed

def Kept (s : St) (c : Nat) : Prop := ∃ chatId, s.warmContainers.lookup chatId = some c

/-- In the execution of `createWarmContainer`. -/
def Creating (s : St) (c : Nat) : Prop := ∃ chatId, (c, chatId) ∈ drafts s.tasks

def NoOrphan (s : St) : Prop := ∀ c, Live s c → Kept s c ∨ Creating s c

/-- Since a `shutdown`, no container created before it runs without an entry. -/
def NoneLeft (s : St) : Prop := ∀ n ∈ s.closed, ∀ c < n, s.status c = some .running → Kept s c

/-- The chat has no entry, or that of a container that is removed. -/
def Vacant (s : St) (chatId : String) : Prop := ∀ c, s.warmContainers.lookup chatId = some c → s.status c = some .removed

def Careful (s : St) : Ev → Prop
  | .unhealthy i => ∀ t, s.tasks[i]? = some t → Vacant s t.chatId
  | .started i => ∀ chatId c, s.tasks[i]? = some ⟨chatId, .starting c⟩ → ∀ n ∈ s.closed, n ≤ c
  | .startFailed _ => False
  | .setUp i _ => ∀ t, s.tasks[i]? = some t → Vacant s t.chatId
  | .setUpFailed _ => False
  | .stopFailed i => ∀ k, s.cleanups[i]? = some k → k.idle = true → Vacant s k.chatId
  | .removed i => ∀ k, s.cleanups[i]? = some k → k.idle = true →
    ∀ c, s.warmContainers.lookup k.chatId = some c → c = k.containerId ∨ s.status c = some .removed
  | .removeFailed i => ∀ k, s.cleanups[i]? = some k → k.idle = true → Vacant s k.chatId
  | .shutdownDone => (∀ chatId, Vacant s chatId) ∧
    ∀ n ∈ s.closing, ∀ t ∈ s.tasks, ∀ c, t.phase.creates = some c → s.status c = some .running → n ≤ c
  | _ => True

/-- The entry that goes, or is replaced, is of a container that is removed, and a container that
    was created starts and is set up. -/
def Tidy (s : St) : Ev → Prop
  | .unhealthy i => ∀ t, s.tasks[i]? = some t → Vacant s t.chatId
  | .startFailed _ => False
  | .setUp i _ => ∀ t, s.tasks[i]? = some t → Vacant s t.chatId
  | .setUpFailed _ => False
  | .stopFailed i => ∀ k, s.cleanups[i]? = some k → k.idle = true → Vacant s k.chatId
  | .removed i => ∀ k, s.cleanups[i]? = some k → k.idle = true →
    ∀ c, s.warmContainers.lookup k.chatId = some c → c = k.containerId ∨ s.status c = some .removed
  | .removeFailed i => ∀ k, s.cleanups[i]? = some k → k.idle = true → Vacant s k.chatId
  | .shutdownDone => ∀ chatId, Vacant s chatId
  | _ => True

theorem Careful.tidy {s : St} {e : Ev} (h : Careful s e) : Tidy s e := by
  cases e with
  | shutdownDone => exact h.1
  | unhealthy i => exact h
  | startFailed i => exact h
  | setUp i restored => exact h
  | setUpFailed i => exact h
  | stopFailed i => exact h
  | removed i => exact h
  | removeFailed i => exact h
  | _ => trivial

/-! ## Careful steps -/

/-- Since a `shutdown`, no container created before it runs. -/
def Quiet (s : St) : Prop := ∀ n ∈ s.closed, ∀ c < n, s.status c ≠ some .running

theorem Quiet.noneLeft {s : St} (h : Quiet s) : NoneLeft s := fun n hn c hc hrunning => absurd hrunning (h n hn c hc)

theorem drafts_same {pre post : List Task} {t u : Task} (hu : u.phase.creates = t.phase.creates) (hchat : u.chatId = t.chatId) :
    drafts (pre ++ u :: post) = drafts (pre ++ t :: post) := by
  rw [drafts_append, drafts_append, drafts_cons, drafts_cons, hu, hchat]

theorem drafts_gone {pre post : List Task} {t : Task} (ht : t.phase.creates = none) :
    drafts (pre ++ post) = drafts (pre ++ t :: post) := by
  rw [drafts_append, drafts_append, drafts_cons, ht]
  rfl

theorem NoOrphan.mono {s t : St} (h : NoOrphan s) (hlive : ∀ c, Live t c → Live s c)
    (hkept : ∀ c, Live t c → Kept s c → Kept t c) (hdrafts : drafts t.tasks = drafts s.tasks) : NoOrphan t := by
  intro c hc
  rcases h c (hlive c hc) with hs | ⟨chatId, hs⟩
  · exact .inl (hkept c hc hs)
  · exact .inr ⟨chatId, hdrafts ▸ hs⟩

theorem kept_erase {s : St} {chatId : String} {c : Nat} (hk : Kept s c) (hv : s.warmContainers.lookup chatId ≠ some c) :
    ∃ chat, (s.warmContainers.erase chatId).lookup chat = some c := by
  obtain ⟨chat, hchat⟩ := hk
  refine ⟨chat, ?_⟩
  have hne : chat ≠ chatId := by
    rintro rfl
    exact hv hchat
  rw [AList.lookup_erase_ne hne]
  exact hchat

theorem Vacant.not_live {s : St} {chatId : String} (h : Vacant s chatId) {c : Nat} (hc : Live s c) :
    s.warmContainers.lookup chatId ≠ some c := by
  intro hlookup
  obtain ⟨st, hst, hne⟩ := hc
  rw [h c hlookup] at hst
  exact hne (Option.some.inj hst).symm

/-- What a container that is there after a change of one's status was before. -/
theorem live_setSession {s : St} {c d : Nat} {sessionId : Option String} (h : Live (setSession s c sessionId) d) : Live s d := by
  obtain ⟨st, hst, hne⟩ := h
  exact ⟨st, (status_setSession s c d sessionId).symm.trans hst, hne⟩

theorem live_setStatus {s : St} {c d : Nat} {st : Status} (h : Live (setStatus s c st) d)
    (hst : c = d → s.status d ≠ some .removed) : Live s d := by
  obtain ⟨st', hst', hne⟩ := h
  rw [status_setStatus] at hst'
  by_cases hcd : c = d
  · rw [if_pos hcd] at hst'
    obtain ⟨old, hold, -⟩ := Option.map_eq_some_iff.mp hst'
    exact ⟨old, hold, fun hremoved => hst hcd (hremoved ▸ hold)⟩
  · rw [if_neg hcd] at hst'
    exact ⟨st', hst', hne⟩

theorem live_setRemoved {s : St} {c d : Nat} (h : Live (setStatus s c .removed) d) : d ≠ c ∧ Live s d := by
  obtain ⟨st, hst, hne⟩ := h
  rw [status_setStatus] at hst
  by_cases hcd : c = d
  · rw [if_pos hcd] at hst
    obtain ⟨_, -, hremoved⟩ := Option.map_eq_some_iff.mp hst
    exact absurd hremoved.symm hne
  · rw [if_neg hcd] at hst
    exact ⟨Ne.symm hcd, st, hst, hne⟩

theorem noOrphan_endCleanup {s : St} (h : NoOrphan s) {i : Nat} {k : Cleanup}
    (hv : k.idle = true → ∀ c, Live s c → s.warmContainers.lookup k.chatId ≠ some c) : NoOrphan (endCleanup s i k) := by
  unfold endCleanup
  split
  · rename_i hidle
    exact h.mono (fun _ hc => hc) (fun c hc hk => kept_erase hk (hv hidle c hc)) rfl
  · exact h.mono (fun _ hc => hc) (fun _ _ hk => hk) rfl

theorem closed_endCleanup (s : St) (i : Nat) (k : Cleanup) : (endCleanup s i k).closed = s.closed := by
  unfold endCleanup
  split <;> rfl

theorem status_endCleanup (s : St) (i : Nat) (k : Cleanup) (c : Nat) : (endCleanup s i k).status c = s.status c := by
  unfold endCleanup
  split <;> rfl

theorem noOrphan_next {s t : St} {e : Ev} (hb : Base s) (h : NoOrphan s) (ha : Tidy s e) (hn : Next s e t) : NoOrphan t := by
  cases hn with
  | executed chatId =>
    refine h.mono (fun _ hc => hc) (fun _ _ hk => hk) ?_
    rw [drafts_append, drafts_cons, creates_beginTask]
    exact List.append_nil _
  | healthy i chatId c pre post hi htasks hrunning =>
    exact h.mono (fun _ hc => hc) (fun _ _ hk => hk) (htasks ▸ drafts_same rfl rfl)
  | unhealthy i chatId c pre post hi htasks =>
    exact h.mono (fun _ hc => hc) (fun d hd hk => kept_erase hk ((ha _ hi).not_live hd)) (htasks ▸ drafts_same rfl rfl)
  | prepared i chatId pre post htasks => exact h.mono (fun _ hc => hc) (fun _ _ hk => hk) (htasks ▸ drafts_same rfl rfl)
  | threw e u pre post htasks hu he => exact h.mono (fun _ hc => hc) (fun _ _ hk => hk) (htasks ▸ drafts_gone hu)
  | created i chatId pre post htasks =>
    have hdrafts : ∀ d ∈ drafts s.tasks, d ∈ drafts (pre ++ ⟨chatId, .starting s.boxes.length⟩ :: post) := by
      intro d hd
      rw [htasks, ← drafts_gone (t := ⟨chatId, .creating⟩) rfl, drafts_append] at hd
      rw [drafts_append, drafts_cons]
      simp only [List.mem_append] at hd ⊢
      exact hd.imp id .inr
    intro c hc
    by_cases hold : c < s.boxes.length
    · have hlive : Live s c := by
        obtain ⟨st, hst, hne⟩ := hc
        unfold St.status at hst
        rw [status_append hold] at hst
        exact ⟨st, hst, hne⟩
      exact (h c hlive).imp id fun ⟨chat, hchat⟩ => ⟨chat, hdrafts _ hchat⟩
    · obtain ⟨st, hst, -⟩ := hc
      have hlt : c < s.boxes.length + 1 := by
        obtain ⟨b, hb, -⟩ := Option.map_eq_some_iff.mp hst
        simpa using (List.getElem?_eq_some_iff.mp hb).1
      obtain rfl : c = s.boxes.length := by omega
      refine .inr ⟨chatId, ?_⟩
      show _ ∈ drafts (pre ++ _ :: post)
      rw [drafts_append, drafts_cons]
      simp [Phase.creates]
  | started i chatId c pre post hi htasks =>
    refine h.mono (fun d hd => live_setStatus hd ?_) (fun _ _ hk => hk) (htasks ▸ drafts_same rfl rfl)
    rintro rfl
    refine hb.there (c, chatId) ?_
    rw [htasks, drafts_append, drafts_cons]
    simp [Phase.creates]
  | left e u c pre post htasks hu he =>
    obtain ⟨i, rfl | rfl⟩ := he
    · exact absurd ha id
    · exact absurd ha id
  | kept i restored chatId c pre post hi htasks =>
    have hv := ha _ hi
    intro d hd
    have hlive : Live s d := live_setSession hd
    rcases h d hlive with ⟨chat, hchat⟩ | ⟨chat, hchat⟩
    · have hne : chat ≠ chatId := by
        rintro rfl
        exact hv.not_live hlive hchat
      exact .inl ⟨chat, (AList.lookup_insert_ne hne).trans hchat⟩
    · rw [htasks, drafts_append, drafts_cons] at hchat
      rcases mem_splits rfl hchat with heq | hmem
      · obtain ⟨rfl, rfl⟩ := Prod.mk.inj heq
        exact .inl ⟨chat, AList.lookup_insert _⟩
      · refine .inr ⟨chat, ?_⟩
        show _ ∈ drafts (pre ++ _ :: post)
        rw [drafts_append, drafts_cons]
        exact hmem
  | resumeFailed i chatId c pre post htasks =>
    exact h.mono (fun _ hd => live_setSession hd) (fun _ _ hk => hk) (htasks ▸ drafts_same rfl rfl)
  | answered i sessionId chatId c retried pre post htasks =>
    exact h.mono (fun _ hd => live_setSession hd) (fun _ _ hk => hk) (htasks ▸ drafts_gone rfl)
  | expired i timers => exact h
  | idle i id chatId c hi hc => exact h
  | backedUp i chatId c idle pre post hcleanups => exact h
  | stopped i chatId c idle pre post hcleanups hremoved =>
    refine h.mono (fun d hd => live_setStatus hd ?_) (fun _ _ hk => hk) rfl
    rintro rfl
    exact hremoved
  | ended e i k pre post hi hcleanups he =>
    refine noOrphan_endCleanup h fun hidle c hc => ?_
    rcases he with rfl | rfl
    · exact (ha k hi hidle).not_live hc
    · exact (ha k hi hidle).not_live hc
  | removed i chatId c idle pre post hi hcleanups =>
    have hs : NoOrphan (setStatus s c .removed) := h.mono (fun d hd => (live_setRemoved hd).2) (fun _ _ hk => hk) rfl
    refine noOrphan_endCleanup hs fun hidle d hd hlookup => ?_
    obtain ⟨hne, st, hst, hremoved⟩ := live_setRemoved hd
    rcases ha _ hi hidle d hlookup with heq | hgone
    · exact hne heq
    · rw [hgone] at hst
      exact hremoved (Option.some.inj hst).symm
  | shutdown hclosing => exact h
  | shutdownDone n hclosing hidle =>
    intro c hc
    rcases h c hc with ⟨chatId, hk⟩ | hcreating
    · exact absurd hk ((ha chatId).not_live hc)
    · exact .inr hcreating
  | died c hrunning =>
    refine h.mono (fun d hd => live_setStatus hd ?_) (fun _ _ hk => hk) rfl
    rintro rfl
    rw [hrunning]
    decide

theorem quiet_setStatus {s : St} {c : Nat} {st : Status} (h : Quiet s) (hst : st ≠ .running) : Quiet (setStatus s c st) := by
  intro n hn d hd hrunning
  rw [status_setStatus] at hrunning
  split at hrunning
  · obtain ⟨_, -, heq⟩ := Option.map_eq_some_iff.mp hrunning
    exact hst heq
  · exact h n hn d hd hrunning

theorem quiet_next {s t : St} {e : Ev} (hb : Base s) (h : NoOrphan s) (hq : Quiet s) (ha : Careful s e) (hn : Next s e t) :
    Quiet t := by
  cases hn with
  | executed chatId => exact hq
  | healthy i chatId c pre post hi htasks hrunning => exact hq
  | unhealthy i chatId c pre post hi htasks => exact hq
  | prepared i chatId pre post htasks => exact hq
  | threw e u pre post htasks hu he => exact hq
  | created i chatId pre post htasks =>
    intro n hn c hc hrunning
    have hle := hb.closed n hn
    unfold St.status at hrunning
    rw [status_append (by omega)] at hrunning
    exact hq n hn c hc hrunning
  | started i chatId c pre post hi htasks =>
    intro n hn d hd hrunning
    have hle := ha chatId c hi n hn
    have hne : c ≠ d := by omega
    refine hq n hn d hd ?_
    rw [← hrunning]
    exact ((status_setStatus s c d .running).trans (if_neg hne)).symm
  | left e u c pre post htasks hu he => exact hq
  | kept i restored chatId c pre post hi htasks =>
    exact fun n hn d hd hrunning => hq n hn d hd ((status_setSession s c d restored).symm.trans hrunning)
  | resumeFailed i chatId c pre post htasks =>
    exact fun n hn d hd hrunning => hq n hn d hd ((status_setSession s c d none).symm.trans hrunning)
  | answered i sessionId chatId c retried pre post htasks =>
    exact fun n hn d hd hrunning => hq n hn d hd ((status_setSession s c d _).symm.trans hrunning)
  | expired i timers => exact hq
  | idle i id chatId c hi hc => exact hq
  | backedUp i chatId c idle pre post hcleanups => exact hq
  | stopped i chatId c idle pre post hcleanups hremoved => exact quiet_setStatus hq (by decide)
  | ended e i k pre post hi hcleanups he =>
    exact fun n hn d hd hrunning => hq n (closed_endCleanup s i k ▸ hn) d hd (status_endCleanup s i k d ▸ hrunning)
  | removed i chatId c idle pre post hi hcleanups =>
    exact fun n hn d hd hrunning => quiet_setStatus hq (by decide) n (closed_endCleanup _ i _ ▸ hn) d hd
      (status_endCleanup _ i _ d ▸ hrunning)
  | shutdown hclosing => exact hq
  | shutdownDone n hclosing hidle =>
    intro m hm c hc hrunning
    obtain rfl := Option.some.inj hm
    have hrunning : s.status c = some .running := hrunning
    rcases h c ⟨_, hrunning, by decide⟩ with ⟨chatId, hk⟩ | ⟨chatId, hdraft⟩
    · rw [ha.1 chatId c hk] at hrunning
      cases hrunning
    · obtain ⟨u, hu, hdraft⟩ := List.mem_filterMap.mp hdraft
      obtain ⟨d, hcreates, heq⟩ := Option.map_eq_some_iff.mp hdraft
      obtain ⟨rfl, -⟩ := Prod.mk.inj heq
      have hle := ha.2 _ hclosing u hu d hcreates hrunning
      omega
  | died c hrunning => exact quiet_setStatus hq (by decide)

theorem careful {s : St} (h : Reach machine Careful s) : NoOrphan s ∧ Quiet s := by
  have hinit : NoOrphan machine.init ∧ Quiet machine.init := by
    refine ⟨?_, nofun⟩
    rintro c ⟨st, hst, -⟩
    cases hst
  refine h.inv (I := fun s => NoOrphan s ∧ Quiet s) hinit ?_
  intro s e t hr hs ha he
  have hb := base hr
  exact ⟨noOrphan_next hb hs.1 ha.tidy (step_next he), quiet_next hb hs.1 hs.2 ha (step_next he)⟩

/-! ## Careless steps -/

theorem not_creating {s : St} (h : Base s) {chatId : String} {c : Nat} (hc : s.warmContainers.lookup chatId = some c) :
    ¬Creating s c := fun ⟨_, hd⟩ => h.unkept _ hd chatId hc

/-- A container is kept for one chat. -/
theorem kept_once {s : St} (h : Base s) {a b : String} {c : Nat} (ha : s.warmContainers.lookup a = some c)
    (hb : s.warmContainers.lookup b = some c) : a = b :=
  Option.some.inj ((h.kept a c ha).symm.trans (h.kept b c hb))

theorem not_vacant {s : St} (h : Base s) {chatId : String} (hv : ¬Vacant s chatId) :
    ∃ c, s.warmContainers.lookup chatId = some c ∧ Live s c := by
  obtain ⟨c, hc, hne⟩ : ∃ c, s.warmContainers.lookup chatId = some c ∧ s.status c ≠ some .removed := by
    simpa only [Vacant, not_forall, exists_prop] using hv
  obtain ⟨st, hst⟩ := status_some (drawn (h.kept chatId c hc))
  exact ⟨c, hc, st, hst, fun heq => hne (heq ▸ hst)⟩

/-- A container that has had its entry and is there still is lost with it. -/
theorem lost {s t : St} (h : Base s) {chatId : String} {c : Nat} (hc : s.warmContainers.lookup chatId = some c)
    (hlive : Live t c) (hkept : ∀ chat, t.warmContainers.lookup chat = some c → chat ≠ chatId ∧
    s.warmContainers.lookup chat = some c)
    (hdrafts : ∀ d ∈ drafts t.tasks, d ∈ drafts s.tasks) : ¬NoOrphan t := by
  intro hno
  rcases hno c hlive with ⟨chat, hchat⟩ | ⟨chat, hchat⟩
  · obtain ⟨hne, hchat⟩ := hkept chat hchat
    exact hne (kept_once h hchat hc)
  · exact not_creating h hc ⟨chat, hdrafts _ hchat⟩

theorem tasks_endCleanup (s : St) (i : Nat) (k : Cleanup) : (endCleanup s i k).tasks = s.tasks := by
  unfold endCleanup
  split <;> rfl

theorem lookup_endCleanup {s : St} {i : Nat} {k : Cleanup} (hidle : k.idle = true) {chat : String} {c : Nat}
    (hc : (endCleanup s i k).warmContainers.lookup chat = some c) :
    chat ≠ k.chatId ∧ s.warmContainers.lookup chat = some c := by
  unfold endCleanup at hc
  rw [if_pos hidle] at hc
  exact lookup_erase_some hc

/-- The clean-up of one container ends where another is kept for the chat, or that one still. -/
theorem lost_endCleanup {s u : St} (h : Base s) {i : Nat} {k : Cleanup} (hidle : k.idle = true) {c : Nat}
    (hc : s.warmContainers.lookup k.chatId = some c) (hlive : Live u c) (hkept : u.warmContainers = s.warmContainers)
    (htasks : u.tasks = s.tasks) : ¬NoOrphan (endCleanup u i k) := by
  refine lost h hc ?_ ?_ ?_
  · obtain ⟨st, hst, hne⟩ := hlive
    exact ⟨st, (status_endCleanup u i k c).trans hst, hne⟩
  · intro chat hchat
    have hlookup := lookup_endCleanup hidle hchat
    rw [hkept] at hlookup
    exact hlookup
  · intro d hd
    rw [tasks_endCleanup, htasks] at hd
    exact hd

theorem careless_next {s t : St} {e : Ev} (h : Base s) (ha : ¬Careful s e) (hn : Next s e t) : ¬(NoOrphan t ∧ NoneLeft t) := by
  cases hn with
  | unhealthy i chatId c pre post hi htasks =>
    obtain ⟨d, hd, hlive⟩ : ∃ d, s.warmContainers.lookup chatId = some d ∧ Live s d := by
      refine not_vacant h fun hv => ha fun u hu => ?_
      rw [hi] at hu
      obtain rfl := Option.some.inj hu
      exact hv
    have hlost := lost (t := { clearIdleTimer { s with warmContainers := s.warmContainers.erase chatId } chatId with
        tasks := pre ++ ⟨chatId, .preparing⟩ :: post }) h hd hlive (fun chat hchat => lookup_erase_some hchat)
      (fun x hx => (htasks ▸ drafts_moved (.inl rfl) : (drafts _).Sublist (drafts s.tasks)).mem hx)
    exact fun hsafe => hlost hsafe.1
  | started i chatId c pre post hi htasks =>
    have hdraft : (c, chatId) ∈ drafts s.tasks := by
      rw [htasks, drafts_append, drafts_cons]
      simp [Phase.creates]
    obtain ⟨n, hn, hlt⟩ : ∃ n ∈ s.closed, c < n := by
      by_contra hnone
      refine ha fun chat d hd n hn => ?_
      rw [hi] at hd
      obtain ⟨-, heq⟩ := Task.mk.inj (Option.some.inj hd)
      obtain rfl := Phase.starting.inj heq
      by_contra hlt
      exact hnone ⟨n, hn, by omega⟩
    obtain ⟨st, hst⟩ := status_some (drawn (h.ofChat _ hdraft))
    have hrunning : (setStatus s c .running).status c = some .running := by
      rw [status_setStatus, if_pos rfl, hst]
      rfl
    rintro ⟨-, hnone⟩
    obtain ⟨chat, hchat⟩ := hnone n hn c hlt hrunning
    exact h.unkept _ hdraft chat hchat
  | left e u c pre post htasks hu he =>
    have hdrafts : drafts s.tasks = drafts pre ++ (c, u.chatId) :: drafts post := by
      rw [htasks, drafts_append, drafts_cons, hu]
      rfl
    have hdraft : (c, u.chatId) ∈ drafts s.tasks := by
      rw [hdrafts]
      simp
    obtain ⟨st, hst⟩ := status_some (drawn (h.ofChat _ hdraft))
    rintro ⟨hno, -⟩
    rcases hno c ⟨st, hst, fun heq => h.there _ hdraft (heq ▸ hst)⟩ with ⟨chat, hchat⟩ | ⟨chat, hchat⟩
    · exact h.unkept _ hdraft chat hchat
    · have honce := h.once
      rw [hdrafts, (List.perm_middle.map Prod.fst).nodup_iff, List.map_cons, List.nodup_cons, ← drafts_append] at honce
      exact honce.1 (List.mem_map.mpr ⟨_, hchat, rfl⟩)
  | kept i restored chatId c pre post hi htasks =>
    have hdraft : (c, chatId) ∈ drafts s.tasks := by
      rw [htasks, drafts_append, drafts_cons]
      simp [Phase.creates]
    obtain ⟨d, hd, st, hst, hne⟩ : ∃ d, s.warmContainers.lookup chatId = some d ∧ Live s d := by
      refine not_vacant h fun hv => ha fun u hu => ?_
      rw [hi] at hu
      obtain rfl := Option.some.inj hu
      exact hv
    have hlost : ¬NoOrphan { resetIdleTimer { setSession s c restored with
        warmContainers := s.warmContainers.insert chatId c } chatId with
      tasks := pre ++ ⟨chatId, .executing c false⟩ :: post } := by
      refine lost h hd ⟨st, (status_setSession s c d restored).trans hst, hne⟩ ?_ ?_
      · intro chat hchat
        have hchat : (s.warmContainers.insert chatId c).lookup chat = some d := hchat
        by_cases heq : chat = chatId
        · rw [heq, AList.lookup_insert] at hchat
          obtain rfl := Option.some.inj hchat
          exact absurd hd (h.unkept _ hdraft chatId)
        · rw [AList.lookup_insert_ne heq] at hchat
          exact ⟨heq, hchat⟩
      · intro x hx
        exact (htasks ▸ drafts_moved (.inl rfl) : (drafts _).Sublist (drafts s.tasks)).mem hx
    exact fun hsafe => hlost hsafe.1
  | ended e i k pre post hi hcleanups he =>
    obtain ⟨hidle, hv⟩ : k.idle = true ∧ ¬Vacant s k.chatId := by
      by_contra hnot
      have hcareful : ∀ l, s.cleanups[i]? = some l → l.idle = true → Vacant s l.chatId := by
        intro l hl hidle
        rw [hi] at hl
        obtain rfl := Option.some.inj hl
        by_contra hv
        exact hnot ⟨hidle, hv⟩
      rcases he with rfl | rfl
      · exact ha hcareful
      · exact ha hcareful
    obtain ⟨c, hc, hlive⟩ := not_vacant h hv
    exact fun hsafe => lost_endCleanup h hidle hc hlive rfl rfl hsafe.1
  | removed i chatId c idle pre post hi hcleanups =>
    obtain ⟨hidle, d, hd, hne, hremoved⟩ : idle = true ∧ ∃ d, s.warmContainers.lookup chatId = some d ∧ d ≠ c ∧
        s.status d ≠ some .removed := by
      by_contra hnot
      refine ha fun l hl hidle d hd => ?_
      rw [hi] at hl
      obtain rfl := Option.some.inj hl
      by_contra hor
      exact hnot ⟨hidle, d, hd, fun heq => hor (.inl heq), fun heq => hor (.inr heq)⟩
    obtain ⟨st, hst⟩ := status_some (drawn (h.kept chatId d hd))
    have hlive : Live (setStatus s c .removed) d := by
      refine ⟨st, ?_, fun heq => hremoved (heq ▸ hst)⟩
      rw [status_setStatus, if_neg (Ne.symm hne)]
      exact hst
    exact fun hsafe => lost_endCleanup h (k := ⟨chatId, c, .removing, idle⟩) hidle hd hlive rfl rfl hsafe.1
  | shutdownDone n hclosing hidle =>
    by_cases hv : ∀ chatId, Vacant s chatId
    · obtain ⟨u, hu, c, hcreates, hrunning, hlt⟩ : ∃ u ∈ s.tasks, ∃ c, u.phase.creates = some c ∧
          s.status c = some .running ∧ c < n := by
        by_contra hnone
        refine ha ⟨hv, fun m hm u hu c hcreates hrunning => ?_⟩
        obtain rfl := Option.some.inj (hclosing.symm.trans hm)
        by_contra hlt
        exact hnone ⟨u, hu, c, hcreates, hrunning, by omega⟩
      rintro ⟨-, hnone⟩
      obtain ⟨chat, hchat⟩ := hnone n rfl c hlt hrunning
      cases hchat
    · obtain ⟨chatId, hv⟩ := not_forall.mp hv
      obtain ⟨c, hc, hlive⟩ := not_vacant h hv
      exact fun hsafe => lost h hc (t := { s with warmContainers := ∅, closing := none, closed := some n }) hlive
        (fun chat hchat => by cases hchat) (fun d hd => hd) hsafe.1
  | threw e u pre post htasks hu he =>
    obtain ⟨i, rfl | rfl | rfl⟩ := he
    · exact absurd trivial ha
    · exact absurd trivial ha
    · exact absurd trivial ha
  | _ => exact absurd trivial ha

/-- Careful runs lose no container and leave none running; whatever step is not careful does. -/
theorem kept_until_removed (s : St) :
    (Reach machine Careful s → NoOrphan s ∧ NoneLeft s) ∧
      ∀ e t, Reach machine Careful s → machine.step s e = some t → ¬Careful s e → ¬(NoOrphan t ∧ NoneLeft t) := by
  refine ⟨fun h => ?_, fun e t h he ha => careless_next (base h) ha (step_next he)⟩
  obtain ⟨hno, hq⟩ := careful h
  exact ⟨hno, hq.noneLeft⟩

/-- The first container of a chat is created, and does not start. -/
theorem a_start_that_fails_leaves_a_container : ∃ s, Reach machine Free s ∧ ¬NoOrphan s := by
  obtain ⟨s, hs, hp⟩ := reach_any (M := machine) (C := fun _ _ => True)
    (P := fun s => s.boxes == [⟨"a", .created, none⟩] && s.tasks == [] && s.warmContainers.entries == [])
    [.execute "a", .prepared 0, .created 0, .startFailed 0] (by decide) (by decide)
  refine ⟨s, hs, fun hno => ?_⟩
  simp only [Bool.and_eq_true, beq_iff_eq] at hp
  obtain ⟨⟨hboxes, htasks⟩, hkept⟩ := hp
  have hlive : Live s 0 := by
    unfold Live St.status
    rw [hboxes]
    exact ⟨.created, rfl, by decide⟩
  rcases hno 0 hlive with ⟨chat, hchat⟩ | ⟨chat, hchat⟩
  · have hmem := AList.mem_lookup_iff.mp hchat
    rw [hkept] at hmem
    cases hmem
  · rw [htasks] at hchat
    cases hchat

end FlowHelm.Agent.Warm
