/-
  FlowHelm.Agent.ContainerNames — the names of the chats' containers, over processes that crash
  and start again (warm-container-runtime.ts, lifecycle.ts, podman-runtime.ts).

  The engine keeps the containers, and creates none with the name of one that is there. A crash
  leaves it with the calls that were under way, each of which takes effect later or never; the
  next process removes what does not run before it does anything else (`cleanupOrphans`), and
  each removal can fail. The hash is a parameter: chats of one hash have one name.

  - `created_under_free_names`: no create is for a name that is taken, while the runtime forgets
    no container that is there, and keeps and creates one container of a name at a time.
  - `a_name_is_taken_for_good`, `a_crash_leaves_a_container`: what becomes of a forgotten one.
-/
import FlowHelm.Agent.Orphans
import FlowHelm.Container.Lifecycle

namespace FlowHelm.Agent.Warm

open Parties Runs Js Container

/-- A call to the engine, of a process that has crashed since. -/
inductive Call where
  | create (chatId : String)
  | start (containerId : Nat)
  | stop (containerId : Nat)
  | remove (containerId : Nat)
  deriving DecidableEq, Repr

structure Host where
  warm : St
  /-- A process runs, and has cleaned up. -/
  up : Bool
  lingering : List Call

inductive HostEv where
  | warm (e : Ev)
  | crash
  /-- The `i`th of the calls left takes effect, or never will. -/
  | lands (i : Nat) (ok : Bool)
  /-- `ContainerLifecycleManager.start`, with the removals that fail. -/
  | start (failed : List Nat)
  deriving DecidableEq, Repr

variable (username : JsString) (hashChatId : String → JsString)

def containerName (chatId : String) : JsString := agentContainer username (hashChatId chatId)

/-! ## The engine and the processes -/

/-- A container of that name is there. -/
def taken (boxes : List Box) (chatId : String) : Bool :=
  boxes.any fun b => b.status != .removed && containerName username hashChatId b.chatId == containerName username
    hashChatId chatId

def Task.call (t : Task) : Option Call := match t.phase with
  | .creating => some (.create t.chatId)
  | .starting c => some (.start c)
  | _ => none

def Cleanup.call (k : Cleanup) : Option Call := match k.phase with
  | .stopping => some (.stop k.containerId)
  | .removing => some (.remove k.containerId)
  | .backup => none

/-- What a process that is gone leaves. -/
def crashed (s : St) : St := { St.init with boxes := s.boxes }

/-- The status of a container that is there changes. -/
def changeStatus (s : St) (c : Nat) (status : Status) : St :=
  if s.status c = some .removed then s else setStatus s c status

def land (s : St) : Call → St
  | .create chatId =>
    if taken username hashChatId s.boxes chatId then s else { s with boxes := s.boxes ++ [⟨chatId, .created, none⟩] }
  | .start c => changeStatus s c .running
  | .stop c => changeStatus s c .stopped
  | .remove c => changeStatus s c .removed

def cleanupOrphans (failed : List Nat) (s : St) : St :=
  { s with boxes := s.boxes.mapIdx fun c b => if b.status = .running ∨ c ∈ failed then b else { b with status := .removed } }

/-- The engine refuses a create for a name that is taken. -/
def refused (s : St) : Ev → Bool
  | .created i => match s.tasks[i]? with
    | some t => taken username hashChatId s.boxes t.chatId
    | none => false
  | _ => false

/-- It happens without the process. -/
def Ev.outside : Ev → Bool
  | .died _ => true
  | _ => false

def hostStep (s : Host) : HostEv → Option Host
  | .warm e =>
    if refused username hashChatId s.warm e then none
    else if s.up || e.outside then (step s.warm e).map fun t => { s with warm := t }
    else none
  | .crash =>
    if s.up then some ⟨crashed s.warm, false, s.lingering ++ s.warm.tasks.filterMap Task.call ++
      s.warm.cleanups.filterMap Cleanup.call⟩
    else none
  | .lands i ok => match s.lingering[i]? with
    | some call =>
      some { s with warm := if ok then land username hashChatId s.warm call else s.warm, lingering := s.lingering.eraseIdx i }
    | none => none
  | .start failed => if s.up then none else some { s with warm := cleanupOrphans failed s.warm, up := true }

def hosts : System Host HostEv := ⟨⟨.init, false, []⟩, hostStep username hashChatId⟩

/-! ## The condition -/

/-- The event is the call of create for the chat. -/
def Creates (s : Host) (e : HostEv) (chatId : String) : Prop :=
  ∃ i, e = .warm (.prepared i) ∧ s.warm.tasks[i]? = some ⟨chatId, .preparing⟩

/-- Nothing that is there is forgotten: by the runtime, step by step, or by a process that
    crashes; and when a create is called, no container of the name is kept or being created. -/
def Remembers (s : Host) : HostEv → Prop
  | .warm (.prepared i) => ∀ t, s.warm.tasks[i]? = some t → ∀ c other, Kept s.warm c ∨ Creating s.warm c →
    s.warm.chatOf c = some other → containerName username hashChatId other = containerName username hashChatId t.chatId →
      ¬ Live s.warm c
  | .warm (.setUp _ _) => True
  | .warm e => Tidy s.warm e
  | .crash => True
  | .lands i ok => s.up = true → ok = true → ∀ chatId, s.lingering[i]? ≠ some (.create chatId)
  | .start failed => ∀ c, Live s.warm c → s.warm.status c ≠ some .running ∧ c ∉ failed

/-! ## What an event does to the containers -/

variable {username hashChatId}

theorem taken_iff {s : St} {chatId : String} : taken username hashChatId s.boxes chatId = true ↔
    ∃ c other, Live s c ∧ s.chatOf c = some other ∧
        containerName username hashChatId other = containerName username hashChatId chatId := by
  simp only [taken, List.any_eq_true, Bool.and_eq_true, bne_iff_ne, beq_iff_eq]
  constructor
  · intro h
    obtain ⟨b, hb, hstatus, hname⟩ := h
    obtain ⟨c, hc⟩ := List.mem_iff_getElem?.mp hb
    refine ⟨c, b.chatId, ⟨b.status, ?_, hstatus⟩, ?_, hname⟩
    · rw [St.status, hc]
      rfl
    · rw [St.chatOf, hc]
      rfl
  · intro h
    obtain ⟨c, other, ⟨st, hst, hne⟩, hchat, hname⟩ := h
    obtain ⟨b, hb, rfl⟩ := Option.map_eq_some_iff.mp hst
    refine ⟨b, List.mem_of_getElem? hb, hne, ?_⟩
    obtain ⟨b', hb', rfl⟩ := Option.map_eq_some_iff.mp hchat
    rw [hb] at hb'
    rw [Option.some.inj hb']
    exact hname

theorem created_boxes {s t : St} {i : Nat} (h : step s (.created i) = some t) :
    ∃ chatId, s.tasks[i]? = some ⟨chatId, .creating⟩ ∧ t.boxes = s.boxes ++ [⟨chatId, .created, none⟩] := by
  simp only [step] at h
  split at h
  · rename_i chatId hi
    obtain rfl := Option.some.inj h
    exact ⟨chatId, hi, rfl⟩
  · cases h

/-- Where none is created, no container comes to be there. -/
theorem boxes_next {s t : St} {e : Ev} (hb : Base s) (hn : Next s e t) (he : ∀ i, e ≠ .created i) :
    t.boxes.length = s.boxes.length ∧ ∀ c, t.chatOf c = s.chatOf c ∧ (Live t c → Live s c) := by
  have hstatus : ∀ c st, (c ∈ (drafts s.tasks).map Prod.fst ∨ s.status c ≠ some .removed ∨ st = .removed) →
      (setStatus s c st).boxes.length = s.boxes.length ∧
        ∀ d, (setStatus s c st).chatOf d = s.chatOf d ∧ (Live (setStatus s c st) d → Live s d) := by
    intro c st hc
    refine ⟨List.length_modify .., fun d => ⟨chatOf_setStatus s c d st, fun hd => ?_⟩⟩
    rcases hc with hdraft | hthere | rfl
    · obtain ⟨draft, hmem, rfl⟩ := List.mem_map.mp hdraft
      exact live_setStatus hd fun heq => heq ▸ hb.there draft hmem
    · exact live_setStatus hd fun heq => heq ▸ hthere
    · exact (live_setRemoved hd).2
  have hsession : ∀ c x, (setSession s c x).boxes.length = s.boxes.length ∧
      ∀ d, (setSession s c x).chatOf d = s.chatOf d ∧ (Live (setSession s c x) d → Live s d) := by
    intro c x
    exact ⟨List.length_modify .., fun d => ⟨chatOf_setSession s c d x, live_setSession⟩⟩
  have hsame : s.boxes.length = s.boxes.length ∧ ∀ c, s.chatOf c = s.chatOf c ∧ (Live s c → Live s c) :=
    ⟨rfl, fun _ => ⟨rfl, id⟩⟩
  have hend : ∀ u i k, (endCleanup u i k).boxes = u.boxes := by
    intro u i k
    unfold endCleanup
    split <;> rfl
  cases hn with
  | created i chatId pre post htasks => exact absurd rfl (he i)
  | started i chatId c pre post hi htasks =>
    refine hstatus c .running (.inl ?_)
    rw [htasks, drafts_append, drafts_cons]
    simp [Phase.creates]
  | kept i restored chatId c pre post hi htasks => exact hsession c restored
  | resumeFailed i chatId c pre post htasks => exact hsession c none
  | answered i sessionId chatId c retried pre post htasks => exact hsession c _
  | stopped i chatId c idle pre post hcleanups hremoved => exact hstatus c .stopped (.inr (.inl hremoved))
  | removed i chatId c idle pre post hi hcleanups =>
    have hboxes := hend (setStatus s c .removed) i ⟨chatId, c, .removing, idle⟩
    unfold Live St.status St.chatOf
    rw [hboxes]
    exact hstatus c .removed (.inr (.inr rfl))
  | ended e i k pre post hi hcleanups he =>
    have hboxes := hend s i k
    unfold Live St.status St.chatOf
    rw [hboxes]
    exact hsame
  | died c hrunning =>
    refine hstatus c .stopped (.inr (.inl ?_))
    rw [hrunning]
    decide
  | _ => exact hsame

/-! ## What is kept -/

def Call.containerId : Call → Option Nat
  | .create _ => none
  | .start c => some c
  | .stop c => some c
  | .remove c => some c

variable (username hashChatId) in
/-- Of a name, one container is there. -/
def Unique (s : St) : Prop := ∀ c d chatId other, Live s c → Live s d → s.chatOf c = some chatId → s.chatOf d = some other →
  containerName username hashChatId chatId = containerName username hashChatId other → c = d

variable (username hashChatId) in
structure HostInv (s : Host) : Prop where
  base : Base s.warm
  unique : Unique username hashChatId s.warm
  known : s.up = true → NoOrphan s.warm
  idle : s.up = false → s.warm = crashed s.warm
  drawn : ∀ call ∈ s.lingering, ∀ c ∈ call.containerId, c < s.warm.boxes.length
  past : s.up = true → ∀ call ∈ s.lingering, ∀ c ∈ call.containerId, ¬ Live s.warm c

theorem base_crashed (s : St) : Base (crashed s) := ⟨nofun, nofun, .nil, nofun, nofun, nofun, nofun, nofun, nofun⟩

theorem Unique.mono {s t : St} (h : Unique username hashChatId s)
    (hboxes : ∀ c, t.chatOf c = s.chatOf c ∧ (Live t c → Live s c)) :
    Unique username hashChatId t := by
  intro c d chatId other hc hd hchat hother hname
  rw [(hboxes c).1] at hchat
  rw [(hboxes d).1] at hother
  exact h c d chatId other ((hboxes c).2 hc) ((hboxes d).2 hd) hchat hother hname

theorem live_append {s t : St} {b : Box} (hboxes : t.boxes = s.boxes ++ [b]) {c : Nat} (h : Live t c) :
    (c < s.boxes.length ∧ Live s c ∧ t.chatOf c = s.chatOf c) ∨ (c = s.boxes.length ∧ t.chatOf c = some b.chatId) := by
  obtain ⟨st, hst, hne⟩ := h
  unfold St.status at hst
  unfold Live St.status St.chatOf
  rw [hboxes] at hst ⊢
  by_cases hc : c < s.boxes.length
  · rw [List.getElem?_append_left hc] at hst ⊢
    exact .inl ⟨hc, ⟨st, hst, hne⟩, rfl⟩
  · obtain ⟨b', hb', -⟩ := Option.map_eq_some_iff.mp hst
    have hlength := (List.getElem?_eq_some_iff.mp hb').1
    rw [List.length_append, List.length_singleton] at hlength
    obtain rfl : c = s.boxes.length := by omega
    refine .inr ⟨rfl, ?_⟩
    rw [List.getElem?_concat_length]
    rfl

/-- A container created under a free name. -/
theorem unique_append {s t : St} (h : Unique username hashChatId s) {chatId : String} {st : Status} {x : Option String}
    (hboxes : t.boxes = s.boxes ++ [⟨chatId, st, x⟩]) (hfree : taken username hashChatId s.boxes chatId ≠ true) :
    Unique username hashChatId t := by
  rw [ne_eq, taken_iff] at hfree
  intro c d a b hc hd ha hb hname
  rcases live_append hboxes hc with ⟨-, hcs, hca⟩ | ⟨hcn, hca⟩
  · rcases live_append hboxes hd with ⟨-, hds, hdb⟩ | ⟨hdn, hdb⟩
    · exact h c d a b hcs hds (hca ▸ ha) (hdb ▸ hb) hname
    · obtain rfl := Option.some.inj (hdb.symm.trans hb)
      exact absurd ⟨c, a, hcs, hca ▸ ha, hname⟩ hfree
  · rcases live_append hboxes hd with ⟨-, hds, hdb⟩ | ⟨hdn, hdb⟩
    · obtain rfl := Option.some.inj (hca.symm.trans ha)
      exact absurd ⟨d, b, hds, hdb ▸ hb, hname.symm⟩ hfree
    · exact hcn.trans hdn.symm

/-- The container that a chat keeps is gone when another of its name is being created. -/
theorem vacant_of_draft {s : St} (hbase : Base s) (h : Unique username hashChatId s) {c : Nat} {chatId : String}
    (hdraft : (c, chatId) ∈ drafts s.tasks) : Vacant s chatId := by
  intro d hd
  by_contra hthere
  have hchat := hbase.kept chatId d hd
  obtain ⟨st, hst⟩ := status_some (drawn hchat)
  have hlive : Live s d := ⟨st, hst, fun heq => hthere (heq ▸ hst)⟩
  obtain ⟨st', hst'⟩ := status_some (drawn (hbase.ofChat _ hdraft))
  have hlive' : Live s c := ⟨st', hst', fun heq => hbase.there _ hdraft (heq ▸ hst')⟩
  obtain rfl := h d c chatId chatId hlive hlive' hchat (hbase.ofChat _ hdraft) rfl
  exact hbase.unkept _ hdraft chatId hd

theorem call_drawn {s : St} (h : Base s) {call : Call}
    (hcall : call ∈ s.tasks.filterMap Task.call ++ s.cleanups.filterMap Cleanup.call) :
    ∀ c ∈ call.containerId, c < s.boxes.length := by
  intro c hc
  rcases List.mem_append.mp hcall with hcall | hcall
  · obtain ⟨⟨chatId, phase⟩, ht, hcall⟩ := List.mem_filterMap.mp hcall
    cases phase with
    | starting d =>
      obtain rfl := Option.some.inj hcall
      obtain rfl := Option.some.inj hc
      exact drawn (h.ofChat (d, chatId) (List.mem_filterMap.mpr ⟨_, ht, rfl⟩))
    | creating =>
      obtain rfl := Option.some.inj hcall
      cases hc
    | _ => cases hcall
  · obtain ⟨⟨chatId, d, phase, idle⟩, hk, hcall⟩ := List.mem_filterMap.mp hcall
    cases phase with
    | backup => cases hcall
    | stopping =>
      obtain rfl := Option.some.inj hcall
      obtain rfl := Option.some.inj hc
      exact h.cleanups _ hk
    | removing =>
      obtain rfl := Option.some.inj hcall
      obtain rfl := Option.some.inj hc
      exact h.cleanups _ hk

/-- A call of a process that is gone changes no container that is removed. -/
theorem changeStatus_removed {s : St} {c : Nat} (hc : c < s.boxes.length) (hgone : ¬ Live s c) (status : Status) :
    changeStatus s c status = s := by
  obtain ⟨st, hst⟩ := status_some hc
  refine if_pos ?_
  by_contra hne
  exact hgone ⟨st, hst, fun heq => hne (heq ▸ hst)⟩

theorem boxes_changeStatus (s : St) (c : Nat) (status : Status) :
    (changeStatus s c status).boxes.length = s.boxes.length ∧
      ∀ d, (changeStatus s c status).chatOf d = s.chatOf d ∧ (Live (changeStatus s c status) d → Live s d) := by
  unfold changeStatus
  split
  · exact ⟨rfl, fun _ => ⟨rfl, id⟩⟩
  · rename_i hthere
    exact ⟨List.length_modify .., fun d => ⟨chatOf_setStatus s c d status, fun hd => live_setStatus hd fun heq => heq ▸ hthere⟩⟩

/-! ## Steps -/

/-- An event of the process is a step of the runtime, and no create under a name that is taken. -/
theorem warm_step {s t : Host} {e : Ev} (h : hostStep username hashChatId s (.warm e) = some t) :
    refused username hashChatId s.warm e = false ∧ step s.warm e = some t.warm ∧ t = { s with warm := t.warm } ∧
      (s.up = true ∨ ∃ c, e = .died c) := by
  rw [hostStep] at h
  split at h
  · cases h
  · rename_i hrefused
    split at h
    · rename_i hup
      obtain ⟨u, hu, rfl⟩ := Option.map_eq_some_iff.mp h
      refine ⟨Bool.not_eq_true _ ▸ hrefused, hu, rfl, ?_⟩
      rcases Bool.or_eq_true_iff.mp hup with hup | hout
      · exact .inl hup
      · cases e with
        | died c => exact .inr ⟨c, rfl⟩
        | _ => cases hout
    · cases h

theorem unique_step {s t : St} {e : Ev} (hb : Base s) (h : Unique username hashChatId s)
    (hrefused : refused username hashChatId s e = false)
    (hst : step s e = some t) : Unique username hashChatId t := by
  by_cases he : ∃ i, e = .created i
  · obtain ⟨i, rfl⟩ := he
    obtain ⟨chatId, hi, hboxes⟩ := created_boxes hst
    rw [refused, hi] at hrefused
    have hfree : taken username hashChatId s.boxes chatId = false := hrefused
    refine unique_append h hboxes ?_
    rw [hfree]
    decide
  · exact h.mono (boxes_next hb (step_next hst) fun i hi => he ⟨i, hi⟩).2

/-- What is removed stays removed. -/
theorem gone_step {s t : St} {e : Ev} (hb : Base s) (hst : step s e = some t) {c : Nat} (hc : c < s.boxes.length)
    (h : ¬ Live s c) :
    c < t.boxes.length ∧ ¬ Live t c := by
  by_cases he : ∃ i, e = .created i
  · obtain ⟨i, rfl⟩ := he
    obtain ⟨chatId, -, hboxes⟩ := created_boxes hst
    refine ⟨by rw [hboxes, List.length_append]; omega, fun hlive => ?_⟩
    rcases live_append hboxes hlive with ⟨-, hlive, -⟩ | ⟨heq, -⟩
    · exact h hlive
    · omega
  · obtain ⟨hlength, hboxes⟩ := boxes_next hb (step_next hst) fun i hi => he ⟨i, hi⟩
    exact ⟨hlength ▸ hc, fun hlive => h ((hboxes c).2 hlive)⟩

theorem tidy_of_remembers {s : Host} {e : Ev} (h : HostInv username hashChatId s) (hr : Remembers username hashChatId s (.warm e))
    {t : St} (hst : step s.warm e = some t) : Tidy s.warm e := by
  cases e with
  | prepared i => trivial
  | setUp i restored =>
    intro u hu
    simp only [step] at hst
    split at hst
    · rename_i chatId c hi
      rw [hi] at hu
      obtain rfl := Option.some.inj hu
      exact vacant_of_draft h.base h.unique (List.mem_filterMap.mpr ⟨_, List.mem_of_getElem? hi, rfl⟩)
    · cases hst
  | _ => exact hr

theorem length_step {s t : St} {e : Ev} (hb : Base s) (hst : step s e = some t) : s.boxes.length ≤ t.boxes.length := by
  by_cases he : ∃ i, e = .created i
  · obtain ⟨i, rfl⟩ := he
    obtain ⟨chatId, -, hboxes⟩ := created_boxes hst
    rw [hboxes, List.length_append]
    omega
  · exact (boxes_next hb (step_next hst) fun i hi => he ⟨i, hi⟩).1.ge

theorem inv_warm {s t : Host} {e : Ev} (h : HostInv username hashChatId s) (hr : Remembers username hashChatId s (.warm e))
    (hst : hostStep username hashChatId s (.warm e) = some t) : HostInv username hashChatId t := by
  obtain ⟨hrefused, hwarm, ht, hup⟩ := warm_step hst
  have hups : t.up = s.up := by rw [ht]
  have hlingering : t.lingering = s.lingering := by rw [ht]
  refine ⟨base_next h.base (step_next hwarm), unique_step h.base h.unique hrefused hwarm, fun hu => ?_, fun hd => ?_, ?_, ?_⟩
  · exact noOrphan_next h.base (h.known (hups ▸ hu)) (tidy_of_remembers h hr hwarm) (step_next hwarm)
  · have hdown := hups ▸ hd
    rcases hup with hup | ⟨c, rfl⟩
    · cases hup.symm.trans hdown
    · rw [step] at hwarm
      split at hwarm
      · rw [← Option.some.inj hwarm, h.idle hdown]
        rfl
      · cases hwarm
  · rw [hlingering]
    exact fun call hcall c hc => Nat.lt_of_lt_of_le (h.drawn call hcall c hc) (length_step h.base hwarm)
  · rw [hlingering]
    exact fun hu call hcall c hc => (gone_step h.base hwarm (h.drawn call hcall c hc) (h.past (hups ▸ hu) call hcall c hc)).2

theorem inv_crash {s t : Host} (h : HostInv username hashChatId s) (hst : hostStep username hashChatId s .crash = some t) :
    HostInv username hashChatId t := by
  rw [hostStep] at hst
  split at hst
  · obtain rfl := Option.some.inj hst
    refine ⟨base_crashed s.warm, h.unique, nofun, fun _ => rfl, fun call hcall => ?_, nofun⟩
    rw [List.append_assoc] at hcall
    rcases List.mem_append.mp hcall with hcall | hcall
    · exact h.drawn call hcall
    · exact call_drawn h.base hcall
  · cases hst

theorem inv_start {s t : Host} {failed : List Nat} (h : HostInv username hashChatId s)
    (hr : Remembers username hashChatId s (.start failed)) (hst : hostStep username hashChatId s (.start failed) = some t) :
    HostInv username hashChatId t := by
  rw [hostStep] at hst
  split at hst
  · cases hst
  · rename_i hdown
    obtain rfl := Option.some.inj hst
    have hidle := h.idle (Bool.not_eq_true _ ▸ hdown)
    have hgone : ∀ c, ¬ Live (cleanupOrphans failed s.warm) c := by
      intro c hc
      obtain ⟨st, hst, hne⟩ := hc
      unfold St.status cleanupOrphans at hst
      rw [List.getElem?_mapIdx, Option.map_map] at hst
      obtain ⟨b, hb, hst⟩ := Option.map_eq_some_iff.mp hst
      have hstatus : s.warm.status c = some b.status := by
        rw [St.status, hb]
        rfl
      dsimp only [Function.comp_apply] at hst
      split at hst
      · rename_i hstays
        obtain ⟨hrun, hfail⟩ := hr c ⟨b.status, hstatus, hst ▸ hne⟩
        rcases hstays with hrunning | hin
        · exact hrun (hrunning ▸ hstatus)
        · exact hfail hin
      · exact hne hst.symm
    have hbase : Base (cleanupOrphans failed s.warm) := by
      rw [hidle]
      exact ⟨nofun, nofun, .nil, nofun, nofun, nofun, nofun, nofun, nofun⟩
    refine ⟨hbase, fun c _ _ _ hc => absurd hc (hgone c), fun _ c hc => absurd hc (hgone c), nofun, fun call hcall c hc => ?_,
      fun _ _ _ c _ => hgone c⟩
    have hlength := h.drawn call hcall c hc
    unfold cleanupOrphans
    rw [List.length_mapIdx]
    exact hlength

theorem idle_changeStatus {s : St} (h : s = crashed s) (c : Nat) (status : Status) :
    changeStatus s c status = crashed (changeStatus s c status) := by
  unfold changeStatus
  split
  · exact h
  · rw [h]
    rfl

/-- A call that changes a status lands. -/
theorem inv_changeStatus {s : Host} (h : HostInv username hashChatId s) {call : Call} (hcall : call ∈ s.lingering) {c : Nat}
    (hc : c ∈ call.containerId) (status : Status) :
    HostInv username hashChatId { s with warm := changeStatus s.warm c status } := by
  cases hup : s.up with
  | true =>
    rw [changeStatus_removed (h.drawn call hcall c hc) (h.past hup call hcall c hc)]
    rw [← hup]
    exact h
  | false =>
    obtain ⟨hlength, hboxes⟩ := boxes_changeStatus s.warm c status
    have hidle := idle_changeStatus (h.idle hup) c status
    refine ⟨?_, h.unique.mono hboxes, nofun, fun _ => hidle, fun other hother d hd => ?_, nofun⟩
    · dsimp only
      rw [hidle]
      exact base_crashed _
    · exact hlength ▸ h.drawn other hother d hd

/-- A create lands before the next process is up. -/
theorem inv_create {s : Host} (h : HostInv username hashChatId s) (hdown : s.up = false) (chatId : String) :
    HostInv username hashChatId { s with warm := land username hashChatId s.warm (.create chatId) } := by
  have hidle := h.idle hdown
  by_cases hfree : taken username hashChatId s.warm.boxes chatId = true
  · rw [show land username hashChatId s.warm (.create chatId) = s.warm from if_pos hfree]
    exact h
  · rw [show land username hashChatId s.warm (.create chatId) =
      { s.warm with boxes := s.warm.boxes ++ [⟨chatId, .created, none⟩] }
      from if_neg hfree]
    have hcrashed : ({ s.warm with boxes := s.warm.boxes ++ [⟨chatId, .created, none⟩] } : St) =
        crashed { s.warm with boxes := s.warm.boxes ++ [⟨chatId, .created, none⟩] } := by
      rw [hidle]
      rfl
    refine ⟨?_, unique_append h.unique rfl hfree, fun hup => ?_, fun _ => hcrashed, fun other hother c hc => ?_, fun hup => ?_⟩
    · dsimp only
      rw [hcrashed]
      exact base_crashed _
    · cases hdown.symm.trans hup
    · have hlength := h.drawn other hother c hc
      dsimp only
      rw [List.length_append]
      omega
    · cases hdown.symm.trans hup

theorem inv_lands {s t : Host} {i : Nat} {ok : Bool} (h : HostInv username hashChatId s)
    (hr : Remembers username hashChatId s (.lands i ok)) (hst : hostStep username hashChatId s (.lands i ok) = some t) :
    HostInv username hashChatId t := by
  rw [hostStep] at hst
  split at hst
  · rename_i call hi
    have hcall := List.mem_of_getElem? hi
    have hrest : ∀ other ∈ s.lingering.eraseIdx i, other ∈ s.lingering := fun other hother => List.mem_of_mem_eraseIdx hother
    -- the other calls go on as before
    have hforget : ∀ w : St, HostInv username hashChatId { s with warm := w } →
        HostInv username hashChatId ⟨w, s.up, s.lingering.eraseIdx i⟩ := fun w hw =>
      ⟨hw.base, hw.unique, hw.known, hw.idle, fun other hother => hw.drawn other (hrest other hother),
        fun hup other hother => hw.past hup other (hrest other hother)⟩
    obtain rfl := Option.some.inj hst
    refine hforget _ ?_
    cases ok with
    | false => exact h
    | true =>
      cases call with
      | start c => exact inv_changeStatus h hcall rfl .running
      | stop c => exact inv_changeStatus h hcall rfl .stopped
      | remove c => exact inv_changeStatus h hcall rfl .removed
      | create chatId =>
        cases hup : s.up with
        | true => exact absurd hi (hr hup rfl chatId)
        | false =>
          rw [← hup]
          exact inv_create h hup chatId
  · cases hst

theorem inv_of_reach {s : Host} (h : Reach (hosts username hashChatId) (Remembers username hashChatId) s) :
    HostInv username hashChatId s := by
  refine h.inv ⟨base_crashed .init, ?_, nofun, fun _ => rfl, nofun, nofun⟩ fun s e t _ hs hr hst => ?_
  · cases e with
    | warm e => exact inv_warm hs hr hst
    | crash => exact inv_crash hs hst
    | lands i ok => exact inv_lands hs hr hst
    | start failed => exact inv_start hs hr hst
  · intro c d chatId other hc
    obtain ⟨st, hst, -⟩ := hc
    cases hst

/-- In a run that forgets no container that is there, a create is for a name that is free just if
    no container of the name is kept or being created. -/
theorem created_under_free_names {s t : Host} {e : HostEv} {chatId : String}
    (h : Reach (hosts username hashChatId) (Remembers username hashChatId) s)
    (hst : hostStep username hashChatId s e = some t) (hcreates : Creates s e chatId) :
    taken username hashChatId s.warm.boxes chatId = false ↔ Remembers username hashChatId s e := by
  obtain ⟨i, rfl, hi⟩ := hcreates
  constructor
  · intro hfree u hu c other _ hother hname hlive
    rw [hi] at hu
    obtain rfl := Option.some.inj hu
    rw [taken_iff.mpr ⟨c, other, hlive, hother, hname⟩] at hfree
    cases hfree
  · intro hr
    have hinv := inv_of_reach h
    obtain ⟨-, -, -, hup⟩ := warm_step hst
    have hup : s.up = true := by
      rcases hup with hup | ⟨c, hc⟩
      · exact hup
      · cases hc
    refine Bool.eq_false_iff.mpr fun htaken => ?_
    obtain ⟨c, other, hlive, hother, hname⟩ := taken_iff.mp htaken
    exact hr _ hi c other (hinv.known hup c hlive) hother hname hlive

/-! ## Runs -/

/-- A task whose directories are ready calls create. -/
theorem creates_next {s : Host} {i : Nat} {chatId : String} (hup : s.up = true)
    (hi : s.warm.tasks[i]? = some ⟨chatId, .preparing⟩) :
    ∃ t e, hostStep username hashChatId s e = some t ∧ Creates s e chatId := by
  have hstep : ∃ t, step s.warm (.prepared i) = some t := by
    rw [step, hi]
    exact ⟨_, rfl⟩
  obtain ⟨t, ht⟩ := hstep
  have hrefused : refused username hashChatId s.warm (.prepared i) = false := rfl
  refine ⟨{ s with warm := t }, .warm (.prepared i), ?_, i, rfl, hi⟩
  rw [hostStep, hrefused, if_neg Bool.false_ne_true, hup, Bool.true_or, if_pos rfl, ht]
  rfl

/-- The first twelve digits of the hash of the chat "a". -/
def hashOfA (_ : String) : JsString := ofString "ca978112ca1b"

def ann : JsString := ofString "ann"

/-- A task of the chat is about to create its container, under a name that is taken. -/
def blocked (s : Host) : Bool := s.up && s.warm.tasks[0]? == some ⟨"a", .preparing⟩ && taken ann hashOfA s.warm.boxes "a"

theorem create_when_blocked {s : Host} (h : blocked s = true) :
    ∃ t e, hostStep ann hashOfA s e = some t ∧ Creates s e "a" ∧ taken ann hashOfA s.warm.boxes "a" = true := by
  simp only [blocked, Bool.and_eq_true, beq_iff_eq] at h
  obtain ⟨⟨hup, hi⟩, htaken⟩ := h
  obtain ⟨t, e, hst, hcreates⟩ := creates_next hup hi
  exact ⟨t, e, hst, hcreates, htaken⟩

/-- The chat's container is created and does not start; the next task of the chat asks for its
    name. -/
theorem a_name_is_taken_for_good : ∃ s, Reach (hosts ann hashOfA) Free s ∧
    ∃ t e, hostStep ann hashOfA s e = some t ∧ Creates s e "a" ∧ taken ann hashOfA s.warm.boxes "a" = true := by
  obtain ⟨s, hs, hblocked⟩ := reach_any (M := hosts ann hashOfA) (C := Free) (P := blocked)
    [.start [], .warm (.execute "a"), .warm (.prepared 0), .warm (.created 0), .warm (.startFailed 0), .warm (.execute "a")]
    (meets_free ..) (by decide)
  exact ⟨s, hs, create_when_blocked hblocked⟩

/-- A crash while the container runs: the next process leaves it. -/
theorem a_crash_leaves_a_container : ∃ s, Reach (hosts ann hashOfA) Free s ∧
    ∃ t e, hostStep ann hashOfA s e = some t ∧ Creates s e "a" ∧ taken ann hashOfA s.warm.boxes "a" = true := by
  obtain ⟨s, hs, hblocked⟩ := reach_any (M := hosts ann hashOfA) (C := Free) (P := blocked)
    [.start [], .warm (.execute "a"), .warm (.prepared 0), .warm (.created 0), .warm (.started 0), .warm (.setUp 0 none),
      .crash, .start [], .warm (.execute "a")] (meets_free ..) (by decide)
  exact ⟨s, hs, create_when_blocked hblocked⟩

/-- An answer, the idle timeout after it, and the next task. -/
def answeredThenIdle : List HostEv :=
  [.start [], .warm (.execute "a"), .warm (.prepared 0), .warm (.created 0), .warm (.started 0), .warm (.setUp 0 none),
    .warm (.answered 0 ""), .warm (.expire 0), .warm (.stopped 0), .warm (.removed 0), .warm (.execute "a")]

theorem answeredThenIdle_remembers : Meets (hosts ann hashOfA) (Remembers ann hashOfA) (hosts ann hashOfA).init
    answeredThenIdle := by
  refine ⟨?_, trivial, ?_, trivial, trivial, trivial, trivial, trivial, trivial, ?_, trivial, trivial⟩
  · intro c hc
    obtain ⟨st, hst, -⟩ := hc
    cases hst
  · intro t _ c other _ hchat
    cases hchat
  · intro k hk _ c hc
    cases hk
    exact .inl (Option.some.inj hc).symm

/-- Behind an idle timeout the chat's container is created again, under its name. -/
theorem a_name_is_free_again : ∃ s, Reach (hosts ann hashOfA) (Remembers ann hashOfA) s ∧
    (∃ t e, hostStep ann hashOfA s e = some t ∧ Creates s e "a") ∧ taken ann hashOfA s.warm.boxes "a" = false := by
  obtain ⟨s, hs, hp⟩ := reach_any (M := hosts ann hashOfA) (C := Remembers ann hashOfA)
    (P := fun s => s.up && s.warm.tasks[0]? == some ⟨"a", .preparing⟩ && s.warm.boxes == [⟨"a", .removed, none⟩])
    answeredThenIdle answeredThenIdle_remembers (by decide)
  simp only [Bool.and_eq_true, beq_iff_eq] at hp
  obtain ⟨⟨hup, hi⟩, hboxes⟩ := hp
  obtain ⟨t, e, hst, hcreates⟩ := creates_next hup hi
  have hremembers : Remembers ann hashOfA s e := by
    obtain ⟨i, rfl, -⟩ := hcreates
    intro u _ c other _ _ _ hlive
    obtain ⟨st, hst, hne⟩ := hlive
    rw [St.status, hboxes] at hst
    obtain ⟨b, hb, rfl⟩ := Option.map_eq_some_iff.mp hst
    obtain rfl := List.mem_singleton.mp (List.mem_of_getElem? hb)
    exact hne rfl
  exact ⟨s, hs, ⟨t, e, hst, hcreates⟩, (created_under_free_names hs hst hcreates).mpr hremembers⟩

end FlowHelm.Agent.Warm
