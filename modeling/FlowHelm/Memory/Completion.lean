/-
  FlowHelm.Memory.Completion — a consolidation run in which nothing fails.

  Left alone, every statement of the run is one the schema admits, so the run comes to
  its end whatever the provider answers; and what it leaves is known.

  - `must_consolidateSession`: every message of the session is linked.
  - `must_condenseIfReady`: the chats with enough d0 summaries of one session have no
    uncondensed one left, those of the other chats are as before.
  - `must_run`: every message of the sessions selected is linked.
-/
import FlowHelm.Memory.Footprint

namespace FlowHelm.Memory

open Js Script Prog

/-- Rows and links are only added. -/
structure Extends (s t : Tables) : Prop where
  profiles : t.profiles = s.profiles
  chats : t.chats = s.chats
  sessions : t.sessions = s.sessions
  working : t.working = s.working
  semantic : ∀ r ∈ s.semantic, r ∈ t.semantic
  messageSources : ∀ e ∈ s.messageSources, e ∈ t.messageSources

namespace Extends

theorem refl (s : Tables) : Extends s s := ⟨rfl, rfl, rfl, rfl, fun _ h => h, fun _ h => h⟩

theorem trans {s t u : Tables} (h1 : Extends s t) (h2 : Extends t u) : Extends s u where
  profiles := h2.profiles.trans h1.profiles
  chats := h2.chats.trans h1.chats
  sessions := h2.sessions.trans h1.sessions
  working := h2.working.trans h1.working
  semantic r hr := h2.semantic r (h1.semantic r hr)
  messageSources e he := h2.messageSources e (h1.messageSources e he)

theorem profileIds {s t : Tables} (h : Extends s t) : t.profileIds = s.profileIds := by
  rw [Tables.profileIds, h.profiles]
  rfl

theorem sessionIds {s t : Tables} (h : Extends s t) : t.sessionIds = s.sessionIds := by
  rw [Tables.sessionIds, h.sessions]
  rfl

theorem messageKeys {s t : Tables} (h : Extends s t) : t.messageKeys = s.messageKeys := by
  rw [Tables.messageKeys, h.working]
  rfl

theorem semanticIds {s t : Tables} (h : Extends s t) {id : Nat} (hid : id ∈ s.semanticIds) : id ∈ t.semanticIds := by
  obtain ⟨r, hr, rfl⟩ := List.mem_map.mp hid
  exact List.mem_map_of_mem (h.semantic r hr)

theorem linked {s t : Tables} (h : Extends s t) {m : Working} (hm : s.linked m) : t.linked m := by
  obtain ⟨e, he, hk⟩ := List.any_eq_true.mp hm
  exact List.any_eq_true.mpr ⟨e, h.messageSources e he, hk⟩

end Extends

/-! ## Statements alone -/

variable {α : Type} {Q : α → Db → Prop} {E : Exn Op → Db → Prop}

theorem exec_some {o : Op} {s : Db} {a : Ans o} (ha : Answers o s.toTables a) (hv : (effect o s.toTables a).Valid) :
    service.exec o s a = some ⟨effect o s.toTables a, hv⟩ := by
  simp only [service, ha, if_true]
  exact Db.commit_valid hv

theorem must_read {o : Op} (ho : ∀ t a, effect o t a = t) {k : Ans o → Script α} {s : Db}
    (hk : ∀ a, Answers o s.toTables a → Must service (k a) Q E s) : Must service ((await o).bind k) Q E s := by
  refine must_perform ?_ ?_
  · have ha := answers_answer ⟨fun _ => "", 0⟩ o s.toTables
    exact ⟨_, _, exec_some ha (by rw [ho]; exact s.valid)⟩
  · intro a t hx
    obtain rfl := exec_reads ho s a t hx
    exact hk a (exec_spec hx).1

theorem must_write {o : Op} {k : Ans o → Script α} {s : Db}
    (hv : ∀ a, Answers o s.toTables a → (effect o s.toTables a).Valid)
    (hk : ∀ a (t : Db), Answers o s.toTables a → t.toTables = effect o s.toTables a → Must service (k a) Q E t) :
    Must service ((await o).bind k) Q E s := by
  refine must_perform ?_ ?_
  · have ha := answers_answer ⟨fun _ => "", 0⟩ o s.toTables
    exact ⟨_, _, exec_some ha (hv _ ha)⟩
  · intro a t hx
    exact hk a t (exec_spec hx).1 (exec_spec hx).2

theorem valid_insertSemantic (s : Db) {row : SemanticColumns} (hp : row.profileId ∈ s.profileIds)
    (hs : ∀ i ∈ row.sourceSession, i ∈ s.sessionIds) (hi : 0 ≤ row.importance ∧ row.importance ≤ 1) :
    (effect (.insertSemantic row) s.toTables s.nextId).Valid :=
  { s.valid with
    profileDrawn := fun i h => Nat.lt_succ_of_lt (s.valid.profileDrawn i h)
    sessionDrawn := fun i h => Nat.lt_succ_of_lt (s.valid.sessionDrawn i h)
    semanticKey := List.nodup_cons.mpr ⟨fun h => Nat.lt_irrefl _ (s.valid.semanticDrawn _ h), s.valid.semanticKey⟩
    semanticDrawn := List.forall_mem_cons.mpr
      ⟨Nat.lt_succ_self _, fun i h => Nat.lt_succ_of_lt (s.valid.semanticDrawn i h)⟩
    semanticProfile := List.forall_mem_cons.mpr ⟨hp, s.valid.semanticProfile⟩
    semanticSession := List.forall_mem_cons.mpr ⟨hs, s.valid.semanticSession⟩
    importance := List.forall_mem_cons.mpr ⟨hi, s.valid.importance⟩
    metaDrawn := fun i h => Nat.lt_succ_of_lt (s.valid.metaDrawn i h)
    messageSourceSummary := fun e he => .tail _ (s.valid.messageSourceSummary e he)
    parentSourceParent := fun e he => .tail _ (s.valid.parentSourceParent e he)
    parentSourceChild := fun e he => .tail _ (s.valid.parentSourceChild e he)
    metaSourceSemantic := fun e he => .tail _ (s.valid.metaSourceSemantic e he) }

theorem valid_linkMessage (s : Db) {summaryId : Nat} {key : MessageKey} (hs : summaryId ∈ s.semanticIds)
    (hk : key ∈ s.messageKeys) (hnew : (summaryId, key) ∉ s.messageSources) (rest : List MessageKey) :
    (effect (.linkMessage summaryId key rest) s.toTables ()).Valid :=
  { s.valid with
    messageSourceKey := List.nodup_cons.mpr ⟨hnew, s.valid.messageSourceKey⟩
    messageSourceSummary := List.forall_mem_cons.mpr ⟨hs, s.valid.messageSourceSummary⟩
    messageSourceMessage := List.forall_mem_cons.mpr ⟨hk, s.valid.messageSourceMessage⟩ }

theorem valid_linkSummary (s : Db) {parentId childId : Nat} (hp : parentId ∈ s.semanticIds) (hc : childId ∈ s.semanticIds)
    (hnew : (parentId, childId) ∉ s.parentSources) : (effect (.linkSummary parentId childId) s.toTables ()).Valid :=
  { s.valid with
    parentSourceKey := List.nodup_cons.mpr ⟨hnew, s.valid.parentSourceKey⟩
    parentSourceParent := List.forall_mem_cons.mpr ⟨hp, s.valid.parentSourceParent⟩
    parentSourceChild := List.forall_mem_cons.mpr ⟨hc, s.valid.parentSourceChild⟩ }

/-- A row inserted under a fresh id. -/
theorem extends_insert {row : SemanticColumns} {s t : Db} {id : Nat}
    (ht : t.toTables = effect (.insertSemantic row) s.toTables id) : Extends s.toTables t.toTables := by
  rw [ht]
  exact ⟨rfl, rfl, rfl, rfl, fun r hr => .tail _ hr, fun e he => he⟩

theorem must_getProfileIdForChat {s : Db} {chatId : String} (hc : chatId ∈ s.chatIds) {k : Nat → Script α}
    (hk : ∀ profileId ∈ s.profileIds, Must service (k profileId) Q E s) :
    Must service ((getProfileIdForChat chatId).bind k) Q E s := by
  refine wp_bind (must_read (fun _ _ => rfl) ?_)
  rintro row rfl
  obtain ⟨c, hc, hid⟩ := List.mem_map.mp hc
  cases hf : s.chats.find? (·.id == chatId) with
  | none =>
    have := List.find?_eq_none.mp hf c hc
    simp [hid] at this
  | some c' => exact hk c'.profileId (s.valid.chatProfile c' (List.mem_of_find?_eq_some hf))

/-! ## Sessions -/

/-- Rows are added, and nothing linked. -/
structure AddsRows (s t : Tables) : Prop extends Extends s t where
  sameSources : t.messageSources = s.messageSources

theorem AddsRows.refl (s : Tables) : AddsRows s s := ⟨.refl s, rfl⟩

theorem AddsRows.trans {s t u : Tables} (h1 : AddsRows s t) (h2 : AddsRows t u) : AddsRows s u :=
  ⟨h1.toExtends.trans h2.toExtends, h2.sameSources.trans h1.sameSources⟩

theorem addsRows_insert {row : SemanticColumns} {s t : Db} {id : Nat}
    (ht : t.toTables = effect (.insertSemantic row) s.toTables id) : AddsRows s.toTables t.toTables :=
  ⟨extends_insert ht, by rw [ht]; rfl⟩

theorem must_storeFact {s : Db} {sessionId profileId : Nat} (hs : sessionId ∈ s.sessionIds)
    (hp : profileId ∈ s.profileIds) (now : Nat) (fact : Json) :
    Must service (storeFact sessionId profileId now fact) (fun _ t => AddsRows s.toTables t.toTables)
      (fun _ t => AddsRows s.toTables t.toTables) s := by
  simp only [storeFact]
  split
  · exact .refl _
  split
  · refine wp_bind ?_
    unfold numberOrHalf
    split
    · exact .refl _
    refine must_read (fun _ _ => rfl) fun _ _ => ?_
    split
    · rename_i row hrow
      obtain ⟨-, himportance, -, hsession, hprofile, -, -⟩ := factColumns_spec hrow
      have hbounds := JsNumber.clamp_bounds himportance
      refine must_write ?_ ?_
      · rintro id rfl
        refine valid_insertSemantic s (hprofile ▸ hp) (by simpa [hsession] using hs) ⟨hbounds.1, ?_⟩
        exact hbounds.2.trans (max_le (by decide) le_rfl)
      · intro id t _ ht
        exact addsRows_insert ht
    · exact .refl _
  · exact .refl _

theorem must_extractFacts {s : Db} {sessionId profileId : Nat} (hs : sessionId ∈ s.sessionIds)
    (hp : profileId ∈ s.profileIds) (formatted : JsString) :
    Must service (extractFacts formatted sessionId profileId) (fun _ t => AddsRows s.toTables t.toTables) E s := by
  refine wp_attempt (wp_mono (E := fun _ (t : Db) => AddsRows s.toTables t.toTables) (fun _ _ h => h) (fun _ _ h => h) ?_)
  refine must_read (fun _ _ => rfl) fun result _ => ?_
  split
  · exact .refl _
  · refine must_read (fun _ _ => rfl) fun now _ => ?_
    refine wp_forEach (fun _ (t : Db) => AddsRows s.toTables t.toTables) ?_ (.refl _)
    intro fact _ t ht
    refine wp_mono (fun _ _ h => ht.trans h) (fun _ _ h => ht.trans h) (must_storeFact ?_ ?_ now fact)
    · rw [ht.sessionIds]; exact hs
    · rw [ht.profileIds]; exact hp
  · exact .refl _

theorem must_linkMessages {s : Db} {summaryId : Nat} {chunk : List Working} (hid : summaryId ∈ s.semanticIds)
    (hk : ∀ m ∈ chunk, m.key ∈ s.messageKeys) (hd : (chunk.map Working.key).Nodup)
    (hnew : ∀ m ∈ chunk, (summaryId, m.key) ∉ s.messageSources) :
    Must service (linkMessages summaryId chunk) (fun _ t => Extends s.toTables t.toTables ∧
      ∀ m ∈ chunk, (summaryId, m.key) ∈ t.messageSources) E s := by
  induction chunk generalizing s with
  | nil => exact ⟨.refl _, nofun⟩
  | cons msg rest ih =>
    obtain ⟨hmsg, hrest⟩ := List.nodup_cons.mp hd
    refine must_write (fun _ _ => valid_linkMessage s hid (hk msg (.head _)) (hnew msg (.head _)) _) ?_
    intro _ t _ ht
    have hsources : t.messageSources = (summaryId, msg.key) :: s.messageSources := by rw [ht]; rfl
    have hext : Extends s.toTables t.toTables := by
      rw [ht]
      exact ⟨rfl, rfl, rfl, rfl, fun _ h => h, fun e he => .tail _ he⟩
    refine wp_mono ?_ (fun _ _ h => h) (ih (hext.semanticIds hid) ?_ hrest ?_)
    · rintro _ u ⟨hu, hl⟩
      refine ⟨hext.trans hu, List.forall_mem_cons.mpr ⟨?_, hl⟩⟩
      exact hu.messageSources _ (hsources ▸ .head _)
    · intro m hm
      rw [hext.messageKeys]
      exact hk m (.tail _ hm)
    · intro m hm hmem
      rw [hsources] at hmem
      rcases List.mem_cons.mp hmem with he | he
      · exact hmsg (List.mem_map.mpr ⟨m, hm, (Prod.mk.injEq .. ▸ he).2⟩)
      · exact hnew m (.tail _ hm) he

theorem linked_of_mem {t : Tables} {id : Nat} {m : Working} (h : (id, m.key) ∈ t.messageSources) : t.linked m :=
  List.any_eq_true.mpr ⟨_, h, by simp⟩

theorem summary_importance : (0 : ℚ) ≤ 7 / 10 ∧ (7 / 10 : ℚ) ≤ 1 := by decide +kernel

theorem must_consolidateChunk (cfg : ConsolidationConfig) {s : Db} {sessionId profileId : Nat} {chunk : List Working}
    (hs : sessionId ∈ s.sessionIds) (hp : profileId ∈ s.profileIds) (hk : ∀ m ∈ chunk, m.key ∈ s.messageKeys)
    (hd : (chunk.map Working.key).Nodup) :
    Must service (consolidateChunk cfg sessionId profileId chunk) (fun _ t => Extends s.toTables t.toTables ∧
      ∀ m ∈ chunk, t.linked m) E s := by
  refine must_read (fun _ _ => rfl) fun summary _ => ?_
  refine must_read (fun _ _ => rfl) fun _ _ => ?_
  refine must_read (fun _ _ => rfl) fun now _ => ?_
  refine must_write ?_ ?_
  · rintro id rfl
    exact valid_insertSemantic s hp (by simpa using hs) summary_importance
  rintro summaryId t rfl ht
  have hext := extends_insert ht
  have hid : s.nextId ∈ t.semanticIds := by
    rw [ht]
    exact .head _
  refine wp_bind (wp_mono ?_ (fun _ _ h => h) (must_linkMessages hid ?_ hd ?_))
  · rintro _ u ⟨hu, hl⟩
    have hall := hext.trans hu
    refine wp_mono ?_ (fun _ _ h => h) (must_extractFacts ?_ ?_ _)
    · intro _ v hv
      exact ⟨hall.trans hv.toExtends, fun m hm => hv.linked (linked_of_mem (hl m hm))⟩
    · rw [hall.sessionIds]; exact hs
    · rw [hall.profileIds]; exact hp
  · intro m hm
    rw [hext.messageKeys]
    exact hk m hm
  · intro m _ hmem
    rw [ht] at hmem
    exact Nat.lt_irrefl _ (s.valid.semanticDrawn _ (s.valid.messageSourceSummary _ hmem))

theorem must_consolidateSession (cfg : ConsolidationConfig) {s : Db} {session : Session} (hs : session ∈ s.sessions) :
    Must service (consolidateSession cfg session.id session.chatId) (fun _ t => Extends s.toTables t.toTables ∧
      ∀ m ∈ s.working, m.sessionId = some session.id → t.linked m) E s := by
  refine must_read (fun _ _ => rfl) fun messages ha => ?_
  have hperm := ha.1
  have hmem : ∀ m, m ∈ messages ↔ m ∈ s.unlinked session.id := fun m => hperm.mem_iff
  have hdone : ∀ t : Tables, Extends s.toTables t → (∀ m ∈ messages, t.linked m) →
      ∀ m ∈ s.working, m.sessionId = some session.id → t.linked m := by
    intro t ht hl m hm hsession
    cases h : s.linked m with
    | true => exact ht.linked h
    | false =>
      refine hl m ((hmem m).mpr (List.mem_filter.mpr ⟨hm, ?_⟩))
      simp [hsession, h]
  split
  · rename_i hlen
    refine ⟨.refl _, hdone _ (.refl _) ?_⟩
    rw [List.length_eq_zero_iff.mp hlen]
    exact nofun
  refine must_getProfileIdForChat (s.valid.sessionChat session hs) fun profileId hp => ?_
  have hworking : ∀ m ∈ messages, m ∈ s.working := fun m hm => (List.mem_filter.mp ((hmem m).mp hm)).1
  have hnodup : (messages.map Working.key).Nodup := by
    refine (hperm.map Working.key).nodup_iff.mpr ?_
    exact s.valid.workingKey.sublist (List.filter_sublist.map Working.key)
  have hflat := chunkArray_flatten messages cfg.chunk_pos
  refine wp_mono ?_ (fun _ _ h => h) (wp_forEach (fun rest (t : Db) => Extends s.toTables t.toTables ∧
    (∀ m ∈ messages, m ∈ rest.flatten ∨ t.linked m) ∧ rest.flatten.Sublist messages) ?_
    ⟨.refl _, fun m hm => Or.inl (by rw [hflat]; exact hm), by rw [hflat]⟩)
  · rintro _ t ⟨ht, hl, _⟩
    exact ⟨ht, hdone _ ht fun m hm => (hl m hm).resolve_left (by simp)⟩
  · rintro chunk rest t ⟨ht, hl, hsub⟩
    rw [List.flatten_cons] at hsub
    have hchunk : chunk.Sublist messages := (List.sublist_append_left _ _).trans hsub
    refine wp_mono ?_ (fun _ _ h => h) (must_consolidateChunk cfg ?_ ?_ ?_ (hnodup.sublist (hchunk.map _)))
    · rintro _ u ⟨hu, hlu⟩
      refine ⟨ht.trans hu, ?_, (List.sublist_append_right _ _).trans hsub⟩
      intro m hm
      rcases hl m hm with h | h
      · rw [List.flatten_cons, List.mem_append] at h
        exact h.symm.imp_right (hlu m)
      · exact Or.inr (hu.linked h)
    · rw [ht.sessionIds]
      exact List.mem_map_of_mem hs
    · rw [ht.profileIds]
      exact hp
    · intro m hm
      rw [ht.messageKeys]
      exact List.mem_map_of_mem (hworking m (hchunk.subset hm))

/-! ## Condensation -/

theorem uncondensedIn_chat {s : Db} {session : Session} (hs : session ∈ s.sessions) :
    ∀ r ∈ s.uncondensedIn session.id, r ∈ s.uncondensedOf session.chatId := by
  intro r hr
  obtain ⟨hr, hp⟩ := List.mem_filter.mp hr
  simp only [Bool.and_eq_true, beq_iff_eq] at hp
  refine List.mem_filter.mpr ⟨hr, ?_⟩
  simp only [Bool.and_eq_true, List.any_eq_true, beq_iff_eq]
  exact ⟨hp.1, session, hs, hp.2, rfl⟩

/-- A summary of one chat's sessions is of no other's. -/
theorem uncondensedOf_chat {s : Db} {r : Semantic} {c d : String} (hc : r ∈ s.uncondensedOf c) (hd : r ∈ s.uncondensedOf d) :
    c = d := by
  have hc := (List.mem_filter.mp hc).2
  have hd := (List.mem_filter.mp hd).2
  simp only [Bool.and_eq_true, List.any_eq_true, beq_iff_eq] at hc hd
  obtain ⟨_, x, hx, hxs, rfl⟩ := hc
  obtain ⟨_, y, hy, hys, rfl⟩ := hd
  have hid : x.id = y.id := by
    rw [hxs] at hys
    exact Option.some.inj hys
  rw [List.inj_on_of_nodup_map s.valid.sessionKey hx hy hid]

/-- Linked children leave the uncondensed summaries, and nothing else does. -/
theorem uncondensedOf_link {s t : Tables} {parentId childId : Nat} (ht : t = effect (.linkSummary parentId childId) s ())
    (chatId : String) : t.uncondensedOf chatId = (s.uncondensedOf chatId).filter (·.id != childId) := by
  subst ht
  simp only [Tables.uncondensedOf, List.filter_filter]
  refine List.filter_congr ?_
  intro r _
  simp only [Tables.isUncondensed, effect, List.any_cons, Bool.not_or, bne]
  rw [BEq.comm (a := childId)]
  cases (r.id == childId) <;> simp

theorem uncondensedOf_insert {s t : Tables} {row : SemanticColumns} {id : Nat} (hd : row.depth = 1)
    (ht : t = effect (.insertSemantic row) s id) (chatId : String) : t.uncondensedOf chatId = s.uncondensedOf chatId := by
  subst ht
  simp only [Tables.uncondensedOf, effect]
  rw [List.filter_cons_of_neg]
  · rfl
  · simp [Tables.isUncondensed, hd]

theorem must_linkSummaries {s : Db} {parentId : Nat} {children : List Semantic} (hp : parentId ∈ s.semanticIds)
    (hc : ∀ c ∈ children, c.id ∈ s.semanticIds) (hd : (children.map (·.id)).Nodup)
    (hnew : ∀ c ∈ children, (parentId, c.id) ∉ s.parentSources) :
    Must service (forEach children fun child => await (.linkSummary parentId child.id)) (fun _ t =>
      Extends s.toTables t.toTables ∧ ∀ chatId, t.uncondensedOf chatId =
        (s.uncondensedOf chatId).filter fun r => r.id ∉ children.map (·.id)) E s := by
  induction children generalizing s with
  | nil => exact ⟨.refl _, fun chatId => by simp⟩
  | cons child rest ih =>
    obtain ⟨hchild, hrest⟩ := List.nodup_cons.mp hd
    refine must_write (fun _ _ => valid_linkSummary s hp (hc child (.head _)) (hnew child (.head _))) ?_
    intro _ t _ ht
    have hlinks : t.parentSources = (parentId, child.id) :: s.parentSources := by rw [ht]; rfl
    have hext : Extends s.toTables t.toTables := by
      rw [ht]
      exact ⟨rfl, rfl, rfl, rfl, fun _ h => h, fun _ h => h⟩
    refine wp_mono ?_ (fun _ _ h => h) (ih (hext.semanticIds hp) ?_ hrest ?_)
    · rintro _ u ⟨hu, hl⟩
      refine ⟨hext.trans hu, fun chatId => ?_⟩
      rw [hl, uncondensedOf_link ht, List.filter_filter]
      refine List.filter_congr fun r _ => ?_
      simp only [List.map_cons, List.mem_cons, not_or, Bool.decide_and, decide_not]
      rw [Bool.and_comm]
      rfl
    · exact fun c h => hext.semanticIds (hc c (.tail _ h))
    · intro c h hmem
      rw [hlinks] at hmem
      rcases List.mem_cons.mp hmem with he | he
      · exact hchild (List.mem_map.mpr ⟨c, h, (Prod.mk.injEq .. ▸ he).2⟩)
      · exact hnew c (.tail _ h) he

/-- What `condenseSummaries` leaves uncondensed: nothing of its chat if there was enough. -/
theorem must_condenseSummaries (cfg : ConsolidationConfig) {s : Db} {chatId : String} (hc : chatId ∈ s.chatIds) :
    Must service (condenseSummaries cfg chatId) (fun _ t => Extends s.toTables t.toTables ∧
      ∀ c, t.uncondensedOf c =
        if c = chatId ∧ cfg.consolidationThreshold ≤ (s.uncondensedOf chatId).length then [] else s.uncondensedOf c) E s := by
  refine must_getProfileIdForChat hc fun profileId hp => ?_
  refine must_read (fun _ _ => rfl) fun d0Summaries ha => ?_
  have hperm := ha.1
  have hmem : ∀ r, r ∈ d0Summaries ↔ r ∈ s.uncondensedOf chatId := fun r => hperm.mem_iff
  split
  · rename_i hlen
    rw [hperm.length_eq] at hlen
    refine ⟨.refl _, fun c => (if_neg ?_).symm⟩
    omega
  rename_i hlen
  rw [hperm.length_eq] at hlen
  refine must_read (fun _ _ => rfl) fun condensed _ => ?_
  refine must_read (fun _ _ => rfl) fun _ _ => ?_
  refine must_read (fun _ _ => rfl) fun now _ => ?_
  refine must_write ?_ ?_
  · rintro id rfl
    exact valid_insertSemantic s hp nofun summary_importance
  rintro parentId t rfl ht
  have hext := extends_insert ht
  have hrow : ∀ r ∈ d0Summaries, r ∈ s.semantic := fun r hr => (List.mem_filter.mp ((hmem r).mp hr)).1
  refine wp_mono ?_ (fun _ _ h => h) (must_linkSummaries ?_ ?_ ?_ ?_)
  · rintro _ u ⟨hu, hl⟩
    refine ⟨hext.trans hu, fun c => ?_⟩
    rw [hl, uncondensedOf_insert rfl ht]
    by_cases hcc : c = chatId
    · subst hcc
      rw [if_pos ⟨rfl, by omega⟩, List.filter_eq_nil_iff]
      intro r hr
      simp only [List.mem_map, decide_not, Bool.not_eq_true', decide_eq_false_iff_not, not_not]
      exact ⟨r, (hmem r).mpr hr, rfl⟩
    · rw [if_neg (fun h => hcc h.1), List.filter_eq_self]
      intro r hr
      simp only [List.mem_map, decide_not, Bool.not_eq_true', decide_eq_false_iff_not]
      rintro ⟨q, hq, hid⟩
      have hrq := s.semantic_unique (hrow q hq) (List.mem_filter.mp hr).1 hid
      exact hcc (uncondensedOf_chat hr (hrq ▸ (hmem q).mp hq))
  · rw [ht]
    exact .head _
  · exact fun c hc => hext.semanticIds (List.mem_map_of_mem (hrow c hc))
  · exact (hperm.map _).nodup_iff.mpr (s.valid.semanticKey.sublist (List.filter_sublist.map _))
  · intro c _ hmem
    rw [ht] at hmem
    exact Nat.lt_irrefl _ (s.valid.semanticDrawn _ (s.valid.parentSourceParent _ hmem))

/-- A session with enough uncondensed d0 summaries of its own. -/
def Tables.ready (t : Tables) (threshold : Nat) (chatId : String) : Prop :=
  ∃ session ∈ t.sessions, session.chatId = chatId ∧ threshold ≤ (t.uncondensedIn session.id).length

theorem ready_length {s : Db} {threshold : Nat} {chatId : String} (h : s.ready threshold chatId) :
    threshold ≤ (s.uncondensedOf chatId).length := by
  obtain ⟨session, hs, rfl, hle⟩ := h
  refine hle.trans ?_
  have hsub : (s.uncondensedIn session.id).Subperm (s.uncondensedOf session.chatId) := by
    refine List.subperm_of_subset ?_ (uncondensedIn_chat hs)
    exact (s.valid.semanticKey.of_map _).sublist List.filter_sublist
  exact hsub.length_le

theorem must_condenseIfReady (cfg : ConsolidationConfig) (s : Db) :
    Must service (condenseIfReady cfg) (fun _ t => Extends s.toTables t.toTables ∧
      ∀ c, (s.ready cfg.consolidationThreshold c → t.uncondensedOf c = []) ∧
        (¬s.ready cfg.consolidationThreshold c → t.uncondensedOf c = s.uncondensedOf c)) E s := by
  refine must_read (fun _ _ => rfl) fun candidates ha => ?_
  have hmem : ∀ x, x ∈ candidates ↔ x ∈ s.sessions ∧ cfg.consolidationThreshold ≤ (s.uncondensedIn x.id).length := by
    intro x
    rw [ha.1.mem_iff]
    simp [Tables.candidates]
  have hready : ∀ c, s.ready cfg.consolidationThreshold c ↔ ∃ x ∈ candidates, x.chatId = c := by
    intro c
    constructor
    · rintro ⟨x, hx, hc, hle⟩
      exact ⟨x, (hmem x).mpr ⟨hx, hle⟩, hc⟩
    · rintro ⟨x, hx, hc⟩
      exact ⟨x, ((hmem x).mp hx).1, hc, ((hmem x).mp hx).2⟩
  -- a ready chat is either as it was, with a candidate still to come, or has nothing left
  refine wp_mono ?_ (fun _ _ h => h) (wp_forEach (fun rest (t : Db) => Extends s.toTables t.toTables ∧
    rest.Sublist candidates ∧ ∀ c, (t.uncondensedOf c = [] ∧ s.ready cfg.consolidationThreshold c) ∨
      (t.uncondensedOf c = s.uncondensedOf c ∧ ∀ x ∈ candidates, x.chatId = c → x ∈ rest)) ?_
    ⟨.refl _, .refl _, fun c => Or.inr ⟨rfl, fun x hx _ => hx⟩⟩)
  · rintro _ t ⟨ht, _, hl⟩
    refine ⟨ht, fun c => ⟨fun hr => ?_, fun hr => ?_⟩⟩
    · rcases hl c with h | h
      · exact h.1
      · obtain ⟨x, hx, hc⟩ := (hready c).mp hr
        cases h.2 x hx hc
    · rcases hl c with h | h
      · exact (hr h.2).elim
      · exact h.1
  · rintro x rest t ⟨ht, hsub, hl⟩
    have hx := (hmem x).mp (hsub.subset (.head _))
    have hr : s.ready cfg.consolidationThreshold x.chatId := ⟨x, hx.1, rfl, hx.2⟩
    have hchat : x.chatId ∈ t.chatIds := by
      rw [Tables.chatIds, ht.chats]
      exact s.valid.sessionChat x hx.1
    refine wp_mono ?_ (fun _ _ h => h) (must_condenseSummaries cfg hchat)
    rintro _ u ⟨hu, hcond⟩
    refine ⟨ht.trans hu, (List.sublist_cons_self x rest).trans hsub, fun c => ?_⟩
    rw [hcond c]
    by_cases hc : c = x.chatId
    · subst hc
      refine Or.inl ⟨?_, hr⟩
      rcases hl x.chatId with h | h
      · rw [h.1, ite_self]
      · rw [if_pos ⟨rfl, by rw [h.1]; exact ready_length hr⟩]
    · rw [if_neg (fun h => hc h.1)]
      refine (hl c).imp_right fun h => ⟨h.1, fun y hy hyc => ?_⟩
      exact (List.mem_cons.mp (h.2 y hy hyc)).resolve_left (fun hyx => hc (hyx ▸ hyc.symm))

/-! ## The run -/

/-- The sessions a run takes up. -/
def selectedSessions (cfg : ConsolidationConfig) (t : Tables) : List Session :=
  if t.unconsolidated.length < cfg.minUnconsolidatedMessages then [] else t.toConsolidate

/-- All of `run` before the condensation. -/
theorem must_sessions (cfg : ConsolidationConfig) {s : Db} {sessions : List Session} (hs : ∀ x ∈ sessions, x ∈ s.sessions) :
    Must service (forEach sessions fun session => consolidateSession cfg session.id session.chatId) (fun _ t =>
      Extends s.toTables t.toTables ∧ ∀ x ∈ sessions, ∀ m ∈ s.working, m.sessionId = some x.id → t.linked m) E s := by
  refine wp_mono ?_ (fun _ _ h => h) (wp_forEach (fun rest (t : Db) => Extends s.toTables t.toTables ∧
    (∀ x ∈ rest, x ∈ sessions) ∧ ∀ x ∈ sessions, x ∈ rest ∨ ∀ m ∈ s.working, m.sessionId = some x.id → t.linked m) ?_
    ⟨.refl _, fun _ h => h, fun _ h => Or.inl h⟩)
  · rintro _ t ⟨ht, _, hl⟩
    exact ⟨ht, fun x hx => (hl x hx).resolve_left (by simp)⟩
  · rintro x rest t ⟨ht, hsub, hl⟩
    have hx : x ∈ t.sessions := by
      rw [ht.sessions]
      exact hs x (hsub x (.head _))
    refine wp_mono ?_ (fun _ _ h => h) (must_consolidateSession cfg hx)
    rintro _ u ⟨hu, hdone⟩
    refine ⟨ht.trans hu, fun y hy => hsub y (.tail _ hy), fun y hy => ?_⟩
    rcases hl y hy with h | h
    · rcases List.mem_cons.mp h with rfl | h
      · exact Or.inr fun m hm => hdone m (ht.working ▸ hm)
      · exact Or.inl h
    · exact Or.inr fun m hm hsession => hu.linked (h m hm hsession)

theorem must_run (cfg : ConsolidationConfig) (s : Db) :
    Must service (Consolidation.run cfg) (fun _ t => Extends s.toTables t.toTables ∧
      ∀ x ∈ selectedSessions cfg s.toTables, ∀ m ∈ s.working, m.sessionId = some x.id → t.linked m) (fun _ _ => False) s := by
  refine must_read (fun _ _ => rfl) ?_
  rintro _ rfl
  split
  · rename_i hlt
    refine ⟨.refl _, ?_⟩
    rw [selectedSessions, if_pos hlt]
    exact nofun
  rename_i hlt
  refine must_read (fun _ _ => rfl) fun sessions ha => ?_
  have hmem : ∀ x, x ∈ sessions ↔ x ∈ s.toConsolidate := fun x => ha.1.mem_iff
  have hsessions : ∀ x ∈ sessions, x ∈ s.sessions := fun x hx => (List.mem_filter.mp ((hmem x).mp hx)).1
  refine wp_bind (wp_mono ?_ (fun _ _ h => h) (must_sessions cfg hsessions))
  rintro _ t ⟨ht, hl⟩
  refine must_read (fun _ _ => rfl) fun now _ => ?_
  refine must_write (fun _ _ => { t.valid with }) ?_
  intro _ u _ hu
  have hext : Extends t.toTables u.toTables := by
    rw [hu]
    exact ⟨rfl, rfl, rfl, rfl, fun _ h => h, fun _ h => h⟩
  refine wp_bind (wp_mono ?_ (fun _ _ h => h) (must_condenseIfReady cfg u))
  rintro _ v ⟨hv, _⟩
  have htv := hext.trans hv
  refine ⟨ht.trans htv, ?_⟩
  rw [selectedSessions, if_neg hlt]
  exact fun x hx m hm hsession => htv.linked (hl x ((hmem x).mpr hx) m hm hsession)

end FlowHelm.Memory
