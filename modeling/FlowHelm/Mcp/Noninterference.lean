/-
  FlowHelm.Mcp.Noninterference — a call that reads only rows of the server's profile tells
  nothing about the others.

  `Agree p s t`: the states have the same rows of profile `p`, the messages of its chats
  among them. A row of a join table belongs to the profiles of its two ends. `Confined`
  is what a call may come to in `s`: a search always, an expansion or a trace when the
  entry it names and all it comes to from there are the profile's.

  - `same_of_confined`: a confined call gives the same in every state that agrees on `p`.
-/
import Mathlib.Data.List.Nodup
import FlowHelm.Mcp.Tools

namespace FlowHelm.Mcp

open Memory (Profile Chat MessageKey SemanticMemoryType MetaMemoryType Ordered)
open Profiles (Embedding SemanticRow MetaRow ExternalRow ExternalMemorySource Message Tables Db AgentIdentity AgentPersonality)
open Js (Json JsString)
open Script Prog

/-! ## Rows of a profile -/

def OwnChat (profileId : Nat) (t : Tables) (chatId : String) : Prop :=
  ∃ c ∈ t.chats, c.id = chatId ∧ c.profileId = profileId

def OwnSemantic (profileId : Nat) (t : Tables) (id : Nat) : Prop :=
  ∃ r ∈ t.semantics, r.id = id ∧ r.profileId = profileId

def OwnMeta (profileId : Nat) (t : Tables) (id : Nat) : Prop := ∃ m ∈ t.metas, m.id = id ∧ m.profileId = profileId

structure Agree (profileId : Nat) (s t : Tables) : Prop where
  profiles : ∀ r : Profile, r.id = profileId → (r ∈ s.profiles ↔ r ∈ t.profiles)
  chats : ∀ c : Chat, c.profileId = profileId → (c ∈ s.chats ↔ c ∈ t.chats)
  messages : ∀ m : Message, OwnChat profileId s m.chatId → (m ∈ s.messages ↔ m ∈ t.messages)
  identities : ∀ r : AgentIdentity, r.profileId = profileId → (r ∈ s.identities ↔ r ∈ t.identities)
  personalities : ∀ r : AgentPersonality, r.profileId = profileId → (r ∈ s.personalities ↔ r ∈ t.personalities)
  semantics : ∀ r : SemanticRow, r.profileId = profileId → (r ∈ s.semantics ↔ r ∈ t.semantics)
  metas : ∀ m : MetaRow, m.profileId = profileId → (m ∈ s.metas ↔ m ∈ t.metas)
  externals : ∀ r : ExternalRow, r.profileId = profileId → (r ∈ s.externals ↔ r ∈ t.externals)
  messageSources : ∀ e : Nat × MessageKey, OwnSemantic profileId s e.1 → (e ∈ s.messageSources ↔ e ∈ t.messageSources)
  parentSources : ∀ e : Nat × Nat, OwnSemantic profileId s e.1 ∨ OwnSemantic profileId s e.2 →
    (e ∈ s.parentSources ↔ e ∈ t.parentSources)
  metaSources : ∀ e : Nat × Nat, OwnMeta profileId s e.1 ∨ OwnSemantic profileId s e.2 →
    (e ∈ s.metaSources ↔ e ∈ t.metaSources)
  metaParents : ∀ e : Nat × Nat, OwnMeta profileId s e.1 ∨ OwnMeta profileId s e.2 →
    (e ∈ s.metaParents ↔ e ∈ t.metaParents)

/-- The call can give the same in both states. -/
def Same (e : Engine) (profileId : Nat) (tool : Tool) (args : Json) (s t : Tables) : Prop :=
  ∀ r, Gives e profileId tool args s r ↔ Gives e profileId tool args t r

/-! ## What a call may read -/

/-- An entry above depth 0 of the profile, and a child that is the profile's. -/
def OwnChild (profileId : Nat) (t : Tables) (child parent : Nat) : Prop :=
  OwnMeta profileId t child ∧ (parent, child) ∈ t.metaParents ∧
    ∃ m ∈ t.metas, m.id = parent ∧ m.profileId = profileId ∧ m.depth ≠ 0

/-- A trace from an entry of the profile comes to an entry or a source of another. -/
inductive Leaks (profileId : Nat) (t : Tables) : Nat → Prop
  | source {m : MetaRow} {r : SemanticRow} : m ∈ t.metas → m.profileId = profileId → m.depth = 0 →
      r ∈ sourcesOf t m.id → r.profileId ≠ profileId → Leaks profileId t m.id
  | child {m c : MetaRow} : m ∈ t.metas → m.profileId = profileId → m.depth ≠ 0 → c ∈ childMetasOf t m.id →
      c.profileId ≠ profileId → Leaks profileId t m.id
  | deeper {m c : MetaRow} : m ∈ t.metas → m.profileId = profileId → m.depth ≠ 0 → c ∈ childMetasOf t m.id →
      c.profileId = profileId → Leaks profileId t c.id → Leaks profileId t m.id

/-- The summary and what it expands to are the profile's; or a message that is the profile's
    has no date, so that the call throws whatever the others are. -/
def SummaryConfined (profileId : Nat) (t : Tables) (summaryId : Nat) : Prop :=
  ∃ r ∈ t.semantics, r.id = summaryId ∧ r.profileId = profileId ∧ (r.memoryType = .summary →
    (r.depth = 0 → (∀ m ∈ messagesOf t summaryId, OwnChat profileId t m.chatId) ∨
      ∃ m ∈ messagesOf t summaryId, OwnChat profileId t m.chatId ∧ maxDate < m.timestamp) ∧
    (r.depth ≠ 0 → ∀ c ∈ childrenOf t summaryId, c.profileId = profileId))

def MetaConfined (profileId : Nat) (t : Tables) (metaId : Nat) : Prop :=
  ∃ m ∈ t.metas, m.id = metaId ∧ m.profileId = profileId ∧
    (m.depth = 0 → ∀ r ∈ sourcesOf t metaId, r.profileId = profileId) ∧
    (m.depth ≠ 0 → ∀ c ∈ childMetasOf t metaId, c.profileId = profileId)

/-- A trace that would end within the profile's own entries does not leave them. -/
def TraceConfined (profileId : Nat) (t : Tables) (metaId : Nat) : Prop :=
  OwnMeta profileId t metaId ∧ (Acc (OwnChild profileId t) metaId → ¬Leaks profileId t metaId)

/-- The argument is a UUID. -/
def Named (e : Engine) (args : Json) (name : String) (id : Nat) : Prop :=
  ∃ v, required args name = .ok v ∧ e.uuid v = .ok id

def Confined (e : Engine) (profileId : Nat) (t : Tables) (args : Json) : Tool → Prop
  | .searchSemantic => True
  | .searchExternal => True
  | .searchMeta => True
  | .expandMemory => ∀ id, Named e args "memory_id" id → SummaryConfined profileId t id
  | .expandMeta => ∀ id, Named e args "meta_id" id → MetaConfined profileId t id
  | .traceToSource => ∀ id, Named e args "meta_id" id → TraceConfined profileId t id

/-! ## Queries on states that agree -/

theorem ordered_perm {α : Type} {le : α → α → Bool} {rows rows' a : List α} (h : rows.Perm rows') :
    Ordered le rows a ↔ Ordered le rows' a :=
  and_congr_left' ⟨fun ha => ha.trans h, fun ha => ha.trans h.symm⟩

theorem top_perm {α : Type} {le : α → α → Bool} {n : Nat} {rows rows' a : List α} (h : rows.Perm rows') :
    Top le n rows a ↔ Top le n rows' a :=
  exists_congr fun _ => and_congr_left' (ordered_perm h)

theorem filter_perm {α : Type} {rows rows' : List α} {f f' : α → Bool} (hs : rows.Nodup) (ht : rows'.Nodup)
    (h : ∀ r, (r ∈ rows ∧ f r = true) ↔ (r ∈ rows' ∧ f' r = true)) : (rows.filter f).Perm (rows'.filter f') := by
  refine (List.perm_ext_iff_of_nodup (hs.filter _) (ht.filter _)).mpr fun r => ?_
  rw [List.mem_filter, List.mem_filter]
  exact h r

section Agree

variable {profileId : Nat} {s t : Db}

theorem semantics_nodup (s : Db) : s.semantics.Nodup := List.Nodup.of_map _ s.valid.semanticKey

theorem metas_nodup (s : Db) : s.metas.Nodup := List.Nodup.of_map _ s.valid.metaKey

theorem externals_nodup (s : Db) : s.externals.Nodup := List.Nodup.of_map _ s.valid.externalKey

theorem messages_nodup (s : Db) : s.messages.Nodup := List.Nodup.of_map _ s.valid.messageKey

theorem Agree.ownSemantic {s t : Tables} (h : Agree profileId s t) (id : Nat) :
    OwnSemantic profileId s id ↔ OwnSemantic profileId t id := by
  constructor
  · intro hs
    obtain ⟨r, hr, hid, hp⟩ := hs
    exact ⟨r, (h.semantics r hp).mp hr, hid, hp⟩
  · intro ht
    obtain ⟨r, hr, hid, hp⟩ := ht
    exact ⟨r, (h.semantics r hp).mpr hr, hid, hp⟩

theorem Agree.ownMeta {s t : Tables} (h : Agree profileId s t) (id : Nat) :
    OwnMeta profileId s id ↔ OwnMeta profileId t id := by
  constructor
  · intro hs
    obtain ⟨m, hm, hid, hp⟩ := hs
    exact ⟨m, (h.metas m hp).mp hm, hid, hp⟩
  · intro ht
    obtain ⟨m, hm, hid, hp⟩ := ht
    exact ⟨m, (h.metas m hp).mpr hm, hid, hp⟩

/-- A row of the profile is the one row with its id in both states. -/
theorem Agree.semantic_own (h : Agree profileId s.toTables t.toTables) {r q : SemanticRow} (hr : r ∈ s.semantics)
    (hp : r.profileId = profileId) (hq : q ∈ t.semantics) (hid : q.id = r.id) : q = r :=
  t.semantic_unique hq ((h.semantics r hp).mp hr) hid

theorem Agree.meta_own (h : Agree profileId s.toTables t.toTables) {m n : MetaRow} (hm : m ∈ s.metas)
    (hp : m.profileId = profileId) (hn : n ∈ t.metas) (hid : n.id = m.id) : n = m :=
  t.meta_unique hn ((h.metas m hp).mp hm) hid

variable {e : Engine}

theorem semanticCandidates_same (h : Agree profileId s.toTables t.toTables) (vector : Embedding)
    (type : Option SemanticMemoryType) (limit : Nat) (a : List SemanticRow) :
    Answers e (.semanticCandidates profileId vector type limit) s.toTables a ↔
      Answers e (.semanticCandidates profileId vector type limit) t.toTables a := by
  refine top_perm (filter_perm (semantics_nodup s) (semantics_nodup t) fun r => ?_)
  refine and_congr_left fun hr => ?_
  simp only [Bool.and_eq_true, beq_iff_eq] at hr
  exact h.semantics r hr.1

theorem externalCandidates_same (h : Agree profileId s.toTables t.toTables) (vector : Embedding)
    (source : Option ExternalMemorySource) (limit : Nat) (a : List ExternalRow) :
    Answers e (.externalCandidates profileId vector source limit) s.toTables a ↔
      Answers e (.externalCandidates profileId vector source limit) t.toTables a := by
  refine top_perm (filter_perm (externals_nodup s) (externals_nodup t) fun r => ?_)
  refine and_congr_left fun hr => ?_
  simp only [Bool.and_eq_true, beq_iff_eq] at hr
  exact h.externals r hr.1

theorem metaCandidates_same (h : Agree profileId s.toTables t.toTables) (vector : Embedding)
    (type : Option MetaMemoryType) (minDepth maxDepth : ℤ) (limit : Nat) (a : List MetaRow) :
    Answers e (.metaCandidates profileId vector type minDepth maxDepth limit) s.toTables a ↔
      Answers e (.metaCandidates profileId vector type minDepth maxDepth limit) t.toTables a := by
  refine top_perm (filter_perm (metas_nodup s) (metas_nodup t) fun m => ?_)
  refine and_congr_left fun hm => ?_
  simp only [Bool.and_eq_true, beq_iff_eq] at hm
  exact h.metas m hm.1.1.1.1

/-- The row with an id, found by it. -/
theorem find_semantic {s : Db} {r : SemanticRow} (hr : r ∈ s.semantics) {sel : SemanticRow → Bool} :
    s.semantics.find? (fun q => q.id == r.id && sel q) = if sel r then some r else none := by
  cases hf : s.semantics.find? fun q => q.id == r.id && sel q with
  | none =>
    have hnone := List.find?_eq_none.mp hf r hr
    split
    · rename_i hsel
      simp [hsel] at hnone
    · rfl
  | some q =>
    have hq := List.find?_some hf
    simp only [Bool.and_eq_true, beq_iff_eq] at hq
    obtain rfl : q = r := s.semantic_unique (List.mem_of_find?_eq_some hf) hr hq.1
    rw [if_pos hq.2]

theorem find_meta {s : Db} {m : MetaRow} (hm : m ∈ s.metas) : s.metas.find? (·.id == m.id) = some m := by
  cases hf : s.metas.find? (·.id == m.id) with
  | none =>
    have hnone := List.find?_eq_none.mp hf m hm
    simp at hnone
  | some n => rw [s.meta_unique (List.mem_of_find?_eq_some hf) hm (by simpa using List.find?_some hf)]

theorem mem_messagesOf {t : Tables} {id : Nat} {m : Message} :
    m ∈ messagesOf t id ↔ m ∈ t.messages ∧ (id, m.key) ∈ t.messageSources := by
  simp [messagesOf]

theorem mem_childrenOf {t : Tables} {id : Nat} {r : SemanticRow} :
    r ∈ childrenOf t id ↔ r ∈ t.semantics ∧ (id, r.id) ∈ t.parentSources := by
  simp [childrenOf]

theorem mem_sourcesOf {t : Tables} {id : Nat} {r : SemanticRow} :
    r ∈ sourcesOf t id ↔ r ∈ t.semantics ∧ (id, r.id) ∈ t.metaSources := by
  simp [sourcesOf]

theorem mem_childMetasOf {t : Tables} {id : Nat} {m : MetaRow} :
    m ∈ childMetasOf t id ↔ m ∈ t.metas ∧ (id, m.id) ∈ t.metaParents := by
  simp [childMetasOf]

/-- The messages of a summary of the profile, all of them the profile's in `s`. -/
theorem messagesOf_perm (h : Agree profileId s.toTables t.toTables) {r : SemanticRow} (hr : r ∈ s.semantics)
    (hp : r.profileId = profileId) (hall : ∀ m ∈ messagesOf s.toTables r.id, OwnChat profileId s.toTables m.chatId) :
    (messagesOf s.toTables r.id).Perm (messagesOf t.toTables r.id) := by
  have hedge : ∀ key, (r.id, key) ∈ s.messageSources ↔ (r.id, key) ∈ t.messageSources := fun key =>
    h.messageSources (r.id, key) ⟨r, hr, rfl, hp⟩
  refine filter_perm (messages_nodup s) (messages_nodup t) fun m => ?_
  simp only [decide_eq_true_eq]
  constructor
  · intro hm
    have hown := hall m (mem_messagesOf.mpr hm)
    exact ⟨(h.messages m hown).mp hm.1, (hedge m.key).mp hm.2⟩
  · intro hm
    have hlinked := (hedge m.key).mpr hm.2
    -- the linked message of `s` is the profile's, so it is `m`
    obtain ⟨n, hn, hkey⟩ := List.mem_map.mp (s.valid.messageSourceMessage _ hlinked)
    have hlinked' : (r.id, n.key) ∈ s.messageSources := by
      rw [hkey]
      exact hlinked
    have hown := hall n (mem_messagesOf.mpr ⟨hn, hlinked'⟩)
    have hsame : n = m := List.inj_on_of_nodup_map t.valid.messageKey ((h.messages n hown).mp hn) hm.1 hkey
    rw [← hsame]
    exact ⟨hn, hlinked'⟩

theorem childrenOf_perm (h : Agree profileId s.toTables t.toTables) {r : SemanticRow} (hr : r ∈ s.semantics)
    (hp : r.profileId = profileId) (hall : ∀ c ∈ childrenOf s.toTables r.id, c.profileId = profileId) :
    (childrenOf s.toTables r.id).Perm (childrenOf t.toTables r.id) := by
  have hedge : ∀ i, (r.id, i) ∈ s.parentSources ↔ (r.id, i) ∈ t.parentSources := fun i =>
    h.parentSources (r.id, i) (Or.inl ⟨r, hr, rfl, hp⟩)
  refine filter_perm (semantics_nodup s) (semantics_nodup t) fun c => ?_
  simp only [decide_eq_true_eq]
  constructor
  · intro hc
    exact ⟨(h.semantics c (hall c (mem_childrenOf.mpr hc))).mp hc.1, (hedge c.id).mp hc.2⟩
  · intro hc
    have hlinked := (hedge c.id).mpr hc.2
    obtain ⟨d, hd, hid⟩ := List.mem_map.mp (s.valid.parentSourceChild _ hlinked)
    have hlinked' : (r.id, d.id) ∈ s.parentSources := by
      rw [hid]
      exact hlinked
    rw [h.semantic_own hd (hall d (mem_childrenOf.mpr ⟨hd, hlinked'⟩)) hc.1 hid.symm]
    exact ⟨hd, hlinked'⟩

theorem sourcesOf_perm (h : Agree profileId s.toTables t.toTables) {m : MetaRow} (hm : m ∈ s.metas)
    (hp : m.profileId = profileId) (hall : ∀ r ∈ sourcesOf s.toTables m.id, r.profileId = profileId) :
    (sourcesOf s.toTables m.id).Perm (sourcesOf t.toTables m.id) := by
  have hedge : ∀ i, (m.id, i) ∈ s.metaSources ↔ (m.id, i) ∈ t.metaSources := fun i =>
    h.metaSources (m.id, i) (Or.inl ⟨m, hm, rfl, hp⟩)
  refine filter_perm (semantics_nodup s) (semantics_nodup t) fun r => ?_
  simp only [decide_eq_true_eq]
  constructor
  · intro hr
    exact ⟨(h.semantics r (hall r (mem_sourcesOf.mpr hr))).mp hr.1, (hedge r.id).mp hr.2⟩
  · intro hr
    have hlinked := (hedge r.id).mpr hr.2
    obtain ⟨q, hq, hid⟩ := List.mem_map.mp (s.valid.metaSourceSemantic _ hlinked)
    have hlinked' : (m.id, q.id) ∈ s.metaSources := by
      rw [hid]
      exact hlinked
    rw [h.semantic_own hq (hall q (mem_sourcesOf.mpr ⟨hq, hlinked'⟩)) hr.1 hid.symm]
    exact ⟨hq, hlinked'⟩

theorem childMetasOf_perm (h : Agree profileId s.toTables t.toTables) {m : MetaRow} (hm : m ∈ s.metas)
    (hp : m.profileId = profileId) (hall : ∀ c ∈ childMetasOf s.toTables m.id, c.profileId = profileId) :
    (childMetasOf s.toTables m.id).Perm (childMetasOf t.toTables m.id) := by
  have hedge : ∀ i, (m.id, i) ∈ s.metaParents ↔ (m.id, i) ∈ t.metaParents := fun i =>
    h.metaParents (m.id, i) (Or.inl ⟨m, hm, rfl, hp⟩)
  refine filter_perm (metas_nodup s) (metas_nodup t) fun c => ?_
  simp only [decide_eq_true_eq]
  constructor
  · intro hc
    exact ⟨(h.metas c (hall c (mem_childMetasOf.mpr hc))).mp hc.1, (hedge c.id).mp hc.2⟩
  · intro hc
    have hlinked := (hedge c.id).mpr hc.2
    obtain ⟨d, hd, hid⟩ := List.mem_map.mp (s.valid.metaParentChild _ hlinked)
    have hlinked' : (m.id, d.id) ∈ s.metaParents := by
      rw [hid]
      exact hlinked
    rw [h.meta_own hd (hall d (mem_childMetasOf.mpr ⟨hd, hlinked'⟩)) hc.1 hid.symm]
    exact ⟨hd, hlinked'⟩

end Agree

/-! ## Confined calls -/

theorem alike_fromExcept {e : Engine} {s t : Tables} {α : Type} (x : Except String α) :
    Alike (Answers e) s t (fromExcept x) := by
  cases x with
  | ok a => exact alike_ret a
  | error message => exact alike_throw _

theorem can_fromExcept {e : Engine} {s : Tables} {α : Type} {x : Except String α} {a : α}
    (h : Can (Answers e) s (fromExcept x) (.ok a)) : x = .ok a := by
  cases x with
  | ok b =>
    cases h
    rfl
  | error message => cases h

section Confined

variable {e : Engine} {profileId : Nat} {s t : Db} {args : Json}

theorem same_of_alike {tool : Tool} (h : ∀ fuel, Alike (Answers e) s.toTables t.toTables (call e profileId fuel args tool)) :
    Same e profileId tool args s.toTables t.toTables :=
  fun r => and_congr_right' (exists_congr fun fuel => h fuel r)

theorem searches_alike (h : Agree profileId s.toTables t.toTables) (fuel : Nat) :
    Alike (Answers e) s.toTables t.toTables (call e profileId fuel args .searchSemantic) ∧
      Alike (Answers e) s.toTables t.toTables (call e profileId fuel args .searchExternal) ∧
        Alike (Answers e) s.toTables t.toTables (call e profileId fuel args .searchMeta) := by
  refine ⟨?_, ?_, ?_⟩
  · refine alike_bind (alike_fromExcept _) fun text _ => alike_bind (alike_fromExcept _) fun memoryType _ => ?_
    refine alike_bind (alike_fromExcept _) fun vector _ => ?_
    exact alike_perform (semanticCandidates_same h _ _ _) fun rows _ => alike_ret _
  · refine alike_bind (alike_fromExcept _) fun text _ => alike_bind (alike_fromExcept _) fun source _ => ?_
    refine alike_bind (alike_fromExcept _) fun vector _ => ?_
    exact alike_perform (externalCandidates_same h _ _ _) fun rows _ => alike_ret _
  · refine alike_bind (alike_fromExcept _) fun text _ => alike_bind (alike_fromExcept _) fun type _ => ?_
    refine alike_bind (alike_fromExcept _) fun vector _ => alike_bind (alike_fromExcept _) fun minDepth _ => ?_
    refine alike_bind (alike_fromExcept _) fun maxDepth _ => ?_
    exact alike_perform (metaCandidates_same h _ _ _ _ _) fun rows _ => alike_ret _

theorem summaryDepth_own {r : SemanticRow} (hr : r ∈ s.semantics) (a : Option Nat) :
    Answers e (.summaryDepth r.id) s.toTables a ↔ a = if r.memoryType = .summary then some r.depth else none := by
  show a = (s.semantics.find? fun q => q.id == r.id && q.memoryType == .summary).map (·.depth) ↔ _
  rw [find_semantic hr]
  by_cases hsum : r.memoryType = .summary
  · simp [hsum]
  · simp [hsum]

theorem metaDepth_own {m : MetaRow} (hm : m ∈ s.metas) (a : Option Nat) :
    Answers e (.metaDepth m.id) s.toTables a ↔ a = some m.depth := by
  show a = (s.metas.find? (·.id == m.id)).map (·.depth) ↔ _
  rw [find_meta hm]
  rfl

theorem mapM_format {rows : List Message} (h : ∃ m ∈ rows, maxDate < m.timestamp) :
    rows.mapM formatMessageForTool = .error "Invalid time value" := by
  induction rows with
  | nil =>
    obtain ⟨m, hm, -⟩ := h
    cases hm
  | cons n rows ih =>
    rw [List.mapM_cons]
    unfold formatMessageForTool
    by_cases hn : n.timestamp ≤ maxDate
    · obtain ⟨m, hm, hbad⟩ := h
      rcases List.mem_cons.mp hm with rfl | hm
      · omega
      · rw [if_pos hn]
        show (List.mapM formatMessageForTool rows >>= _) = _
        rw [ih ⟨m, hm, hbad⟩]
        rfl
    · rw [if_neg hn]
      rfl

theorem ordered_exists {α : Type} {le : α → α → Bool} (htrans : ∀ a b c, le a b → le b c → le a c)
    (htotal : ∀ a b, (le a b || le b a) = true) (rows : List α) : ∃ a, Ordered le rows a :=
  ⟨rows.mergeSort le, List.mergeSort_perm rows le, List.pairwise_mergeSort htrans htotal rows⟩

theorem byTimestamp_exists (rows : List Message) : ∃ a, Ordered byTimestamp rows a := by
  refine ordered_exists ?_ ?_ rows
  · intro a b c hab hbc
    simp only [byTimestamp, decide_eq_true_eq] at *
    omega
  · intro a b
    simp only [byTimestamp, Bool.or_eq_true, decide_eq_true_eq]
    omega

theorem can_expandMemory {α : Type} {r : SemanticRow} (hr : r ∈ s.semantics) {k : Expansion → Script α}
    {x : Except (Exn Query) α} :
    Can (Answers e) s.toTables ((expandMemory r.id).bind k) x ↔ Can (Answers e) s.toTables
      (if r.memoryType = .summary then
        if r.depth = 0 then (query (.summaryMessages r.id)).bind fun rows => k (.messages rows)
        else (query (.summaryChildren r.id)).bind fun rows => k (.childSummaries rows)
      else k .nothing) x := by
  refine (can_answer (summaryDepth_own hr)).trans ?_
  by_cases hsum : r.memoryType = .summary
  · by_cases hd : r.depth = 0
    · simp only [hsum, hd, if_true]
      exact Iff.rfl
    · simp only [hsum, if_true, Prog.bind, if_neg hd]
      exact Iff.rfl
  · simp only [if_neg hsum]
    exact Iff.rfl

theorem can_expandMeta {α : Type} {m : MetaRow} (hm : m ∈ s.metas) {k : MetaExpansion → Script α}
    {x : Except (Exn Query) α} :
    Can (Answers e) s.toTables ((expandMetaMemory m.id).bind k) x ↔ Can (Answers e) s.toTables
      (if m.depth = 0 then (query (.metaSources m.id)).bind fun rows => k (.sourceSemantics rows)
      else (query (.metaChildren m.id)).bind fun rows => k (.childMetas rows)) x := by
  refine (can_answer (metaDepth_own hm)).trans ?_
  by_cases hd : m.depth = 0
  · simp only [hd, if_true]
    exact Iff.rfl
  · simp only [Prog.bind, if_neg hd]
    exact Iff.rfl

/-- A message without a date makes every expansion of the summary throw. -/
theorem undated_throws {id : Nat} (h : ∃ m ∈ messagesOf s.toTables id, maxDate < m.timestamp)
    (r : Except (Exn Query) ToolResult) :
    Can (Answers e) s.toTables ((query (.summaryMessages id)).bind fun rows => (Expansion.messages rows).result) r ↔
      r = .error (.error "Invalid time value") := by
  have hrows : ∀ rows, Ordered byTimestamp (messagesOf s.toTables id) rows →
      (Can (Answers e) s.toTables (Expansion.messages rows).result r ↔ r = .error (.error "Invalid time value")) := by
    intro rows hrows
    obtain ⟨m, hm, hbad⟩ := h
    unfold Expansion.result
    simp only [mapM_format ⟨m, hrows.1.mem_iff.mpr hm, hbad⟩]
    exact Iff.rfl
  rw [can_perform]
  constructor
  · intro hr
    obtain ⟨rows, ha, hr⟩ := hr
    exact (hrows rows ha).mp hr
  · intro hr
    obtain ⟨rows, ha⟩ := byTimestamp_exists (messagesOf s.toTables id)
    exact ⟨rows, ha, (hrows rows ha).mpr hr⟩

/-- An own row of `s` is one of `t`. -/
theorem Agree.own_semantic (h : Agree profileId s.toTables t.toTables) {r : SemanticRow} (hr : r ∈ s.semantics)
    (hp : r.profileId = profileId) : r ∈ t.semantics := (h.semantics r hp).mp hr

theorem expandMemory_alike (h : Agree profileId s.toTables t.toTables) {id : Nat}
    (hc : SummaryConfined profileId s.toTables id) :
    Alike (Answers e) s.toTables t.toTables ((expandMemory id).bind Expansion.result) := by
  obtain ⟨row, hrow, rfl, hp, hsum⟩ := hc
  have hrow' := h.own_semantic hrow hp
  intro r
  rw [can_expandMemory hrow, can_expandMemory hrow']
  by_cases htype : row.memoryType = .summary
  · obtain ⟨hzero, hdeep⟩ := hsum htype
    rw [if_pos htype]
    by_cases hd : row.depth = 0
    · rw [if_pos hd]
      rcases hzero hd with hall | ⟨m, hm, hown, hbad⟩
      · exact alike_perform (fun a => ordered_perm (messagesOf_perm h hrow hp hall)) (fun rows _ =>
          alike_bind (alike_fromExcept _) fun _ _ => alike_ret _) r
      · have hm' : m ∈ messagesOf t.toTables row.id := by
          obtain ⟨hin, hedge⟩ := mem_messagesOf.mp hm
          exact mem_messagesOf.mpr ⟨(h.messages m hown).mp hin, (h.messageSources _ ⟨row, hrow, rfl, hp⟩).mp hedge⟩
        rw [undated_throws ⟨m, hm, hbad⟩, undated_throws ⟨m, hm', hbad⟩]
    · rw [if_neg hd]
      exact alike_perform (fun a => ordered_perm (childrenOf_perm h hrow hp (hdeep hd))) (fun rows _ => alike_ret _) r
  · rw [if_neg htype]
    exact alike_ret _ r

theorem expandMeta_alike (h : Agree profileId s.toTables t.toTables) {id : Nat} {α : Type} {k : MetaExpansion → Script α}
    (hc : MetaConfined profileId s.toTables id)
    (hk : ∀ x, Can (Answers e) s.toTables (expandMetaMemory id) (.ok x) → Alike (Answers e) s.toTables t.toTables (k x)) :
    Alike (Answers e) s.toTables t.toTables ((expandMetaMemory id).bind k) := by
  obtain ⟨row, hrow, rfl, hp, hzero, hdeep⟩ := hc
  have hrow' := (h.metas row hp).mp hrow
  refine alike_bind ?_ hk
  intro r
  have hbind : ∀ u : Tables, Can (Answers e) u (expandMetaMemory row.id) r ↔
      Can (Answers e) u ((expandMetaMemory row.id).bind .ret) r := by
    intro u
    rw [can_bind]
    cases r with
    | ok a => simp [Can]
    | error x => simp [Can]
  rw [hbind, hbind, can_expandMeta hrow, can_expandMeta hrow']
  by_cases hd : row.depth = 0
  · rw [if_pos hd]
    exact alike_perform (fun a => ordered_perm (sourcesOf_perm h hrow hp (hzero hd))) (fun rows _ => alike_ret _) r
  · rw [if_neg hd]
    exact alike_perform (fun a => ordered_perm (childMetasOf_perm h hrow hp (hdeep hd))) (fun rows _ => alike_ret _) r

/-- What an expansion of an entry comes to. -/
theorem expandMeta_ok {m : MetaRow} (hm : m ∈ s.metas) {x : MetaExpansion}
    (h : Can (Answers e) s.toTables (expandMetaMemory m.id) (.ok x)) :
    (m.depth = 0 ∧ ∃ rows, Ordered byCreation (sourcesOf s.toTables m.id) rows ∧ x = .sourceSemantics rows) ∨
      (m.depth ≠ 0 ∧ ∃ rows, Ordered byDepth (childMetasOf s.toTables m.id) rows ∧ x = .childMetas rows) := by
  have hbind : Can (Answers e) s.toTables ((expandMetaMemory m.id).bind .ret) (.ok x) := can_bind_ok.mpr ⟨x, h, rfl⟩
  rw [can_expandMeta hm] at hbind
  by_cases hd : m.depth = 0
  · rw [if_pos hd] at hbind
    obtain ⟨rows, hrows, hx⟩ := hbind
    cases hx
    exact Or.inl ⟨hd, rows, hrows, rfl⟩
  · rw [if_neg hd] at hbind
    obtain ⟨rows, hrows, hx⟩ := hbind
    cases hx
    exact Or.inr ⟨hd, rows, hrows, rfl⟩

theorem expandMeta_returns {t : Tables} {id : Nat} {x : Exn Query} : ¬Can (Answers e) t (expandMetaMemory id) (.error x) := by
  intro h
  obtain ⟨depth, -, hrest⟩ := h
  cases depth with
  | none => cases hrest
  | some depth =>
    change Can (Answers e) t (if depth = 0 then _ else _) _ at hrest
    split at hrest
    · obtain ⟨rows, -, hend⟩ := hrest
      cases hend
    · obtain ⟨rows, -, hend⟩ := hrest
      cases hend

theorem Leaks.confined {m : MetaRow} (hm : m ∈ s.metas) (hp : m.profileId = profileId) (h : ¬Leaks profileId s.toTables m.id) :
    MetaConfined profileId s.toTables m.id := by
  refine ⟨m, hm, rfl, hp, ?_, ?_⟩
  · intro hd r hr
    by_contra hforeign
    exact h (.source hm hp hd hr hforeign)
  · intro hd c hc
    by_contra hforeign
    exact h (.child hm hp hd hc hforeign)

theorem trace_alike (h : Agree profileId s.toTables t.toTables) (fuel : Nat) {m : MetaRow} (hm : m ∈ s.metas)
    (hp : m.profileId = profileId) (hleaks : ¬Leaks profileId s.toTables m.id) :
    Alike (Answers e) s.toTables t.toTables (traceMetaToSources fuel m.id) := by
  induction fuel generalizing m with
  | zero => exact alike_throw _
  | succ fuel ih =>
    have hconfined := Leaks.confined hm hp hleaks
    refine expandMeta_alike h hconfined fun x hx => ?_
    rcases expandMeta_ok hm hx with ⟨-, rows, -, rfl⟩ | ⟨hd, rows, hrows, rfl⟩
    · exact alike_ret _
    · refine alike_bind (alike_forConcat fun c hc => ?_) fun _ _ => alike_ret _
      have hc := hrows.1.mem_iff.mp hc
      obtain ⟨n, hn, hid, -, -, hdeep⟩ := hconfined
      obtain rfl : n = m := s.meta_unique hn hm hid
      have hcp := hdeep hd c hc
      exact ih (mem_childMetasOf.mp hc).1 hcp fun hl => hleaks (.deeper hm hp hd hc hcp hl)

/-- An entry above depth 0 and a child. -/
def Child (t : Tables) (child parent : Nat) : Prop :=
  (parent, child) ∈ t.metaParents ∧ ∃ m ∈ t.metas, m.id = parent ∧ m.depth ≠ 0

/-- A trace that ends has ended for every child. -/
theorem trace_ends {fuel id : Nat} {rows : List SemanticRow}
    (h : Can (Answers e) s.toTables (traceMetaToSources fuel id) (.ok rows)) : Acc (Child s.toTables) id := by
  induction fuel generalizing id rows with
  | zero => cases h
  | succ fuel ih =>
    constructor
    intro c hc
    obtain ⟨hedge, m, hm, rfl, hd⟩ := hc
    obtain ⟨x, hx, hsources⟩ := can_bind_ok.mp h
    rcases expandMeta_ok hm hx with ⟨hzero, -⟩ | ⟨-, children, hchildren, rfl⟩
    · exact (hd hzero).elim
    · obtain ⟨all, hall, -⟩ := can_bind_ok.mp hsources
      obtain ⟨n, hn, rfl⟩ := List.mem_map.mp (s.valid.metaParentChild _ hedge)
      have hin : n ∈ children := hchildren.1.mem_iff.mpr (mem_childMetasOf.mpr ⟨hn, hedge⟩)
      obtain ⟨ys, hys, -⟩ := (can_forConcat hall).1 n hin
      exact ih hys

theorem trace_error {fuel id : Nat} {t : Tables} {x : Exn Query}
    (h : Can (Answers e) t (traceMetaToSources fuel id) (.error x)) : x = outOfFuel := by
  induction fuel generalizing id with
  | zero =>
    cases h
    rfl
  | succ fuel ih =>
    rcases can_bind.mp h with ⟨expansion, _, hsources⟩ | ⟨x', hx, -⟩
    · cases expansion with
      | nothing => cases hsources
      | sourceSemantics rows => cases hsources
      | childMetas rows =>
        rcases can_bind.mp hsources with ⟨all, _, hend⟩ | ⟨x', hbad, he⟩
        · cases hend
        · cases he
          obtain ⟨c, -, hc⟩ := can_forConcat_error hbad
          exact ih hc
    · exact (expandMeta_returns hx).elim

/-- The trace can return `rows`. -/
def Traces (e : Engine) (t : Tables) (id : Nat) (rows : List SemanticRow) : Prop :=
  ∃ fuel, Can (Answers e) t (traceMetaToSources fuel id) (.ok rows)

theorem ownChild_child {child parent : Nat} (h : OwnChild profileId s.toTables child parent) :
    Child s.toTables child parent := by
  obtain ⟨-, hedge, m, hm, hid, -, hd⟩ := h
  exact ⟨hedge, m, hm, hid, hd⟩

theorem Agree.ownChild (h : Agree profileId s.toTables t.toTables) {child parent : Nat}
    (hc : OwnChild profileId s.toTables child parent) : OwnChild profileId t.toTables child parent := by
  obtain ⟨hown, hedge, m, hm, hid, hp, hd⟩ := hc
  exact ⟨(h.ownMeta child).mp hown, (h.metaParents _ (Or.inr hown)).mp hedge, m, (h.metas m hp).mp hm, hid, hp, hd⟩

theorem Traces.acc {id : Nat} {rows : List SemanticRow} (h : Traces e s.toTables id rows) :
    Acc (OwnChild profileId s.toTables) id := by
  obtain ⟨fuel, h⟩ := h
  exact Subrelation.accessible ownChild_child (trace_ends h)

theorem traces_same (h : Agree profileId s.toTables t.toTables) {id : Nat} (hc : TraceConfined profileId s.toTables id)
    (rows : List SemanticRow) : Traces e s.toTables id rows ↔ Traces e t.toTables id rows := by
  obtain ⟨⟨m, hm, rfl, hp⟩, hleaks⟩ := hc
  by_cases hacc : Acc (OwnChild profileId s.toTables) m.id
  · exact exists_congr fun fuel => trace_alike h fuel hm hp (hleaks hacc) _
  · constructor
    · intro hs
      exact (hacc hs.acc).elim
    · intro ht
      have hacc' : Acc (OwnChild profileId t.toTables) m.id := ht.acc
      exact (hacc (Subrelation.accessible h.ownChild hacc')).elim

end Confined

/-! ## Arguments -/

section Named

variable {e : Engine} {args : Json} {name : String}

theorem can_named {t : Tables} {id : Nat} (h : Named e args name id) {α : Type} {k : Nat → Script α}
    {r : Except (Exn Query) α} :
    Can (Answers e) t ((fromExcept (required args name)).bind fun v => (fromExcept (e.uuid v)).bind k) r ↔
      Can (Answers e) t (k id) r := by
  obtain ⟨v, hv, hid⟩ := h
  rw [hv]
  show Can (Answers e) t ((fromExcept (e.uuid v)).bind k) r ↔ _
  rw [hid]
  exact Iff.rfl

theorem alike_named {s t : Tables} {α : Type} {k : Nat → Script α}
    (h : ∀ id, Named e args name id → Alike (Answers e) s t (k id)) :
    Alike (Answers e) s t ((fromExcept (required args name)).bind fun v => (fromExcept (e.uuid v)).bind k) := by
  refine alike_bind (alike_fromExcept _) fun v hv => alike_bind (alike_fromExcept _) fun id hid => ?_
  exact h id ⟨v, can_fromExcept hv, can_fromExcept hid⟩

theorem gives_trace {profileId : Nat} {t : Tables} {id : Nat} (h : Named e args "meta_id" id)
    (r : Except (Exn Query) ToolResult) :
    Gives e profileId .traceToSource args t r ↔
      ∃ rows, Traces e t id rows ∧ r = .ok (.traced rows.length (rows.map sourceItem)) := by
  have hcall : ∀ fuel, Can (Answers e) t (call e profileId fuel args .traceToSource) r ↔
      Can (Answers e) t ((traceMetaToSources fuel id).bind fun rows =>
        .ret (.traced rows.length (rows.map sourceItem))) r := fun fuel => can_named h
  constructor
  · intro hr
    obtain ⟨hne, fuel, hr⟩ := hr
    rw [hcall, can_bind] at hr
    obtain ⟨rows, hrows, hend⟩ | ⟨x, hx, rfl⟩ := hr
    · exact ⟨rows, ⟨fuel, hrows⟩, hend⟩
    · rw [trace_error hx] at hne
      exact (hne rfl).elim
  · intro hr
    obtain ⟨rows, ⟨fuel, hrows⟩, rfl⟩ := hr
    refine ⟨nofun, fuel, ?_⟩
    rw [hcall, can_bind]
    exact Or.inl ⟨rows, hrows, rfl⟩

end Named

/-- A confined call tells nothing of the other profiles. -/
theorem same_of_confined {e : Engine} {profileId : Nat} {tool : Tool} {args : Json} {s t : Db}
    (h : Agree profileId s.toTables t.toTables) (hc : Confined e profileId s.toTables args tool) :
    Same e profileId tool args s.toTables t.toTables := by
  cases tool with
  | searchSemantic => exact same_of_alike fun fuel => (searches_alike h fuel).1
  | searchExternal => exact same_of_alike fun fuel => (searches_alike h fuel).2.1
  | searchMeta => exact same_of_alike fun fuel => (searches_alike h fuel).2.2
  | expandMemory => exact same_of_alike fun _ => alike_named fun id hid => expandMemory_alike h (hc id hid)
  | expandMeta =>
    exact same_of_alike fun _ => alike_named fun id hid => expandMeta_alike h (hc id hid) fun _ _ => alike_ret _
  | traceToSource =>
    by_cases hname : ∃ id, Named e args "meta_id" id
    · obtain ⟨id, hid⟩ := hname
      intro r
      rw [gives_trace hid, gives_trace hid]
      exact exists_congr fun rows => and_congr_left' (traces_same h (hc id hid) rows)
    · exact same_of_alike fun _ => alike_named fun id hid => (hname ⟨id, hid⟩).elim

end FlowHelm.Mcp
