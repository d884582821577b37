/-
  FlowHelm.Mcp.Leaks — a call that is not confined tells the other profiles' rows apart.

  A `Disguise` rewrites what is not `p`'s: the contents, types, depths and dates of the
  other profiles' rows, and it adds a profile with one entry of each kind that is a source
  of every foreign insight. `disguise d s` agrees with `s` on `p`; two disguises that
  differ in one column make any call that is not confined give different results.

  - `same_iff_confined`: a call gives the same in every state that agrees with `s` on `p` just
    if it is confined in `s`.
  - `a_foreign_summary_is_expanded`: `expand_memory` with the id of another profile's summary.
-/
import Mathlib.Data.Fintype.EquivFin
import FlowHelm.Mcp.Noninterference

namespace FlowHelm.Mcp

open Memory (Profile Chat MessageKey SemanticMemoryType MetaMemoryType Ordered)
open Profiles (Embedding SemanticRow MetaRow ExternalRow Message Tables Db)
open Js (Json)
open Script Prog

/-! ## Disguises -/

structure Disguise where
  profile : Profile
  semanticId : Nat
  metaId : Nat
  content : String
  memoryType : SemanticMemoryType
  depth : Nat
  metaDepth : Nat
  timestamp : Nat

namespace Disguise

def columns (d : Disguise) (content : String) (memoryType : SemanticMemoryType) (depth metaDepth timestamp : Nat) : Disguise :=
  { d with content, memoryType, depth, metaDepth, timestamp }

variable (d : Disguise) (p : Nat) (s : Tables)

def semantic (r : SemanticRow) : SemanticRow :=
  if r.profileId = p then r else { r with content := d.content, memoryType := d.memoryType, depth := d.depth }

def entry (m : MetaRow) : MetaRow := if m.profileId = p then m else { m with content := d.content, depth := d.metaDepth }

def isOwnChat (chatId : String) : Bool := s.chats.any fun c => c.id == chatId && c.profileId == p

def message (m : Message) : Message := if isOwnChat p s m.chatId then m else { m with timestamp := d.timestamp }

/-- The entry that is added. -/
def newSemantic : SemanticRow :=
  ⟨d.semanticId, d.content, [], d.memoryType, 0, d.depth, 0, none, d.profile.id, none, none, 0, 0, 0, 0⟩

def newMeta : MetaRow := ⟨d.metaId, d.content, [], .insight, 0, d.metaDepth, d.profile.id, 0, 0, 0⟩

def foreignMetas : List MetaRow := s.metas.filter fun m => decide (m.profileId ≠ p)

def tables : Tables :=
  { s with
    profiles := d.profile :: s.profiles
    semantics := d.newSemantic :: s.semantics.map (d.semantic p)
    metas := d.newMeta :: s.metas.map (d.entry p)
    messages := s.messages.map (d.message p s)
    metaSources := (d.newMeta.id, d.semanticId) :: ((foreignMetas p s).map fun m => (m.id, d.semanticId)) ++ s.metaSources }

/-- What is added is new, and not `p`'s. -/
structure Fresh : Prop where
  notDefault : d.profile.isDefault = false
  other : d.profile.id ≠ p
  profileId : d.profile.id ∉ s.profileIds
  profileName : d.profile.name ∉ s.profiles.map (·.name)
  semanticId : d.semanticId ∉ s.semanticIds
  metaId : d.metaId ∉ s.metaIds

@[simp] theorem semantic_id (r : SemanticRow) : (d.semantic p r).id = r.id := by
  unfold semantic
  split <;> rfl

@[simp] theorem semantic_profileId (r : SemanticRow) : (d.semantic p r).profileId = r.profileId := by
  unfold semantic
  split <;> rfl

@[simp] theorem semantic_sourceSession (r : SemanticRow) : (d.semantic p r).sourceSession = r.sourceSession := by
  unfold semantic
  split <;> rfl

@[simp] theorem semantic_importance (r : SemanticRow) : (d.semantic p r).importance = r.importance := by
  unfold semantic
  split <;> rfl

@[simp] theorem entry_id (m : MetaRow) : (d.entry p m).id = m.id := by
  unfold entry
  split <;> rfl

@[simp] theorem entry_profileId (m : MetaRow) : (d.entry p m).profileId = m.profileId := by
  unfold entry
  split <;> rfl

@[simp] theorem entry_confidence (m : MetaRow) : (d.entry p m).confidence = m.confidence := by
  unfold entry
  split <;> rfl

@[simp] theorem message_key (m : Message) : (d.message p s m).key = m.key := by
  unfold message
  split <;> rfl

@[simp] theorem message_chatId (m : Message) : (d.message p s m).chatId = m.chatId := by
  unfold message
  split <;> rfl

variable {d p s}

theorem semantic_own {r : SemanticRow} (h : r.profileId = p) : d.semantic p r = r := if_pos h

theorem entry_own {m : MetaRow} (h : m.profileId = p) : d.entry p m = m := if_pos h

theorem semanticIds_tables : (d.tables p s).semanticIds = d.semanticId :: s.semanticIds := by
  simp [tables, Tables.semanticIds, newSemantic, Function.comp_def]

theorem metaIds_tables : (d.tables p s).metaIds = d.metaId :: s.metaIds := by
  simp [tables, Tables.metaIds, newMeta, Function.comp_def]

theorem messageKeys_tables : (d.tables p s).messageKeys = s.messageKeys := by
  simp [tables, Tables.messageKeys, Function.comp_def]

theorem isOwnChat_iff {chatId : String} : isOwnChat p s chatId = true ↔ OwnChat p s chatId := by
  simp [isOwnChat, OwnChat]

/-- The profiles of the rows are there, before and after. -/
theorem profileId_tables {i : Nat} (h : i ∈ s.profileIds) : i ∈ (d.tables p s).profileIds := List.mem_cons_of_mem _ h

theorem sources_valid (h : s.Valid) (hd : d.Fresh p s) : (d.tables p s).SourcesValid := by
  have hdefault : ((d.profile :: s.profiles).filter (·.isDefault)).length ≤ 1 := by
    rw [List.filter_cons_of_neg (by simp [hd.notDefault])]
    exact h.oneDefault
  refine ⟨List.nodup_cons.mpr ⟨hd.profileId, h.profileKey⟩, List.nodup_cons.mpr ⟨hd.profileName, h.profileName⟩,
    hdefault, h.chatKey, ?_, ?_, ?_⟩
  · intro c hc
    exact profileId_tables (h.chatProfile c hc)
  · rw [messageKeys_tables]
    exact h.messageKey
  · intro m hm
    obtain ⟨m', hm', rfl⟩ := List.mem_map.mp hm
    rw [message_chatId]
    exact h.messageChat m' hm'

theorem identity_valid (h : s.Valid) : (d.tables p s).IdentityValid :=
  ⟨h.identityKey, fun r hr => profileId_tables (h.identityProfile r hr), h.oneIdentity, h.personalityKey,
    fun r hr => profileId_tables (h.personalityProfile r hr), h.oneDimension⟩

theorem rows_valid (h : s.Valid) (hd : d.Fresh p s) : (d.tables p s).RowsValid := by
  refine ⟨?_, ?_, ?_, ?_, ?_, ?_, ?_, h.externalKey, fun r hr => profileId_tables (h.externalProfile r hr)⟩
  · rw [semanticIds_tables]
    exact List.nodup_cons.mpr ⟨hd.semanticId, h.semanticKey⟩
  · intro r hr
    rcases List.mem_cons.mp hr with rfl | hr
    · exact .head _
    · obtain ⟨r', hr', rfl⟩ := List.mem_map.mp hr
      rw [semantic_profileId]
      exact profileId_tables (h.semanticProfile r' hr')
  · intro r hr
    rcases List.mem_cons.mp hr with rfl | hr
    · exact nofun
    · obtain ⟨r', hr', rfl⟩ := List.mem_map.mp hr
      rw [semantic_sourceSession]
      exact h.semanticSession r' hr'
  · intro r hr
    rcases List.mem_cons.mp hr with rfl | hr
    · exact ⟨le_refl 0, zero_le_one⟩
    · obtain ⟨r', hr', rfl⟩ := List.mem_map.mp hr
      rw [semantic_importance]
      exact h.importance r' hr'
  · rw [metaIds_tables]
    exact List.nodup_cons.mpr ⟨hd.metaId, h.metaKey⟩
  · intro m hm
    rcases List.mem_cons.mp hm with rfl | hm
    · exact .head _
    · obtain ⟨m', hm', rfl⟩ := List.mem_map.mp hm
      rw [entry_profileId]
      exact profileId_tables (h.metaProfile m' hm')
  · intro m hm
    rcases List.mem_cons.mp hm with rfl | hm
    · exact ⟨le_refl 0, zero_le_one⟩
    · obtain ⟨m', hm', rfl⟩ := List.mem_map.mp hm
      rw [entry_confidence]
      exact h.confidence m' hm'

theorem mem_metaSources {e : Nat × Nat} : e ∈ (d.tables p s).metaSources ↔
    e = (d.metaId, d.semanticId) ∨ (∃ m ∈ s.metas, m.profileId ≠ p ∧ e = (m.id, d.semanticId)) ∨ e ∈ s.metaSources := by
  simp only [tables, newMeta, List.cons_append, List.mem_cons, List.mem_append, List.mem_map, foreignMetas,
    List.mem_filter, decide_eq_true_eq]
  constructor
  · intro he
    rcases he with he | ⟨m, ⟨hm, hp⟩, rfl⟩ | he
    · exact Or.inl he
    · exact Or.inr (Or.inl ⟨m, hm, hp, rfl⟩)
    · exact Or.inr (Or.inr he)
  · intro he
    rcases he with he | ⟨m, hm, hp, rfl⟩ | he
    · exact Or.inl he
    · exact Or.inr (Or.inl ⟨m, ⟨hm, hp⟩, rfl⟩)
    · exact Or.inr (Or.inr he)

theorem metaSources_nodup (h : s.Valid) (hd : d.Fresh p s) : (d.tables p s).metaSources.Nodup := by
  have hnew : ∀ e ∈ s.metaSources, e.2 ≠ d.semanticId := by
    intro e he hid
    exact hd.semanticId (hid ▸ h.metaSourceSemantic e he)
  have hforeign : ((foreignMetas p s).map fun m => (m.id, d.semanticId)).Nodup := by
    refine List.Nodup.of_map Prod.fst ?_
    rw [List.map_map]
    exact h.metaKey.sublist (List.filter_sublist.map _)
  show ((d.metaId, d.semanticId) :: (((foreignMetas p s).map fun m => (m.id, d.semanticId)) ++ s.metaSources)).Nodup
  refine List.nodup_cons.mpr ⟨?_, hforeign.append h.metaSourceKey ?_⟩
  · intro hmem
    rcases List.mem_append.mp hmem with hmem | hmem
    · obtain ⟨m, hm, hid⟩ := List.mem_map.mp hmem
      exact hd.metaId (List.mem_map.mpr ⟨m, List.mem_of_mem_filter hm, congrArg Prod.fst hid⟩)
    · exact hnew _ hmem rfl
  · intro e he he'
    obtain ⟨m, -, rfl⟩ := List.mem_map.mp he
    exact hnew _ he' rfl

theorem links_valid (h : s.Valid) (hd : d.Fresh p s) : (d.tables p s).LinksValid := by
  have hsemantic : ∀ i ∈ s.semanticIds, i ∈ (d.tables p s).semanticIds := by
    intro i hi
    rw [semanticIds_tables]
    exact .tail _ hi
  have hmeta : ∀ i ∈ s.metaIds, i ∈ (d.tables p s).metaIds := by
    intro i hi
    rw [metaIds_tables]
    exact .tail _ hi
  refine ⟨h.messageSourceKey, fun e he => hsemantic _ (h.messageSourceSummary e he), ?_, h.parentSourceKey,
    fun e he => hsemantic _ (h.parentSourceParent e he), fun e he => hsemantic _ (h.parentSourceChild e he),
    metaSources_nodup h hd, ?_, ?_, h.metaParentKey, fun e he => hmeta _ (h.metaParentParent e he),
    fun e he => hmeta _ (h.metaParentChild e he)⟩
  · intro e he
    rw [messageKeys_tables]
    exact h.messageSourceMessage e he
  · intro e he
    rw [metaIds_tables]
    rcases mem_metaSources.mp he with rfl | ⟨m, hm, -, rfl⟩ | he
    · exact .head _
    · exact .tail _ (List.mem_map.mpr ⟨m, hm, rfl⟩)
    · exact .tail _ (h.metaSourceMeta e he)
  · intro e he
    rw [semanticIds_tables]
    rcases mem_metaSources.mp he with rfl | ⟨m, -, -, rfl⟩ | he
    · exact .head _
    · exact .head _
    · exact .tail _ (h.metaSourceSemantic e he)

end Disguise

/-- The state in disguise. -/
def disguise (d : Disguise) (p : Nat) (s : Db) (hd : d.Fresh p s.toTables) : Db where
  toTables := d.tables p s.toTables
  valid :=
    { toSourcesValid := Disguise.sources_valid s.valid hd
      toIdentityValid := Disguise.identity_valid s.valid
      toRowsValid := Disguise.rows_valid s.valid hd
      toLinksValid := Disguise.links_valid s.valid hd }

section Disguised

variable {d : Disguise} {p : Nat} {s : Db}

theorem mem_semantics {r : SemanticRow} (h : r ∈ (d.tables p s.toTables).semantics) :
    r = d.newSemantic ∨ ∃ r' ∈ s.semantics, r = d.semantic p r' := by
  rcases List.mem_cons.mp h with rfl | h
  · exact Or.inl rfl
  · obtain ⟨r', hr', rfl⟩ := List.mem_map.mp h
    exact Or.inr ⟨r', hr', rfl⟩

theorem mem_metas {m : MetaRow} (h : m ∈ (d.tables p s.toTables).metas) :
    m = d.newMeta ∨ ∃ m' ∈ s.metas, m = d.entry p m' := by
  rcases List.mem_cons.mp h with rfl | h
  · exact Or.inl rfl
  · obtain ⟨m', hm', rfl⟩ := List.mem_map.mp h
    exact Or.inr ⟨m', hm', rfl⟩

theorem semantic_mem {r : SemanticRow} (h : r ∈ s.semantics) : d.semantic p r ∈ (d.tables p s.toTables).semantics :=
  .tail _ (List.mem_map.mpr ⟨r, h, rfl⟩)

theorem entry_mem {m : MetaRow} (h : m ∈ s.metas) : d.entry p m ∈ (d.tables p s.toTables).metas :=
  .tail _ (List.mem_map.mpr ⟨m, h, rfl⟩)

/-- A foreign row shows nothing but the disguise. -/
theorem semantic_foreign {r : SemanticRow} (h : r ∈ (d.tables p s.toTables).semantics) (hp : r.profileId ≠ p) :
    r.content = d.content ∧ r.memoryType = d.memoryType ∧ r.depth = d.depth := by
  rcases mem_semantics h with rfl | ⟨r', -, rfl⟩
  · exact ⟨rfl, rfl, rfl⟩
  · rw [Disguise.semantic_profileId] at hp
    unfold Disguise.semantic
    rw [if_neg hp]
    exact ⟨rfl, rfl, rfl⟩

theorem entry_foreign {m : MetaRow} (h : m ∈ (d.tables p s.toTables).metas) (hp : m.profileId ≠ p) :
    m.content = d.content ∧ m.depth = d.metaDepth := by
  rcases mem_metas h with rfl | ⟨m', -, rfl⟩
  · exact ⟨rfl, rfl⟩
  · rw [Disguise.entry_profileId] at hp
    unfold Disguise.entry
    rw [if_neg hp]
    exact ⟨rfl, rfl⟩

theorem disguise_agrees (hd : d.Fresh p s.toTables) : Agree p s.toTables (disguise d p s hd).toTables := by
  have hsemantic : ∀ r : SemanticRow, r.profileId = p → (r ∈ s.semantics ↔ r ∈ (d.tables p s.toTables).semantics) := by
    intro r hp
    constructor
    · intro hr
      have hmem := semantic_mem (d := d) (p := p) hr
      rw [Disguise.semantic_own hp] at hmem
      exact hmem
    · intro hr
      rcases mem_semantics hr with rfl | ⟨r', hr', rfl⟩
      · exact (hd.other hp).elim
      · rw [Disguise.semantic_profileId] at hp
        rw [Disguise.semantic_own hp]
        exact hr'
  have hmeta : ∀ m : MetaRow, m.profileId = p → (m ∈ s.metas ↔ m ∈ (d.tables p s.toTables).metas) := by
    intro m hp
    constructor
    · intro hm
      have hmem := entry_mem (d := d) (p := p) hm
      rw [Disguise.entry_own hp] at hmem
      exact hmem
    · intro hm
      rcases mem_metas hm with rfl | ⟨m', hm', rfl⟩
      · exact (hd.other hp).elim
      · rw [Disguise.entry_profileId] at hp
        rw [Disguise.entry_own hp]
        exact hm'
  refine ⟨?_, fun _ _ => Iff.rfl, ?_, fun _ _ => Iff.rfl, fun _ _ => Iff.rfl, hsemantic, hmeta, fun _ _ => Iff.rfl,
    fun _ _ => Iff.rfl, fun _ _ => Iff.rfl, ?_, fun _ _ => Iff.rfl⟩
  · intro r hr
    refine ⟨fun h => .tail _ h, fun h => ?_⟩
    rcases List.mem_cons.mp h with rfl | h
    · exact (hd.other hr).elim
    · exact h
  · intro m hown
    have hkeep : ∀ n : Message, n.chatId = m.chatId → d.message p s.toTables n = n := by
      intro n hn
      unfold Disguise.message
      rw [if_pos (Disguise.isOwnChat_iff.mpr (hn ▸ hown))]
    constructor
    · intro hm
      exact List.mem_map.mpr ⟨m, hm, hkeep m rfl⟩
    · intro hm
      obtain ⟨n, hn, hnm⟩ := List.mem_map.mp hm
      have hchat : n.chatId = m.chatId := by rw [← hnm, Disguise.message_chatId]
      rw [← hnm, hkeep n hchat]
      exact hn
  · intro e hown
    show _ ↔ e ∈ (d.tables p s.toTables).metaSources
    rw [Disguise.mem_metaSources]
    refine ⟨fun he => Or.inr (Or.inr he), fun he => ?_⟩
    rcases he with rfl | ⟨m, hm, hp, rfl⟩ | he
    · rcases hown with ⟨n, hn, hid, -⟩ | ⟨r, hr, hid, -⟩
      · exact (hd.metaId (List.mem_map.mpr ⟨n, hn, hid⟩)).elim
      · exact (hd.semanticId (List.mem_map.mpr ⟨r, hr, hid⟩)).elim
    · rcases hown with ⟨n, hn, hid, hnp⟩ | ⟨r, hr, hid, -⟩
      · rw [s.meta_unique hn hm hid] at hnp
        exact (hp hnp).elim
      · exact (hd.semanticId (List.mem_map.mpr ⟨r, hr, hid⟩)).elim
    · exact he

/-- A row with an id that is none of `p`'s shows nothing but the disguise. -/
theorem disguised_semantic (hd : d.Fresh p s.toTables) {r : SemanticRow} (hr : r ∈ (disguise d p s hd).semantics)
    (h : ¬OwnSemantic p s.toTables r.id) : r.content = d.content ∧ r.memoryType = d.memoryType ∧ r.depth = d.depth := by
  refine semantic_foreign hr fun hp => h ?_
  exact ((disguise_agrees hd).ownSemantic r.id).mpr ⟨r, hr, rfl, hp⟩

theorem disguised_meta (hd : d.Fresh p s.toTables) {m : MetaRow} (hm : m ∈ (disguise d p s hd).metas)
    (h : ¬OwnMeta p s.toTables m.id) : m.content = d.content ∧ m.depth = d.metaDepth := by
  refine entry_foreign hm fun hp => h ?_
  exact ((disguise_agrees hd).ownMeta m.id).mpr ⟨m, hm, rfl, hp⟩

theorem not_ownSemantic {r : SemanticRow} (hr : r ∈ s.semantics) (hp : r.profileId ≠ p) : ¬OwnSemantic p s.toTables r.id := by
  intro h
  obtain ⟨q, hq, hid, hqp⟩ := h
  rw [s.semantic_unique hq hr hid] at hqp
  exact hp hqp

theorem not_ownMeta {m : MetaRow} (hm : m ∈ s.metas) (hp : m.profileId ≠ p) : ¬OwnMeta p s.toTables m.id := by
  intro h
  obtain ⟨n, hn, hid, hnp⟩ := h
  rw [s.meta_unique hn hm hid] at hnp
  exact hp hnp

/-- The id of an entry that can be asked for: one of the rows' or the added one's. -/
theorem disguised_row (hd : d.Fresh p s.toTables) {id : Nat} (h : id ∈ s.semanticIds ∨ d.semanticId = id) :
    ∃ r ∈ (disguise d p s hd).semantics, r.id = id := by
  rcases h with h | h
  · obtain ⟨r, hr, hid⟩ := List.mem_map.mp h
    exact ⟨d.semantic p r, semantic_mem hr, by rw [Disguise.semantic_id, hid]⟩
  · exact ⟨d.newSemantic, .head _, h⟩

theorem disguised_entry (hd : d.Fresh p s.toTables) {id : Nat} (h : id ∈ s.metaIds ∨ d.metaId = id) :
    ∃ m ∈ (disguise d p s hd).metas, m.id = id := by
  rcases h with h | h
  · obtain ⟨m, hm, hid⟩ := List.mem_map.mp h
    exact ⟨d.entry p m, entry_mem hm, by rw [Disguise.entry_id, hid]⟩
  · exact ⟨d.newMeta, .head _, h⟩

theorem childrenOf_disguise {id : Nat} {r : SemanticRow} (h : r ∈ childrenOf s.toTables id) :
    d.semantic p r ∈ childrenOf (d.tables p s.toTables) id := by
  obtain ⟨hr, hedge⟩ := mem_childrenOf.mp h
  rw [mem_childrenOf, Disguise.semantic_id]
  exact ⟨semantic_mem hr, hedge⟩

theorem sourcesOf_disguise {id : Nat} {r : SemanticRow} (h : r ∈ sourcesOf s.toTables id) :
    d.semantic p r ∈ sourcesOf (d.tables p s.toTables) id := by
  obtain ⟨hr, hedge⟩ := mem_sourcesOf.mp h
  rw [mem_sourcesOf, Disguise.semantic_id]
  exact ⟨semantic_mem hr, Disguise.mem_metaSources.mpr (Or.inr (Or.inr hedge))⟩

theorem childMetasOf_disguise {id : Nat} {m : MetaRow} (h : m ∈ childMetasOf s.toTables id) :
    d.entry p m ∈ childMetasOf (d.tables p s.toTables) id := by
  obtain ⟨hm, hedge⟩ := mem_childMetasOf.mp h
  rw [mem_childMetasOf, Disguise.entry_id]
  exact ⟨entry_mem hm, hedge⟩

/-- The columns are free. -/
theorem Disguise.Fresh.columns (h : d.Fresh p s.toTables) (content : String) (memoryType : SemanticMemoryType)
    (depth metaDepth timestamp : Nat) : (d.columns content memoryType depth metaDepth timestamp).Fresh p s.toTables :=
  ⟨h.notDefault, h.other, h.profileId, h.profileName, h.semanticId, h.metaId⟩

end Disguised

/-- For an id there is a disguise in which it is some entry's. -/
theorem fresh_exists (p : Nat) (s : Tables) (id : Nat) :
    ∃ d : Disguise, d.Fresh p s ∧ (id ∈ s.semanticIds ∨ d.semanticId = id) ∧ (id ∈ s.metaIds ∨ d.metaId = id) := by
  have hnat : ∀ l : List Nat, ∃ i, i ∉ l ∧ (id ∈ l ∨ i = id) := by
    intro l
    by_cases hid : id ∈ l
    · obtain ⟨i, hi⟩ := Infinite.exists_notMem_finset l.toFinset
      exact ⟨i, fun h => hi (List.mem_toFinset.mpr h), Or.inl hid⟩
    · exact ⟨id, hid, Or.inr rfl⟩
  obtain ⟨profileId, hprofile⟩ := Infinite.exists_notMem_finset (p :: s.profileIds).toFinset
  obtain ⟨name, hname⟩ := Infinite.exists_notMem_finset (s.profiles.map (·.name)).toFinset
  obtain ⟨semanticId, hsemantic, hs⟩ := hnat s.semanticIds
  obtain ⟨metaId, hmeta, hm⟩ := hnat s.metaIds
  rw [List.mem_toFinset] at hprofile hname
  refine ⟨⟨⟨profileId, name, none, false, 0, 0⟩, semanticId, metaId, "", .fact, 0, 0, 0⟩, ?_, hs, hm⟩
  exact ⟨rfl, fun h => hprofile (h ▸ .head _), fun h => hprofile (.tail _ h), hname, hsemantic, hmeta⟩

/-! ## What an expansion shows -/

section Shown

variable {e : Engine} {p : Nat} {args : Json} {s u : Db} {d : Disguise}

theorem gives_expandMemory {t : Tables} {id : Nat} (h : Named e args "memory_id" id) (r : Except (Exn Query) ToolResult) :
    Gives e p .expandMemory args t r ↔
      r ≠ .error outOfFuel ∧ Can (Answers e) t ((expandMemory id).bind Expansion.result) r := by
  have hcall : ∀ fuel, Can (Answers e) t (call e p fuel args .expandMemory) r ↔
      Can (Answers e) t ((expandMemory id).bind Expansion.result) r := fun fuel => can_named h
  unfold Gives
  simp only [hcall, exists_const]

theorem gives_expandMeta {t : Tables} {id : Nat} (h : Named e args "meta_id" id) (r : Except (Exn Query) ToolResult) :
    Gives e p .expandMeta args t r ↔
      r ≠ .error outOfFuel ∧ Can (Answers e) t ((expandMetaMemory id).bind fun x => .ret x.result) r := by
  have hcall : ∀ fuel, Can (Answers e) t (call e p fuel args .expandMeta) r ↔
      Can (Answers e) t ((expandMetaMemory id).bind fun x => .ret x.result) r := fun fuel => can_named h
  unfold Gives
  simp only [hcall, exists_const]

/-- Rows shown are no lack of fuel. -/
theorem shows_rows {α : Type} {A : α → Prop} {shown : α → ToolResult} {x : Except (Exn Query) ToolResult} :
    (x ≠ .error outOfFuel ∧ ∃ rows, A rows ∧ x = .ok (shown rows)) ↔ ∃ rows, A rows ∧ x = .ok (shown rows) := by
  constructor
  · intro hx
    exact hx.2
  · intro hx
    obtain ⟨rows, hrows, rfl⟩ := hx
    exact ⟨nofun, rows, hrows, rfl⟩

theorem gives_nothing {r : SemanticRow} (h : Named e args "memory_id" r.id) (hr : r ∈ u.semantics)
    (htype : r.memoryType ≠ .summary) (x : Except (Exn Query) ToolResult) :
    Gives e p .expandMemory args u.toTables x ↔ x = .ok .empty := by
  rw [gives_expandMemory h, can_expandMemory hr, if_neg htype]
  constructor
  · intro hx
    exact hx.2
  · intro hx
    rw [hx]
    exact ⟨nofun, rfl⟩

theorem gives_summaries {r : SemanticRow} (h : Named e args "memory_id" r.id) (hr : r ∈ u.semantics)
    (htype : r.memoryType = .summary) (hd : r.depth ≠ 0) (x : Except (Exn Query) ToolResult) :
    Gives e p .expandMemory args u.toTables x ↔
      ∃ rows, Ordered byEarliest (childrenOf u.toTables r.id) rows ∧ x = .ok (.summaries (rows.map summaryItem)) := by
  rw [gives_expandMemory h, can_expandMemory hr, if_pos htype, if_neg hd]
  exact shows_rows

theorem format_dated {rows : List Message} (h : ∀ m ∈ rows, m.timestamp ≤ maxDate) :
    ∃ data, rows.mapM formatMessageForTool = .ok data := by
  induction rows with
  | nil => exact ⟨[], rfl⟩
  | cons m rows ih =>
    obtain ⟨data, hdata⟩ := ih fun n hn => h n (.tail _ hn)
    rw [List.mapM_cons]
    unfold formatMessageForTool
    rw [if_pos (h m (.head _))]
    refine ⟨⟨m.senderName, m.content.getD "[no content]", m.timestamp, m.isFromMe⟩ :: data, ?_⟩
    show (List.mapM formatMessageForTool rows >>= _) = _
    rw [hdata]
    rfl

/-- The messages of a summary are shown when each has a date, and an error is when one has none. -/
theorem gives_messages {r : SemanticRow} (h : Named e args "memory_id" r.id) (hr : r ∈ u.semantics)
    (htype : r.memoryType = .summary) (hd : r.depth = 0)
    (hdated : ∀ m ∈ messagesOf u.toTables r.id, m.timestamp ≤ maxDate) :
    ∃ data, Gives e p .expandMemory args u.toTables (.ok (.messages data)) := by
  obtain ⟨rows, hrows⟩ := byTimestamp_exists (messagesOf u.toTables r.id)
  obtain ⟨data, hdata⟩ := format_dated fun m hm => hdated m (hrows.1.mem_iff.mp hm)
  refine ⟨data, (gives_expandMemory h _).mpr ⟨nofun, ?_⟩⟩
  rw [can_expandMemory hr, if_pos htype, if_pos hd, can_perform]
  refine ⟨rows, hrows, ?_⟩
  show Can _ _ ((fromExcept (rows.mapM formatMessageForTool)).bind fun data => .ret (ToolResult.messages data)) _
  rw [hdata]
  rfl

theorem gives_no_date {r : SemanticRow} (h : Named e args "memory_id" r.id) (hr : r ∈ u.semantics)
    (htype : r.memoryType = .summary) (hd : r.depth = 0) (hbad : ∃ m ∈ messagesOf u.toTables r.id, maxDate < m.timestamp)
    {x : Except (Exn Query) ToolResult} (hx : Gives e p .expandMemory args u.toTables x) :
    x = .error (.error "Invalid time value") := by
  rw [gives_expandMemory h, can_expandMemory hr, if_pos htype, if_pos hd] at hx
  exact (undated_throws hbad x).mp hx.2

theorem gives_sources {m : MetaRow} (h : Named e args "meta_id" m.id) (hm : m ∈ u.metas) (hd : m.depth = 0)
    (x : Except (Exn Query) ToolResult) :
    Gives e p .expandMeta args u.toTables x ↔
      ∃ rows, Ordered byCreation (sourcesOf u.toTables m.id) rows ∧ x = .ok (.semanticSources (rows.map sourceItem)) := by
  rw [gives_expandMeta h, can_expandMeta hm, if_pos hd]
  exact shows_rows

theorem gives_children {m : MetaRow} (h : Named e args "meta_id" m.id) (hm : m ∈ u.metas) (hd : m.depth ≠ 0)
    (x : Except (Exn Query) ToolResult) :
    Gives e p .expandMeta args u.toTables x ↔
      ∃ rows, Ordered byDepth (childMetasOf u.toTables m.id) rows ∧ x = .ok (.childMetas (rows.map childItem)) := by
  rw [gives_expandMeta h, can_expandMeta hm, if_neg hd]
  exact shows_rows

theorem byEarliest_exists (rows : List SemanticRow) : ∃ a, Ordered byEarliest rows a := by
  refine ordered_exists ?_ ?_ rows
  · intro a b c hab hbc
    unfold byEarliest at *
    cases ha : a.earliestAt <;> cases hb : b.earliestAt <;> cases hc : c.earliestAt <;>
      simp only [ha, hb, hc, decide_eq_true_eq, reduceCtorEq] at *
    omega
  · intro a b
    unfold byEarliest
    cases a.earliestAt <;> cases b.earliestAt <;> simp
    omega

theorem byCreation_exists (rows : List SemanticRow) : ∃ a, Ordered byCreation rows a := by
  refine ordered_exists ?_ ?_ rows
  · intro a b c hab hbc
    simp only [byCreation, decide_eq_true_eq] at *
    omega
  · intro a b
    simp only [byCreation, Bool.or_eq_true, decide_eq_true_eq]
    omega

theorem byDepth_exists (rows : List MetaRow) : ∃ a, Ordered byDepth rows a := by
  refine ordered_exists ?_ ?_ rows
  · intro a b c hab hbc
    simp only [byDepth, decide_eq_true_eq] at *
    omega
  · intro a b
    simp only [byDepth, Bool.or_eq_true, decide_eq_true_eq]
    omega

end Shown

/-! ## What a trace shows -/

section Traced

variable {e : Engine} {p : Nat} {s u : Db} {d : Disguise}

theorem dedupe_mem {seen : List Nat} {rows : List SemanticRow} {r : SemanticRow} (h : r ∈ dedupe seen rows) : r ∈ rows := by
  induction rows generalizing seen with
  | nil => cases h
  | cons q rows ih =>
    unfold dedupe at h
    split at h
    · exact .tail _ (ih h)
    · rcases List.mem_cons.mp h with rfl | h
      · exact .head _
      · exact .tail _ (ih h)

theorem dedupe_keeps {seen : List Nat} {rows : List SemanticRow} {r : SemanticRow} (h : r ∈ rows) (hseen : r.id ∉ seen) :
    ∃ q ∈ dedupe seen rows, q.id = r.id := by
  induction rows generalizing seen with
  | nil => cases h
  | cons q rows ih =>
    unfold dedupe
    by_cases hq : q.id ∈ seen
    · rw [if_pos hq]
      rcases List.mem_cons.mp h with rfl | h
      · exact (hseen hq).elim
      · exact ih h hseen
    · rw [if_neg hq]
      by_cases hid : q.id = r.id
      · exact ⟨q, .head _, hid⟩
      · rcases List.mem_cons.mp h with rfl | h
        · exact (hid rfl).elim
        · have hnew : r.id ∉ q.id :: seen := by simp [hseen, Ne.symm hid]
          obtain ⟨r', hr', heq⟩ := ih h hnew
          exact ⟨r', .tail _ hr', heq⟩

theorem expandMeta_sources {t : Tables} {id : Nat} {rows : List SemanticRow}
    (h : Can (Answers e) t (expandMetaMemory id) (.ok (.sourceSemantics rows))) :
    Ordered byCreation (sourcesOf t id) rows := by
  obtain ⟨depth, -, hrest⟩ := h
  cases depth with
  | none => cases hrest
  | some depth =>
    change Can (Answers e) t (if depth = 0 then _ else _) _ at hrest
    split at hrest
    · obtain ⟨rows', hrows, hend⟩ := hrest
      cases hend
      exact hrows
    · obtain ⟨rows', -, hend⟩ := hrest
      cases hend

/-- More fuel changes no trace that ended. -/
theorem trace_mono {t : Tables} {fuel fuel' id : Nat} (hle : fuel ≤ fuel') {rows : List SemanticRow}
    (h : Can (Answers e) t (traceMetaToSources fuel id) (.ok rows)) :
    Can (Answers e) t (traceMetaToSources fuel' id) (.ok rows) := by
  induction fuel generalizing fuel' id rows with
  | zero => cases h
  | succ fuel ih =>
    cases fuel' with
    | zero => omega
    | succ fuel' =>
      obtain ⟨x, hx, hsources⟩ := can_bind_ok.mp h
      refine can_bind_ok.mpr ⟨x, hx, ?_⟩
      cases x with
      | nothing => exact hsources
      | sourceSemantics _ => exact hsources
      | childMetas children =>
        obtain ⟨all, hall, hend⟩ := can_bind_ok.mp hsources
        exact can_bind_ok.mpr ⟨all, forConcat_can_of hall fun c _ ys hys => ih (by omega) hys, hend⟩

theorem Traces.sources {m : MetaRow} (hm : m ∈ u.metas) (hd : m.depth = 0) {rows : List SemanticRow}
    (h : Ordered byCreation (sourcesOf u.toTables m.id) rows) : Traces e u.toTables m.id rows := by
  refine ⟨1, ?_⟩
  show Can (Answers e) u.toTables ((expandMetaMemory m.id).bind fun x => x.sources (traceMetaToSources 0)) _
  rw [can_expandMeta hm, if_pos hd, can_perform]
  exact ⟨rows, h, rfl⟩

/-- Where every child's trace ends, the entry's does. -/
theorem Traces.children {m : MetaRow} (hm : m ∈ u.metas) (hd : m.depth ≠ 0)
    (h : ∀ c ∈ childMetasOf u.toTables m.id, ∃ rows, Traces e u.toTables c.id rows) :
    ∃ rows, Traces e u.toTables m.id rows := by
  obtain ⟨children, hchildren⟩ := byDepth_exists (childMetasOf u.toTables m.id)
  have hbound : ∃ fuel, ∀ c ∈ children, ∃ rows, Can (Answers e) u.toTables (traceMetaToSources fuel c.id) (.ok rows) := by
    have hends : ∀ c ∈ children, ∃ rows, Traces e u.toTables c.id rows := fun c hc => h c (hchildren.1.mem_iff.mp hc)
    clear hchildren
    induction children with
    | nil => exact ⟨0, nofun⟩
    | cons c children ih =>
      obtain ⟨fuel, hfuel⟩ := ih fun c hc => hends c (.tail _ hc)
      obtain ⟨rows, n, hrows⟩ := hends c (.head _)
      refine ⟨max fuel n, fun c' hc' => ?_⟩
      rcases List.mem_cons.mp hc' with rfl | hc'
      · exact ⟨rows, trace_mono (le_max_right fuel n) hrows⟩
      · obtain ⟨rows', hrows'⟩ := hfuel c' hc'
        exact ⟨rows', trace_mono (le_max_left fuel n) hrows'⟩
  obtain ⟨fuel, hfuel⟩ := hbound
  obtain ⟨all, hall⟩ := forConcat_can hfuel
  refine ⟨dedupe [] all, fuel + 1, ?_⟩
  show Can (Answers e) u.toTables ((expandMetaMemory m.id).bind fun x => x.sources (traceMetaToSources fuel)) _
  rw [can_expandMeta hm, if_neg hd, can_perform]
  exact ⟨children, hchildren, can_bind_ok.mpr ⟨all, hall, rfl⟩⟩

/-- An ended trace of an entry above depth 0 has what its children's traces have. -/
theorem Traces.child {m c : MetaRow} (hm : m ∈ u.metas) (hd : m.depth ≠ 0) (hc : c ∈ childMetasOf u.toTables m.id)
    {rows : List SemanticRow} (h : Traces e u.toTables m.id rows) :
    ∃ ys, Traces e u.toTables c.id ys ∧ ∀ y ∈ ys, ∃ r ∈ rows, r.id = y.id := by
  obtain ⟨fuel, h⟩ := h
  cases fuel with
  | zero => cases h
  | succ fuel =>
    change Can (Answers e) u.toTables ((expandMetaMemory m.id).bind fun x => x.sources (traceMetaToSources fuel)) _ at h
    rw [can_expandMeta hm, if_neg hd, can_perform] at h
    obtain ⟨children, hchildren, h⟩ := h
    obtain ⟨all, hall, hend⟩ := can_bind_ok.mp h
    obtain rfl : rows = dedupe [] all := Except.ok.inj hend
    obtain ⟨ys, hys, hin⟩ := (can_forConcat hall).1 c (hchildren.1.mem_iff.mpr hc)
    exact ⟨ys, ⟨fuel, hys⟩, fun y hy => dedupe_keeps (hin y hy) List.not_mem_nil⟩

theorem Traces.of_sources {m : MetaRow} (hm : m ∈ u.metas) (hd : m.depth = 0) {rows : List SemanticRow}
    (h : Traces e u.toTables m.id rows) : Ordered byCreation (sourcesOf u.toTables m.id) rows := by
  obtain ⟨fuel, h⟩ := h
  cases fuel with
  | zero => cases h
  | succ fuel =>
    change Can (Answers e) u.toTables ((expandMetaMemory m.id).bind fun x => x.sources (traceMetaToSources fuel)) _ at h
    rw [can_expandMeta hm, if_pos hd, can_perform] at h
    obtain ⟨sources, hsources, hend⟩ := h
    obtain rfl : rows = sources := Except.ok.inj hend
    exact hsources

/-- What is traced is there. -/
theorem Traces.mem {id : Nat} {rows : List SemanticRow} (h : Traces e u.toTables id rows) {r : SemanticRow} (hr : r ∈ rows) :
    r ∈ u.semantics := by
  obtain ⟨fuel, h⟩ := h
  induction fuel generalizing id rows r with
  | zero => cases h
  | succ fuel ih =>
    obtain ⟨x, hx, hsources⟩ := can_bind_ok.mp h
    cases x with
    | nothing =>
      obtain rfl : rows = [] := Except.ok.inj hsources
      cases hr
    | sourceSemantics sources =>
      obtain rfl : rows = sources := Except.ok.inj hsources
      exact (mem_sourcesOf.mp ((expandMeta_sources hx).1.mem_iff.mp hr)).1
    | childMetas children =>
      obtain ⟨all, hall, hend⟩ := can_bind_ok.mp hsources
      obtain rfl : rows = dedupe [] all := Except.ok.inj hend
      obtain ⟨c, _, ys, hys, hin⟩ := (can_forConcat hall).2 r (dedupe_mem hr)
      exact ih hin hys

end Traced

section Shown

variable {e : Engine} {p : Nat} {args : Json} {s : Db} {d d' : Disguise}

/-- An entry of another profile has the added source. -/
theorem foreign_source (hd : d.Fresh p s.toTables) {c : MetaRow} (hc : c ∈ (disguise d p s hd).metas)
    (hforeign : ¬OwnMeta p s.toTables c.id) : d.newSemantic ∈ sourcesOf (disguise d p s hd).toTables c.id := by
  refine mem_sourcesOf.mpr ⟨.head _, Disguise.mem_metaSources.mpr ?_⟩
  rcases mem_metas hc with rfl | ⟨m, hm, rfl⟩
  · exact Or.inl rfl
  · refine Or.inr (Or.inl ⟨m, hm, ?_, by rw [Disguise.entry_id]; rfl⟩)
    intro hp
    rw [Disguise.entry_id] at hforeign
    exact hforeign ⟨m, hm, rfl, hp⟩

theorem newSemantic_foreign (hd : d.Fresh p s.toTables) : ¬OwnSemantic p s.toTables d.newSemantic.id := by
  intro h
  obtain ⟨r, hr, hid, -⟩ := h
  exact hd.semanticId (List.mem_map.mpr ⟨r, hr, hid⟩)

theorem foreign_shows (hd : d.Fresh p s.toTables) (hzero : d.metaDepth = 0) {c : MetaRow}
    (hc : c ∈ (disguise d p s hd).metas) (hforeign : ¬OwnMeta p s.toTables c.id) {rows : List SemanticRow}
    (h : Traces e (disguise d p s hd).toTables c.id rows) : ∃ r ∈ rows, ¬OwnSemantic p s.toTables r.id := by
  have hdepth : c.depth = 0 := by rw [(disguised_meta hd hc hforeign).2, hzero]
  exact ⟨d.newSemantic, (h.of_sources hc hdepth).1.mem_iff.mpr (foreign_source hd hc hforeign), newSemantic_foreign hd⟩

theorem foreign_traces (hd : d.Fresh p s.toTables) (hzero : d.metaDepth = 0) {c : MetaRow}
    (hc : c ∈ (disguise d p s hd).metas) (hforeign : ¬OwnMeta p s.toTables c.id) :
    ∃ rows, Traces e (disguise d p s hd).toTables c.id rows := by
  have hdepth : c.depth = 0 := by rw [(disguised_meta hd hc hforeign).2, hzero]
  obtain ⟨rows, hrows⟩ := byCreation_exists (sourcesOf (disguise d p s hd).toTables c.id)
  exact ⟨rows, Traces.sources hc hdepth hrows⟩

/-- The foreign entries have no children in the disguise, so a trace ends where it does among
    the entries of `p`. -/
theorem own_traces (hd : d.Fresh p s.toTables) (hzero : d.metaDepth = 0) {id : Nat} (hown : OwnMeta p s.toTables id)
    (hacc : Acc (OwnChild p s.toTables) id) : ∃ rows, Traces e (disguise d p s hd).toTables id rows := by
  induction hacc with
  | intro id _ ih =>
    obtain ⟨m, hm, rfl, hp⟩ := hown
    have hm' : m ∈ (disguise d p s hd).metas := ((disguise_agrees hd).metas m hp).mp hm
    by_cases hdepth : m.depth = 0
    · obtain ⟨rows, hrows⟩ := byCreation_exists (sourcesOf (disguise d p s hd).toTables m.id)
      exact ⟨rows, Traces.sources hm' hdepth hrows⟩
    · refine Traces.children hm' hdepth fun c hc => ?_
      obtain ⟨hcm, hedge⟩ := mem_childMetasOf.mp hc
      by_cases hc' : OwnMeta p s.toTables c.id
      · have hedge' := ((disguise_agrees hd).metaParents (m.id, c.id) (Or.inr hc')).mpr hedge
        exact ih c.id ⟨hc', hedge', m, hm, rfl, hp, hdepth⟩ hc'
      · exact foreign_traces hd hzero hcm hc'

theorem disguised_foreign {r : SemanticRow} (hr : r ∈ s.semantics) (hforeign : r.profileId ≠ p) :
    ¬OwnSemantic p s.toTables (d.semantic p r).id := by
  rw [Disguise.semantic_id]
  exact not_ownSemantic hr hforeign

theorem disguised_foreign_entry {m : MetaRow} (hm : m ∈ s.metas) (hforeign : m.profileId ≠ p) :
    ¬OwnMeta p s.toTables (d.entry p m).id := by
  rw [Disguise.entry_id]
  exact not_ownMeta hm hforeign

theorem leaks_shows (hd : d.Fresh p s.toTables) (hzero : d.metaDepth = 0) {id : Nat} (hleaks : Leaks p s.toTables id)
    {rows : List SemanticRow} (h : Traces e (disguise d p s hd).toTables id rows) :
    ∃ r ∈ rows, ¬OwnSemantic p s.toTables r.id := by
  have hagree := disguise_agrees hd
  induction hleaks generalizing rows with
  | @source m r hm hp hdepth hr hforeign =>
    have hsources := h.of_sources ((hagree.metas m hp).mp hm) hdepth
    refine ⟨d.semantic p r, hsources.1.mem_iff.mpr (sourcesOf_disguise hr), ?_⟩
    exact disguised_foreign (mem_sourcesOf.mp hr).1 hforeign
  | @child m c hm hp hdepth hc hforeign =>
    have hin := (mem_childMetasOf.mp hc).1
    obtain ⟨ys, hys, hkept⟩ := h.child ((hagree.metas m hp).mp hm) hdepth (childMetasOf_disguise hc)
    obtain ⟨y, hy, hown⟩ := foreign_shows hd hzero (entry_mem hin) (disguised_foreign_entry hin hforeign) hys
    obtain ⟨r, hr, hid⟩ := hkept y hy
    exact ⟨r, hr, by rw [hid]; exact hown⟩
  | @deeper m c hm hp hdepth hc hcp _ ih =>
    have hchild : c ∈ childMetasOf (disguise d p s hd).toTables m.id := by
      have hin := childMetasOf_disguise (d := d) (p := p) hc
      rw [Disguise.entry_own hcp] at hin
      exact hin
    obtain ⟨ys, hys, hkept⟩ := h.child ((hagree.metas m hp).mp hm) hdepth hchild
    obtain ⟨y, hy, hown⟩ := ih hys
    obtain ⟨r, hr, hid⟩ := hkept y hy
    exact ⟨r, hr, by rw [hid]; exact hown⟩

theorem map_eq_mem {α β : Type} {f : α → β} {xs ys : List α} (h : xs.map f = ys.map f) {x : α} (hx : x ∈ xs) :
    ∃ y ∈ ys, f y = f x := by
  have hmem : f x ∈ ys.map f := h ▸ List.mem_map_of_mem hx
  exact List.mem_map.mp hmem

/-- Two rows under one id that is not `p`'s show the two contents. -/
theorem content_differs (hd : d.Fresh p s.toTables) (hd' : d'.Fresh p s.toTables) (hne : d.content ≠ d'.content)
    {r r' : SemanticRow} (hr : r ∈ (disguise d p s hd).semantics) (hr' : r' ∈ (disguise d' p s hd').semantics)
    (hforeign : ¬OwnSemantic p s.toTables r.id) (hid : r'.id = r.id) (hcontent : r'.content = r.content) : False := by
  have hshown := (disguised_semantic hd hr hforeign).1
  rw [← hid] at hforeign
  have hshown' := (disguised_semantic hd' hr' hforeign).1
  rw [← hshown, ← hshown', hcontent] at hne
  exact hne rfl

theorem entry_differs (hd : d.Fresh p s.toTables) (hd' : d'.Fresh p s.toTables) (hne : d.content ≠ d'.content)
    {m m' : MetaRow} (hm : m ∈ (disguise d p s hd).metas) (hm' : m' ∈ (disguise d' p s hd').metas)
    (hforeign : ¬OwnMeta p s.toTables m.id) (hid : m'.id = m.id) (hcontent : m'.content = m.content) : False := by
  have hshown := (disguised_meta hd hm hforeign).1
  rw [← hid] at hforeign
  have hshown' := (disguised_meta hd' hm' hforeign).1
  rw [← hshown, ← hshown', hcontent] at hne
  exact hne rfl

theorem trace_told_apart (hd : d.Fresh p s.toTables) (hd' : d'.Fresh p s.toTables) (hne : d.content ≠ d'.content)
    {id : Nat} (hn : Named e args "meta_id" id) {rows : List SemanticRow}
    (h : Traces e (disguise d p s hd).toTables id rows) (hforeign : ∃ r ∈ rows, ¬OwnSemantic p s.toTables r.id) :
    ¬Same e p .traceToSource args (disguise d p s hd).toTables (disguise d' p s hd').toTables := by
  intro hsame
  obtain ⟨r, hr, hforeign⟩ := hforeign
  have hgives := (hsame _).mp ((gives_trace hn _).mpr ⟨rows, h, rfl⟩)
  obtain ⟨rows', h', heq⟩ := (gives_trace hn _).mp hgives
  obtain ⟨-, hitems⟩ := ToolResult.traced.inj (Except.ok.inj heq)
  obtain ⟨r', hr', hitem⟩ := map_eq_mem hitems hr
  exact content_differs hd hd' hne (h.mem hr) (h'.mem hr') hforeign (SourceItem.mk.inj hitem).1 (SourceItem.mk.inj hitem).2.1

theorem disguised_message {m : Message} (hm : m ∈ (d.tables p s.toTables).messages) (h : ¬OwnChat p s.toTables m.chatId) :
    m.timestamp = d.timestamp := by
  obtain ⟨n, -, rfl⟩ := List.mem_map.mp hm
  rw [Disguise.message_chatId] at h
  unfold Disguise.message
  rw [if_neg fun hown => h (Disguise.isOwnChat_iff.mp hown)]

end Shown

/-! ## Calls that are not confined -/

section NotConfined

variable {e : Engine} {p : Nat} {tool : Tool} {args : Json} {s : Db} {d d' : Disguise}

theorem same_disguises (h : ∀ t : Db, Agree p s.toTables t.toTables → Same e p tool args s.toTables t.toTables)
    (hd : d.Fresh p s.toTables) (hd' : d'.Fresh p s.toTables) :
    Same e p tool args (disguise d p s hd).toTables (disguise d' p s hd').toTables :=
  fun r => (h _ (disguise_agrees hd) r).symm.trans (h _ (disguise_agrees hd') r)

/-- An id that is not the profile's: in one disguise it is a summary, in another a fact. -/
theorem summary_own (h : ∀ t : Db, Agree p s.toTables t.toTables → Same e p .expandMemory args s.toTables t.toTables)
    {id : Nat} (hn : Named e args "memory_id" id) : OwnSemantic p s.toTables id := by
  by_contra hforeign
  obtain ⟨d, hd, hid, -⟩ := fresh_exists p s.toTables id
  have hsummary := hd.columns "" .summary 1 0 0
  have hfact := hd.columns "" .fact 1 0 0
  obtain ⟨r, hr, rfl⟩ := disguised_row hsummary hid
  obtain ⟨r', hr', hid'⟩ := disguised_row hfact hid
  obtain ⟨-, htype, hdepth⟩ := disguised_semantic hsummary hr hforeign
  have hdeep : r.depth ≠ 0 := by
    rw [hdepth]
    exact Nat.one_ne_zero
  have htype' : r'.memoryType = .fact := (disguised_semantic hfact hr' (hid' ▸ hforeign)).2.1
  obtain ⟨rows, hrows⟩ := byEarliest_exists (childrenOf (disguise (d.columns "" .summary 1 0 0) p s hsummary).toTables r.id)
  have hgives := (gives_summaries (p := p) hn hr htype hdeep _).mpr ⟨rows, hrows, rfl⟩
  have hgives' := (same_disguises h hsummary hfact _).mp hgives
  have hn' : Named e args "memory_id" r'.id := hid' ▸ hn
  have hnothing := (gives_nothing hn' hr' (by rw [htype']; decide) _).mp hgives'
  cases hnothing

/-- Without an undated message of the profile's, a foreign one that is dated in one disguise and
    not in the other decides whether the call throws. -/
theorem summary_messages (h : ∀ t : Db, Agree p s.toTables t.toTables → Same e p .expandMemory args s.toTables t.toTables)
    {r : SemanticRow} (hn : Named e args "memory_id" r.id) (hr : r ∈ s.semantics) (hp : r.profileId = p)
    (htype : r.memoryType = .summary) (hdepth : r.depth = 0)
    (hdated : ∀ m ∈ messagesOf s.toTables r.id, OwnChat p s.toTables m.chatId → m.timestamp ≤ maxDate) :
    ∀ m ∈ messagesOf s.toTables r.id, OwnChat p s.toTables m.chatId := by
  intro m hm
  by_contra hforeign
  obtain ⟨d, hd, -⟩ := fresh_exists p s.toTables r.id
  have hearly := hd.columns "" .fact 0 0 0
  have hlate := hd.columns "" .fact 0 0 (maxDate + 1)
  have hr₁ := ((disguise_agrees hearly).semantics r hp).mp hr
  have hr₂ := ((disguise_agrees hlate).semantics r hp).mp hr
  have hall : ∀ n ∈ messagesOf (disguise (d.columns "" .fact 0 0 0) p s hearly).toTables r.id, n.timestamp ≤ maxDate := by
    intro n hmem
    obtain ⟨hin, hedge⟩ := mem_messagesOf.mp hmem
    by_cases hown : OwnChat p s.toTables n.chatId
    · exact hdated n (mem_messagesOf.mpr ⟨((disguise_agrees hearly).messages n hown).mpr hin, hedge⟩) hown
    · have hzero : n.timestamp = 0 := disguised_message hin hown
      omega
  obtain ⟨data, hdata⟩ := gives_messages (p := p) hn hr₁ htype hdepth hall
  have hgives := (same_disguises h hearly hlate _).mp hdata
  have hbad : ∃ n ∈ messagesOf (disguise (d.columns "" .fact 0 0 (maxDate + 1)) p s hlate).toTables r.id,
      maxDate < n.timestamp := by
    obtain ⟨hin, hedge⟩ := mem_messagesOf.mp hm
    have hin' := List.mem_map_of_mem (f := (d.columns "" .fact 0 0 (maxDate + 1)).message p s.toTables) hin
    refine ⟨_, mem_messagesOf.mpr ⟨hin', by rw [Disguise.message_key]; exact hedge⟩, ?_⟩
    rw [disguised_message hin' (by rw [Disguise.message_chatId]; exact hforeign)]
    exact Nat.lt_succ_self maxDate
  cases gives_no_date hn hr₂ htype hdepth hbad hgives

theorem summary_children (h : ∀ t : Db, Agree p s.toTables t.toTables → Same e p .expandMemory args s.toTables t.toTables)
    {r : SemanticRow} (hn : Named e args "memory_id" r.id) (hr : r ∈ s.semantics) (hp : r.profileId = p)
    (htype : r.memoryType = .summary) (hdepth : r.depth ≠ 0) : ∀ c ∈ childrenOf s.toTables r.id, c.profileId = p := by
  intro c hc
  by_contra hforeign
  obtain ⟨d, hd, -⟩ := fresh_exists p s.toTables r.id
  have hzero := hd.columns "0" .fact 0 0 0
  have hone := hd.columns "1" .fact 0 0 0
  have hr₁ := ((disguise_agrees hzero).semantics r hp).mp hr
  have hr₂ := ((disguise_agrees hone).semantics r hp).mp hr
  have hin := (mem_childrenOf.mp hc).1
  obtain ⟨rows, hrows⟩ := byEarliest_exists (childrenOf (disguise (d.columns "0" .fact 0 0 0) p s hzero).toTables r.id)
  have hshown := hrows.1.mem_iff.mpr (childrenOf_disguise hc)
  have hgives := (gives_summaries (p := p) hn hr₁ htype hdepth _).mpr ⟨rows, hrows, rfl⟩
  obtain ⟨rows', hrows', heq⟩ := (gives_summaries hn hr₂ htype hdepth _).mp ((same_disguises h hzero hone _).mp hgives)
  obtain ⟨c', hc', hitem⟩ := map_eq_mem (ToolResult.summaries.inj (Except.ok.inj heq)) hshown
  have hin' := (mem_childrenOf.mp (hrows'.1.mem_iff.mp hc')).1
  exact content_differs hzero hone (show "0" ≠ "1" by decide) (semantic_mem hin) hin' (disguised_foreign hin hforeign)
    (SummaryItem.mk.inj hitem).1 (SummaryItem.mk.inj hitem).2.1

theorem summary_confined (h : ∀ t : Db, Agree p s.toTables t.toTables → Same e p .expandMemory args s.toTables t.toTables)
    {id : Nat} (hn : Named e args "memory_id" id) : SummaryConfined p s.toTables id := by
  obtain ⟨r, hr, rfl, hp⟩ := summary_own h hn
  refine ⟨r, hr, rfl, hp, fun htype => ⟨fun hdepth => ?_, summary_children h hn hr hp htype⟩⟩
  by_cases hundated : ∃ m ∈ messagesOf s.toTables r.id, OwnChat p s.toTables m.chatId ∧ maxDate < m.timestamp
  · exact Or.inr hundated
  · refine Or.inl (summary_messages h hn hr hp htype hdepth fun m hm hown => ?_)
    by_contra hlate
    exact hundated ⟨m, hm, hown, by omega⟩

/-- An id that is not the profile's: at depth 0 its sources are shown, above it its children. -/
theorem meta_own (h : ∀ t : Db, Agree p s.toTables t.toTables → Same e p .expandMeta args s.toTables t.toTables)
    {id : Nat} (hn : Named e args "meta_id" id) : OwnMeta p s.toTables id := by
  by_contra hforeign
  obtain ⟨d, hd, -, hid⟩ := fresh_exists p s.toTables id
  have hzero := hd.columns "" .fact 0 0 0
  have hone := hd.columns "" .fact 0 1 0
  obtain ⟨m, hm, rfl⟩ := disguised_entry hzero hid
  obtain ⟨m', hm', hid'⟩ := disguised_entry hone hid
  have hdepth := (disguised_meta hzero hm hforeign).2
  have hdepth' : m'.depth = 1 := (disguised_meta hone hm' (hid' ▸ hforeign)).2
  obtain ⟨rows, hrows⟩ := byCreation_exists (sourcesOf (disguise (d.columns "" .fact 0 0 0) p s hzero).toTables m.id)
  have hgives := (gives_sources (p := p) hn hm hdepth _).mpr ⟨rows, hrows, rfl⟩
  have hn' : Named e args "meta_id" m'.id := hid' ▸ hn
  obtain ⟨rows', -, heq⟩ := (gives_children hn' hm' (by rw [hdepth']; decide) _).mp
    ((same_disguises h hzero hone _).mp hgives)
  cases heq

theorem meta_sources (h : ∀ t : Db, Agree p s.toTables t.toTables → Same e p .expandMeta args s.toTables t.toTables)
    {m : MetaRow} (hn : Named e args "meta_id" m.id) (hm : m ∈ s.metas) (hp : m.profileId = p) (hdepth : m.depth = 0) :
    ∀ r ∈ sourcesOf s.toTables m.id, r.profileId = p := by
  intro r hr
  by_contra hforeign
  obtain ⟨d, hd, -⟩ := fresh_exists p s.toTables m.id
  have hzero := hd.columns "0" .fact 0 0 0
  have hone := hd.columns "1" .fact 0 0 0
  have hm₁ := ((disguise_agrees hzero).metas m hp).mp hm
  have hm₂ := ((disguise_agrees hone).metas m hp).mp hm
  have hin := (mem_sourcesOf.mp hr).1
  obtain ⟨rows, hrows⟩ := byCreation_exists (sourcesOf (disguise (d.columns "0" .fact 0 0 0) p s hzero).toTables m.id)
  have hshown := hrows.1.mem_iff.mpr (sourcesOf_disguise hr)
  have hgives := (gives_sources (p := p) hn hm₁ hdepth _).mpr ⟨rows, hrows, rfl⟩
  obtain ⟨rows', hrows', heq⟩ := (gives_sources hn hm₂ hdepth _).mp ((same_disguises h hzero hone _).mp hgives)
  obtain ⟨r', hr', hitem⟩ := map_eq_mem (ToolResult.semanticSources.inj (Except.ok.inj heq)) hshown
  have hin' := (mem_sourcesOf.mp (hrows'.1.mem_iff.mp hr')).1
  exact content_differs hzero hone (show "0" ≠ "1" by decide) (semantic_mem hin) hin' (disguised_foreign hin hforeign)
    (SourceItem.mk.inj hitem).1 (SourceItem.mk.inj hitem).2.1

theorem meta_children (h : ∀ t : Db, Agree p s.toTables t.toTables → Same e p .expandMeta args s.toTables t.toTables)
    {m : MetaRow} (hn : Named e args "meta_id" m.id) (hm : m ∈ s.metas) (hp : m.profileId = p) (hdepth : m.depth ≠ 0) :
    ∀ c ∈ childMetasOf s.toTables m.id, c.profileId = p := by
  intro c hc
  by_contra hforeign
  obtain ⟨d, hd, -⟩ := fresh_exists p s.toTables m.id
  have hzero := hd.columns "0" .fact 0 0 0
  have hone := hd.columns "1" .fact 0 0 0
  have hm₁ := ((disguise_agrees hzero).metas m hp).mp hm
  have hm₂ := ((disguise_agrees hone).metas m hp).mp hm
  have hin := (mem_childMetasOf.mp hc).1
  obtain ⟨rows, hrows⟩ := byDepth_exists (childMetasOf (disguise (d.columns "0" .fact 0 0 0) p s hzero).toTables m.id)
  have hshown := hrows.1.mem_iff.mpr (childMetasOf_disguise hc)
  have hgives := (gives_children (p := p) hn hm₁ hdepth _).mpr ⟨rows, hrows, rfl⟩
  obtain ⟨rows', hrows', heq⟩ := (gives_children hn hm₂ hdepth _).mp ((same_disguises h hzero hone _).mp hgives)
  obtain ⟨c', hc', hitem⟩ := map_eq_mem (ToolResult.childMetas.inj (Except.ok.inj heq)) hshown
  have hin' := (mem_childMetasOf.mp (hrows'.1.mem_iff.mp hc')).1
  exact entry_differs hzero hone (show "0" ≠ "1" by decide) (entry_mem hin) hin' (disguised_foreign_entry hin hforeign)
    (ChildItem.mk.inj hitem).1 (ChildItem.mk.inj hitem).2.1

theorem meta_confined (h : ∀ t : Db, Agree p s.toTables t.toTables → Same e p .expandMeta args s.toTables t.toTables)
    {id : Nat} (hn : Named e args "meta_id" id) : MetaConfined p s.toTables id := by
  obtain ⟨m, hm, rfl, hp⟩ := meta_own h hn
  exact ⟨m, hm, rfl, hp, meta_sources h hn hm hp, meta_children h hn hm hp⟩

theorem trace_confined (h : ∀ t : Db, Agree p s.toTables t.toTables → Same e p .traceToSource args s.toTables t.toTables)
    {id : Nat} (hn : Named e args "meta_id" id) : TraceConfined p s.toTables id := by
  obtain ⟨d, hd, -, hid⟩ := fresh_exists p s.toTables id
  have hzero := hd.columns "0" .fact 0 0 0
  have hone := hd.columns "1" .fact 0 0 0
  have hsame := same_disguises h hzero hone
  have hown : OwnMeta p s.toTables id := by
    by_contra hforeign
    obtain ⟨m, hm, rfl⟩ := disguised_entry hzero hid
    obtain ⟨rows, hrows⟩ := foreign_traces hzero rfl hm hforeign
    exact trace_told_apart hzero hone (show "0" ≠ "1" by decide) hn hrows (foreign_shows hzero rfl hm hforeign hrows) hsame
  refine ⟨hown, fun hacc hleaks => ?_⟩
  obtain ⟨rows, hrows⟩ := own_traces hzero rfl hown hacc
  exact trace_told_apart hzero hone (show "0" ≠ "1" by decide) hn hrows (leaks_shows hzero rfl hleaks hrows) hsame

/-- A call gives the same whatever the other profiles' rows are just if it is confined. -/
theorem same_iff_confined (e : Engine) (p : Nat) (tool : Tool) (args : Json) (s : Db) :
    (∀ t : Db, Agree p s.toTables t.toTables → Same e p tool args s.toTables t.toTables) ↔
      Confined e p s.toTables args tool := by
  constructor
  · intro h
    cases tool with
    | searchSemantic => trivial
    | searchExternal => trivial
    | searchMeta => trivial
    | expandMemory => exact fun id hn => summary_confined h hn
    | expandMeta => exact fun id hn => meta_confined h hn
    | traceToSource => exact fun id hn => trace_confined h hn
  · intro hc t hagree
    exact same_of_confined hagree hc

end NotConfined

/-! ## The summary of another profile -/

def codesId : String := "00000000-0000-4000-8000-000000000007"

/-- What reads one UUID; nothing is searched. -/
def codesEngine : Engine where
  embed _ := .error "no embedding"
  similarity _ _ := 0
  score similarity _ _ := similarity
  uuid v := if v.text? = some (Js.ofString codesId) then .ok 7 else .error "invalid input syntax for type uuid"
  candidateMultiplier := 3
  externalSimilarityThreshold := 3 / 10

/-- Two profiles; the second has a summary of a summary. -/
def homeCodes : Db where
  profiles := [⟨1, "work", none, true, 1, 1⟩, ⟨2, "home", none, false, 1, 1⟩]
  chats := []
  sessions := []
  messages := []
  identities := []
  personalities := []
  semantics := [⟨7, "codes", [1], .summary, 1, 1, 2, none, 2, none, none, 4, 4, 4, 0⟩,
    ⟨8, "the door opens with 4711", [1], .summary, 1, 0, 2, none, 2, none, none, 4, 4, 4, 0⟩]
  metas := []
  externals := []
  messageSources := []
  parentSources := [(7, 8)]
  metaSources := []
  metaParents := []
  valid := by decide

def noCodes : Db where
  profiles := homeCodes.profiles
  chats := []
  sessions := []
  messages := []
  identities := []
  personalities := []
  semantics := []
  metas := []
  externals := []
  messageSources := []
  parentSources := []
  metaSources := []
  metaParents := []
  valid := by decide

def codesArgs : Json := .obj [(Js.ofString "memory_id", .text codesId)]

theorem codes_agree : Agree 1 homeCodes.toTables noCodes.toTables := by
  have hforeign : ∀ r ∈ homeCodes.semantics, r.profileId = 2 := by decide
  have hown : ∀ id, ¬OwnSemantic 1 homeCodes.toTables id := by
    intro id h
    obtain ⟨r, hr, -, hp⟩ := h
    rw [hforeign r hr] at hp
    exact absurd hp (by decide)
  refine ⟨fun _ _ => Iff.rfl, fun _ _ => Iff.rfl, fun _ _ => Iff.rfl, fun _ _ => Iff.rfl, fun _ _ => Iff.rfl, ?_,
    fun _ _ => Iff.rfl, fun _ _ => Iff.rfl, fun _ _ => Iff.rfl, ?_, fun _ _ => Iff.rfl, fun _ _ => Iff.rfl⟩
  · intro r hp
    constructor
    · intro hr
      rw [hforeign r hr] at hp
      exact absurd hp (by decide)
    · exact nofun
  · intro e he
    rcases he with he | he
    · exact (hown _ he).elim
    · exact (hown _ he).elim

/-- The server of profile 1 is asked to expand the summary of profile 2. -/
theorem a_foreign_summary_is_expanded : Agree 1 homeCodes.toTables noCodes.toTables ∧
    ¬Same codesEngine 1 .expandMemory codesArgs homeCodes.toTables noCodes.toTables := by
  refine ⟨codes_agree, fun h => ?_⟩
  have hn : Named codesEngine codesArgs "memory_id" 7 := ⟨.text codesId, rfl, rfl⟩
  have hin : (⟨7, "codes", [1], .summary, 1, 1, 2, none, 2, none, none, 4, 4, 4, 0⟩ : SemanticRow) ∈ homeCodes.semantics :=
    .head _
  have hordered : Ordered byEarliest (childrenOf homeCodes.toTables 7)
      [⟨8, "the door opens with 4711", [1], .summary, 1, 0, 2, none, 2, none, none, 4, 4, 4, 0⟩] :=
    ⟨List.Perm.refl _, List.pairwise_singleton _ _⟩
  have hshown := (h _).mp ((gives_summaries (p := 1) hn hin rfl (by decide) _).mpr ⟨_, hordered, rfl⟩)
  obtain ⟨-, depth, hdepth, hempty⟩ := (gives_expandMemory hn _).mp hshown
  obtain rfl : depth = none := hdepth
  cases hempty

end FlowHelm.Mcp
