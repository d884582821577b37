/-
  FlowHelm.Profiles.Store — the tables of schema.sql that belong to a profile, each row with
  all its columns: `agent_identity`, `agent_personality`, `memory_semantic`, `memory_meta`,
  `memory_external`, the four DAG join tables, and the tables they refer to.

  `Valid` is what the schema declares: primary and unique keys, foreign keys and CHECKs.
  A `Db` carries it, so no statement can leave tables without it: `commit` refuses the
  ones that would. Memory.Tables has the same tables with the columns the memory jobs read
  and ids in the order they are drawn; here an id drawn by `gen_random_uuid()` is any that
  the primary key admits.
-/
import FlowHelm.Memory.Tables

namespace FlowHelm.Profiles

open Memory (Profile Chat MessageKey SemanticMemoryType MetaMemoryType)

abbrev Embedding := List ℚ

structure AgentIdentity where
  id : Nat
  profileId : Nat
  role : String
  expertise : List String
  tone : String
  instructions : Option String
  createdAt : Nat
  updatedAt : Nat
  deriving DecidableEq

inductive AgentPersonalityDimension where
  | communicationStyle
  | humor
  | emotionalRegister
  | values
  | rapport
  | boundaries
  deriving DecidableEq

structure AgentPersonality where
  id : Nat
  profileId : Nat
  dimension : AgentPersonalityDimension
  content : String
  confidence : ℚ
  evidenceCount : Nat
  createdAt : Nat
  updatedAt : Nat
  deriving DecidableEq

structure SemanticRow where
  id : Nat
  content : String
  embedding : Embedding
  memoryType : SemanticMemoryType
  importance : ℚ
  depth : Nat
  tokenCount : Nat
  sourceSession : Option Nat
  profileId : Nat
  earliestAt : Option Nat
  latestAt : Option Nat
  createdAt : Nat
  updatedAt : Nat
  lastAccessed : Nat
  accessCount : Nat
  deriving DecidableEq

structure MetaRow where
  id : Nat
  content : String
  embedding : Embedding
  reflectionType : MetaMemoryType
  confidence : ℚ
  depth : Nat
  profileId : Nat
  createdAt : Nat
  updatedAt : Nat
  lastAccessed : Nat
  deriving DecidableEq

inductive ExternalMemorySource where
  | document
  | userProvided
  deriving DecidableEq

structure ExternalRow where
  id : Nat
  content : String
  embedding : Embedding
  sourceType : ExternalMemorySource
  sourceRef : String
  profileId : Nat
  createdAt : Nat
  deriving DecidableEq

/-- A row of `memory_working`. -/
structure Message where
  id : String
  chatId : String
  senderName : String
  content : Option String
  timestamp : Nat
  isFromMe : Bool
  deriving DecidableEq

def Message.key (m : Message) : MessageKey := (m.id, m.chatId)

structure Tables where
  profiles : List Profile
  chats : List Chat
  sessions : List Nat
  messages : List Message
  identities : List AgentIdentity
  personalities : List AgentPersonality
  semantics : List SemanticRow
  metas : List MetaRow
  externals : List ExternalRow
  messageSources : List (Nat × MessageKey)
  parentSources : List (Nat × Nat)
  metaSources : List (Nat × Nat)
  metaParents : List (Nat × Nat)

namespace Tables

variable (t : Tables)

def profileIds : List Nat := t.profiles.map (·.id)

def chatIds : List String := t.chats.map (·.id)

def messageKeys : List MessageKey := t.messages.map Message.key

def semanticIds : List Nat := t.semantics.map (·.id)

def metaIds : List Nat := t.metas.map (·.id)

structure SourcesValid : Prop where
  profileKey : t.profileIds.Nodup
  profileName : (t.profiles.map (·.name)).Nodup
  oneDefault : (t.profiles.filter (·.isDefault)).length ≤ 1
  chatKey : t.chatIds.Nodup
  chatProfile : ∀ c ∈ t.chats, c.profileId ∈ t.profileIds
  messageKey : t.messageKeys.Nodup
  messageChat : ∀ m ∈ t.messages, m.chatId ∈ t.chatIds

structure IdentityValid : Prop where
  identityKey : (t.identities.map (·.id)).Nodup
  identityProfile : ∀ r ∈ t.identities, r.profileId ∈ t.profileIds
  oneIdentity : (t.identities.map (·.profileId)).Nodup
  personalityKey : (t.personalities.map (·.id)).Nodup
  personalityProfile : ∀ r ∈ t.personalities, r.profileId ∈ t.profileIds
  oneDimension : (t.personalities.map fun r => (r.profileId, r.dimension)).Nodup

structure RowsValid : Prop where
  semanticKey : t.semanticIds.Nodup
  semanticProfile : ∀ r ∈ t.semantics, r.profileId ∈ t.profileIds
  semanticSession : ∀ r ∈ t.semantics, ∀ i ∈ r.sourceSession, i ∈ t.sessions
  importance : ∀ r ∈ t.semantics, 0 ≤ r.importance ∧ r.importance ≤ 1
  metaKey : t.metaIds.Nodup
  metaProfile : ∀ m ∈ t.metas, m.profileId ∈ t.profileIds
  confidence : ∀ m ∈ t.metas, 0 ≤ m.confidence ∧ m.confidence ≤ 1
  externalKey : (t.externals.map (·.id)).Nodup
  externalProfile : ∀ r ∈ t.externals, r.profileId ∈ t.profileIds

structure LinksValid : Prop where
  messageSourceKey : t.messageSources.Nodup
  messageSourceSummary : ∀ e ∈ t.messageSources, e.1 ∈ t.semanticIds
  messageSourceMessage : ∀ e ∈ t.messageSources, e.2 ∈ t.messageKeys
  parentSourceKey : t.parentSources.Nodup
  parentSourceParent : ∀ e ∈ t.parentSources, e.1 ∈ t.semanticIds
  parentSourceChild : ∀ e ∈ t.parentSources, e.2 ∈ t.semanticIds
  metaSourceKey : t.metaSources.Nodup
  metaSourceMeta : ∀ e ∈ t.metaSources, e.1 ∈ t.metaIds
  metaSourceSemantic : ∀ e ∈ t.metaSources, e.2 ∈ t.semanticIds
  metaParentKey : t.metaParents.Nodup
  metaParentParent : ∀ e ∈ t.metaParents, e.1 ∈ t.metaIds
  metaParentChild : ∀ e ∈ t.metaParents, e.2 ∈ t.metaIds

/-- The constraints of schema.sql. -/
structure Valid : Prop extends SourcesValid t, IdentityValid t, RowsValid t, LinksValid t

instance : Decidable t.SourcesValid :=
  decidable_of_iff
    (t.profileIds.Nodup ∧ (t.profiles.map (·.name)).Nodup ∧ (t.profiles.filter (·.isDefault)).length ≤ 1 ∧
      t.chatIds.Nodup ∧ (∀ c ∈ t.chats, c.profileId ∈ t.profileIds) ∧ t.messageKeys.Nodup ∧
      ∀ m ∈ t.messages, m.chatId ∈ t.chatIds)
    ⟨fun ⟨a, b, c, d, e, f, g⟩ => ⟨a, b, c, d, e, f, g⟩, fun ⟨a, b, c, d, e, f, g⟩ => ⟨a, b, c, d, e, f, g⟩⟩

instance : Decidable t.IdentityValid :=
  decidable_of_iff
    ((t.identities.map (·.id)).Nodup ∧ (∀ r ∈ t.identities, r.profileId ∈ t.profileIds) ∧
      (t.identities.map (·.profileId)).Nodup ∧ (t.personalities.map (·.id)).Nodup ∧
      (∀ r ∈ t.personalities, r.profileId ∈ t.profileIds) ∧
      (t.personalities.map fun r => (r.profileId, r.dimension)).Nodup)
    ⟨fun ⟨a, b, c, d, e, f⟩ => ⟨a, b, c, d, e, f⟩, fun ⟨a, b, c, d, e, f⟩ => ⟨a, b, c, d, e, f⟩⟩

instance : Decidable t.RowsValid :=
  decidable_of_iff
    (t.semanticIds.Nodup ∧ (∀ r ∈ t.semantics, r.profileId ∈ t.profileIds) ∧
      (∀ r ∈ t.semantics, ∀ i ∈ r.sourceSession, i ∈ t.sessions) ∧
      (∀ r ∈ t.semantics, 0 ≤ r.importance ∧ r.importance ≤ 1) ∧ t.metaIds.Nodup ∧
      (∀ m ∈ t.metas, m.profileId ∈ t.profileIds) ∧ (∀ m ∈ t.metas, 0 ≤ m.confidence ∧ m.confidence ≤ 1) ∧
      (t.externals.map (·.id)).Nodup ∧ ∀ r ∈ t.externals, r.profileId ∈ t.profileIds)
    ⟨fun ⟨a, b, c, d, e, f, g, h, i⟩ => ⟨a, b, c, d, e, f, g, h, i⟩,
      fun ⟨a, b, c, d, e, f, g, h, i⟩ => ⟨a, b, c, d, e, f, g, h, i⟩⟩

local instance lawfulPairs : LawfulBEq (String × String) := inferInstance

instance : Decidable t.LinksValid :=
  decidable_of_iff
    (t.messageSources.Nodup ∧ (∀ e ∈ t.messageSources, e.1 ∈ t.semanticIds) ∧
      (∀ e ∈ t.messageSources, e.2 ∈ t.messageKeys) ∧ t.parentSources.Nodup ∧
      (∀ e ∈ t.parentSources, e.1 ∈ t.semanticIds) ∧ (∀ e ∈ t.parentSources, e.2 ∈ t.semanticIds) ∧
      t.metaSources.Nodup ∧ (∀ e ∈ t.metaSources, e.1 ∈ t.metaIds) ∧ (∀ e ∈ t.metaSources, e.2 ∈ t.semanticIds) ∧
      t.metaParents.Nodup ∧ (∀ e ∈ t.metaParents, e.1 ∈ t.metaIds) ∧ ∀ e ∈ t.metaParents, e.2 ∈ t.metaIds)
    ⟨fun ⟨a, b, c, d, e, f, g, h, i, j, k, l⟩ => ⟨a, b, c, d, e, f, g, h, i, j, k, l⟩,
      fun ⟨a, b, c, d, e, f, g, h, i, j, k, l⟩ => ⟨a, b, c, d, e, f, g, h, i, j, k, l⟩⟩

instance : Decidable t.Valid :=
  decidable_of_iff (t.SourcesValid ∧ t.IdentityValid ∧ t.RowsValid ∧ t.LinksValid)
    ⟨fun ⟨s, i, r, l⟩ => ⟨s, i, r, l⟩,
      fun v => ⟨v.toSourcesValid, v.toIdentityValid, v.toRowsValid, v.toLinksValid⟩⟩

end Tables

structure Db extends Tables where
  valid : toTables.Valid

namespace Db

theorem ext_tables {s t : Db} (h : s.toTables = t.toTables) : s = t := by
  cases s
  cases t
  cases h
  rfl

theorem semantic_unique (s : Db) {r q : SemanticRow} (hr : r ∈ s.semantics) (hq : q ∈ s.semantics) (h : r.id = q.id) :
    r = q := List.inj_on_of_nodup_map s.valid.semanticKey hr hq h

theorem meta_unique (s : Db) {m n : MetaRow} (hm : m ∈ s.metas) (hn : n ∈ s.metas) (h : m.id = n.id) : m = n :=
  List.inj_on_of_nodup_map s.valid.metaKey hm hn h

/-- The tables a statement leaves, unless a constraint refuses them. -/
def commit (t : Tables) : Option Db := if h : t.Valid then some ⟨t, h⟩ else none

theorem commit_some {t : Tables} {s : Db} (h : commit t = some s) : s.toTables = t := by
  unfold commit at h
  split at h
  · cases h
    rfl
  · cases h

end Db

end FlowHelm.Profiles
