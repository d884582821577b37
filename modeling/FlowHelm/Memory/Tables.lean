/-
  FlowHelm.Memory.Tables — the memory tables of schema.sql: `agent_profiles`, `chats`,
  `sessions`, `memory_working` (Tier 1), `memory_semantic` (Tier 2), `memory_meta`
  (Tier 3), the four DAG join tables, and the two timestamps kept in `state`.

  `Valid` is what the schema declares: primary and unique keys, foreign keys and CHECKs.
  A `Db` carries it, so no statement can leave tables without it: `commit` refuses the
  ones that would. `gen_random_uuid()` draws from `nextId`, so an id is never drawn
  twice. Columns no function modelled here reads (embedding, token_count, the access
  statistics, updated_at of the memory rows) are left out.

  Four things stand beside the tables for what is said about them only, and no statement
  reads them: `chunk` of a semantic row, the messages whose text it was made from; `listed`,
  the ids drawn when the current reflection run read the profiles; `reads`, what each of its
  d0 generations has selected; `inputs`, what those of all runs have.
-/
import Mathlib.Data.List.Nodup
import Mathlib.Data.Rat.Defs
import Mathlib.Algebra.Order.Ring.Rat
import FlowHelm.Lib.Js

namespace FlowHelm.Memory

open Js

structure Profile where
  id : Nat
  name : String
  description : Option String
  isDefault : Bool
  createdAt : Nat
  updatedAt : Nat
  deriving DecidableEq, Repr

structure Chat where
  id : String
  profileId : Nat
  deriving DecidableEq, Repr

structure Session where
  id : Nat
  chatId : String
  startedAt : Nat
  endedAt : Option Nat
  deriving DecidableEq, Repr

/-- The primary key (id, chat_id) of `memory_working`. -/
abbrev MessageKey := String × String

/-- Whether a message is among those with the keys. -/
scoped instance decidableKey (key : MessageKey) (keys : List MessageKey) : Decidable (key ∈ keys) :=
  decidable_of_iff (∃ k ∈ keys, k = key) (by simp)

structure Working where
  id : String
  chatId : String
  senderName : JsString
  content : Option JsString
  timestamp : Nat
  isBotMessage : Bool
  sessionId : Option Nat
  deriving DecidableEq, Repr

def Working.key (m : Working) : MessageKey := (m.id, m.chatId)

inductive SemanticMemoryType where
  | preference
  | fact
  | pattern
  | contact
  | instruction
  | summary
  | procedure
  deriving DecidableEq, Repr

/-- A row of `memory_semantic` as it is inserted. -/
structure SemanticColumns where
  content : JsString
  memoryType : SemanticMemoryType
  importance : ℚ
  depth : Nat
  sourceSession : Option Nat
  profileId : Nat
  earliestAt : Option Nat
  latestAt : Option Nat
  createdAt : Nat
  chunk : List MessageKey
  deriving DecidableEq

structure Semantic extends SemanticColumns where
  id : Nat
  deriving DecidableEq

inductive MetaMemoryType where
  | insight
  | heuristic
  | selfAssessment
  deriving DecidableEq, Repr

/-- A row of `memory_meta` as it is inserted. -/
structure MetaColumns where
  content : JsString
  reflectionType : MetaMemoryType
  confidence : ℚ
  depth : Nat
  profileId : Nat
  createdAt : Nat
  deriving DecidableEq

structure Meta extends MetaColumns where
  id : Nat
  deriving DecidableEq

/-- What one d0 generation selected, and how many ids had been drawn by then. -/
structure Read where
  profileId : Nat
  ids : List Nat
  drawn : Nat
  deriving DecidableEq, Repr

structure Tables where
  profiles : List Profile
  chats : List Chat
  sessions : List Session
  working : List Working
  semantic : List Semantic
  messageSources : List (Nat × MessageKey)
  parentSources : List (Nat × Nat)
  metas : List Meta
  metaSources : List (Nat × Nat)
  metaParents : List (Nat × Nat)
  lastConsolidationAt : Option Nat
  lastReflectionAt : Option Nat
  nextId : Nat
  clock : Nat
  listed : Nat
  reads : List Read
  inputs : List Read

namespace Tables

variable (t : Tables)

def profileIds : List Nat := t.profiles.map (·.id)

def chatIds : List String := t.chats.map (·.id)

def sessionIds : List Nat := t.sessions.map (·.id)

def messageKeys : List MessageKey := t.working.map Working.key

def semanticIds : List Nat := t.semantic.map (·.id)

def metaIds : List Nat := t.metas.map (·.id)

/-- Profiles, chats, sessions and messages. -/
structure SourcesValid : Prop where
  profileKey : t.profileIds.Nodup
  profileName : (t.profiles.map (·.name)).Nodup
  oneDefault : (t.profiles.filter (·.isDefault)).length ≤ 1
  profileDrawn : ∀ i ∈ t.profileIds, i < t.nextId
  chatKey : t.chatIds.Nodup
  chatProfile : ∀ c ∈ t.chats, c.profileId ∈ t.profileIds
  sessionKey : t.sessionIds.Nodup
  sessionDrawn : ∀ i ∈ t.sessionIds, i < t.nextId
  sessionChat : ∀ s ∈ t.sessions, s.chatId ∈ t.chatIds
  workingKey : t.messageKeys.Nodup
  workingChat : ∀ m ∈ t.working, m.chatId ∈ t.chatIds
  workingSession : ∀ m ∈ t.working, ∀ i ∈ m.sessionId, i ∈ t.sessionIds

/-- The rows of Tier 2 and Tier 3. -/
structure RowsValid : Prop where
  semanticKey : t.semanticIds.Nodup
  semanticDrawn : ∀ i ∈ t.semanticIds, i < t.nextId
  semanticProfile : ∀ r ∈ t.semantic, r.profileId ∈ t.profileIds
  semanticSession : ∀ r ∈ t.semantic, ∀ i ∈ r.sourceSession, i ∈ t.sessionIds
  importance : ∀ r ∈ t.semantic, 0 ≤ r.importance ∧ r.importance ≤ 1
  metaKey : t.metaIds.Nodup
  metaDrawn : ∀ i ∈ t.metaIds, i < t.nextId
  metaProfile : ∀ m ∈ t.metas, m.profileId ∈ t.profileIds
  confidence : ∀ m ∈ t.metas, 0 ≤ m.confidence ∧ m.confidence ≤ 1

/-- The DAG join tables. -/
structure LinksValid : Prop where
  messageSourceKey : t.messageSources.Nodup
  messageSourceSummary : ∀ e ∈ t.messageSources, e.1 ∈ t.semanticIds
  messageSourceMessage : ∀ e ∈ t.messageSources, e.2 ∈ t.messageKeys
  parentSourceKey : t.parentSources.Nodup
  parentSourceParent : ∀ e ∈ t.parentSources, e.1 ∈ t.semanticIds
  parentSourceChild : ∀ e ∈ t.parentSources, e.2 ∈ t.semanticIds
  metaSourceKey : t.metaSources.Nodup
  metaSourceMeta : ∀ e ∈ t.metaSources, e.1 ∈ t.metaIds
  metaSourceSemantic : ∀ e ∈ t.metaSources, e.2 ∈ t.semanticIds
  metaParentKey : t.metaParents.Nodup
  metaParentParent : ∀ e ∈ t.metaParents, e.1 ∈ t.metaIds
  metaParentChild : ∀ e ∈ t.metaParents, e.2 ∈ t.metaIds

/-- The constraints of schema.sql, every id one that has been drawn. -/
structure Valid : Prop extends SourcesValid t, RowsValid t, LinksValid t

instance : Decidable t.SourcesValid :=
  decidable_of_iff
    (t.profileIds.Nodup ∧ (t.profiles.map (·.name)).Nodup ∧ (t.profiles.filter (·.isDefault)).length ≤ 1 ∧
      (∀ i ∈ t.profileIds, i < t.nextId) ∧ t.chatIds.Nodup ∧ (∀ c ∈ t.chats, c.profileId ∈ t.profileIds) ∧
      t.sessionIds.Nodup ∧ (∀ i ∈ t.sessionIds, i < t.nextId) ∧ (∀ s ∈ t.sessions, s.chatId ∈ t.chatIds) ∧
      t.messageKeys.Nodup ∧ (∀ m ∈ t.working, m.chatId ∈ t.chatIds) ∧
      ∀ m ∈ t.working, ∀ i ∈ m.sessionId, i ∈ t.sessionIds)
    ⟨fun ⟨a, b, c, d, e, f, g, h, i, j, k, l⟩ => ⟨a, b, c, d, e, f, g, h, i, j, k, l⟩,
      fun ⟨a, b, c, d, e, f, g, h, i, j, k, l⟩ => ⟨a, b, c, d, e, f, g, h, i, j, k, l⟩⟩

instance : Decidable t.RowsValid :=
  decidable_of_iff
    (t.semanticIds.Nodup ∧ (∀ i ∈ t.semanticIds, i < t.nextId) ∧ (∀ r ∈ t.semantic, r.profileId ∈ t.profileIds) ∧
      (∀ r ∈ t.semantic, ∀ i ∈ r.sourceSession, i ∈ t.sessionIds) ∧
      (∀ r ∈ t.semantic, 0 ≤ r.importance ∧ r.importance ≤ 1) ∧ t.metaIds.Nodup ∧ (∀ i ∈ t.metaIds, i < t.nextId) ∧
      (∀ m ∈ t.metas, m.profileId ∈ t.profileIds) ∧ ∀ m ∈ t.metas, 0 ≤ m.confidence ∧ m.confidence ≤ 1)
    ⟨fun ⟨a, b, c, d, e, f, g, h, i⟩ => ⟨a, b, c, d, e, f, g, h, i⟩,
      fun ⟨a, b, c, d, e, f, g, h, i⟩ => ⟨a, b, c, d, e, f, g, h, i⟩⟩

instance : Decidable t.LinksValid :=
  decidable_of_iff
    (t.messageSources.Nodup ∧ (∀ e ∈ t.messageSources, e.1 ∈ t.semanticIds) ∧
      (∀ e ∈ t.messageSources, e.2 ∈ t.messageKeys) ∧ t.parentSources.Nodup ∧
      (∀ e ∈ t.parentSources, e.1 ∈ t.semanticIds) ∧ (∀ e ∈ t.parentSources, e.2 ∈ t.semanticIds) ∧
      t.metaSources.Nodup ∧ (∀ e ∈ t.metaSources, e.1 ∈ t.metaIds) ∧ (∀ e ∈ t.metaSources, e.2 ∈ t.semanticIds) ∧
      t.metaParents.Nodup ∧ (∀ e ∈ t.metaParents, e.1 ∈ t.metaIds) ∧ ∀ e ∈ t.metaParents, e.2 ∈ t.metaIds)
    ⟨fun ⟨a, b, c, d, e, f, g, h, i, j, k, l⟩ => ⟨a, b, c, d, e, f, g, h, i, j, k, l⟩,
      fun ⟨a, b, c, d, e, f, g, h, i, j, k, l⟩ => ⟨a, b, c, d, e, f, g, h, i, j, k, l⟩⟩

instance : Decidable t.Valid :=
  decidable_of_iff (t.SourcesValid ∧ t.RowsValid ∧ t.LinksValid)
    ⟨fun ⟨s, r, l⟩ => ⟨s, r, l⟩, fun v => ⟨v.toSourcesValid, v.toRowsValid, v.toLinksValid⟩⟩

end Tables

structure Db extends Tables where
  valid : toTables.Valid

namespace Db

theorem ext_tables {s t : Db} (h : s.toTables = t.toTables) : s = t := by
  cases s
  cases t
  cases h
  rfl

theorem semantic_unique (s : Db) {r q : Semantic} (hr : r ∈ s.semantic) (hq : q ∈ s.semantic) (h : r.id = q.id) : r = q :=
  List.inj_on_of_nodup_map s.valid.semanticKey hr hq h

theorem meta_unique (s : Db) {m n : Meta} (hm : m ∈ s.metas) (hn : n ∈ s.metas) (h : m.id = n.id) : m = n :=
  List.inj_on_of_nodup_map s.valid.metaKey hm hn h

/-- The tables a statement leaves, unless a constraint refuses them. -/
def commit (t : Tables) : Option Db := if h : t.Valid then some ⟨t, h⟩ else none

theorem commit_some {t : Tables} {s : Db} (h : commit t = some s) : s.toTables = t := by
  simp only [commit] at h
  split at h
  · cases h
    rfl
  · cases h

theorem commit_valid {t : Tables} (h : t.Valid) : commit t = some ⟨t, h⟩ := by simp [commit, h]

def empty : Db where
  profiles := []
  chats := []
  sessions := []
  working := []
  semantic := []
  messageSources := []
  parentSources := []
  metas := []
  metaSources := []
  metaParents := []
  lastConsolidationAt := none
  lastReflectionAt := none
  nextId := 0
  clock := 0
  listed := 0
  reads := []
  inputs := []
  valid := by decide

end Db

end FlowHelm.Memory
