/-
  FlowHelm.Profiles.Statements — the statements of profile-manager.ts on the full tables, one
  `Op` for each.

  `Answers o t a` says that `a` can be the answer of `o`: rows come in any order (an order
  of ids is no order, UUIDs being random), and an INSERT answers the ids its rows got,
  whether the code reads them or not. `effect` is what `o` writes, the DELETEs cascading
  as the schema says; `service` refuses what a constraint does.

  - `exec_spec`: what an executed statement answered and wrote.
-/
import FlowHelm.Profiles.Store
import FlowHelm.Lib.Transaction

namespace FlowHelm.Profiles

open Memory (Profile Chat MessageKey SemanticMemoryType MetaMemoryType)
open Script

inductive Op where
  | now
  | getProfile (profileId : Nat)
  | countProfiles
  | insertProfile (name : String) (description : Option String) (isDefault : Bool) (now : Nat)
  | unsetDefault (now : Nat)
  | setDefault (profileId now : Nat)
  | countChats (profileId : Nat)
  | chatProfile (chatId : String)
  | setChatProfile (chatId : String) (profileId : Nat)
  | deleteMetaSourcesByMeta (profileId : Nat)
  | deleteMetaSourcesBySemantic (profileId : Nat)
  | deleteSummaryParents (profileId : Nat)
  | deleteSummaryMessages (profileId : Nat)
  | deleteExternals (profileId : Nat)
  | deleteMetas (profileId : Nat)
  | deleteSemantics (profileId : Nat)
  | deletePersonality (profileId : Nat)
  | deleteIdentity (profileId : Nat)
  | deleteProfileRow (profileId : Nat)
  | cloneIdentity (newProfileId sourceId now : Nat)
  | clonePersonality (newProfileId sourceId now : Nat)
  | semanticsOf (sourceId : Nat)
  | cloneSemantic (oldId newProfileId now : Nat)
  | metasOf (sourceId : Nat)
  | cloneMeta (oldId newProfileId now : Nat)
  | cloneExternal (newProfileId sourceId now : Nat)
  | messageSourcesOf (sourceId : Nat)
  | insertMessageSource (summaryId : Nat) (key : MessageKey)
  | parentSourcesOf (sourceId : Nat)
  | insertParentSource (parentId childId : Nat)
  | metaSourcesOf (sourceId : Nat)
  | insertMetaSource (metaId semanticId : Nat)
  | metaParentsOf (sourceId : Nat)
  | insertMetaParent (parentId childId : Nat)
  deriving DecidableEq

@[reducible] def Ans : Op → Type
  | .now => Nat
  | .getProfile _ => Option Profile
  | .countProfiles => Nat
  | .insertProfile .. => Profile
  | .countChats _ => Nat
  | .chatProfile _ => Option Nat
  | .cloneIdentity .. => List Nat
  | .clonePersonality .. => List Nat
  | .semanticsOf _ => List Nat
  | .cloneSemantic .. => Option Nat
  | .metasOf _ => List Nat
  | .cloneMeta .. => Option Nat
  | .cloneExternal .. => List Nat
  | .messageSourcesOf _ => List (Nat × MessageKey)
  | .parentSourcesOf _ => List (Nat × Nat)
  | .metaSourcesOf _ => List (Nat × Nat)
  | .metaParentsOf _ => List (Nat × Nat)
  | _ => Unit

abbrev Script (α : Type) := Prog Op Ans α

abbrev await (o : Op) : Script (Ans o) := Prog.perform o

/-! ## What a statement reads -/

namespace Tables

variable (t : Tables)

def semanticIdsOf (profileId : Nat) : List Nat := (t.semantics.filter (·.profileId == profileId)).map (·.id)

def metaIdsOf (profileId : Nat) : List Nat := (t.metas.filter (·.profileId == profileId)).map (·.id)

def identitiesOf (profileId : Nat) : List AgentIdentity := t.identities.filter (·.profileId == profileId)

def personalitiesOf (profileId : Nat) : List AgentPersonality := t.personalities.filter (·.profileId == profileId)

def externalsOf (profileId : Nat) : List ExternalRow := t.externals.filter (·.profileId == profileId)

end Tables

def Answers : (o : Op) → Tables → Ans o → Prop
  | .getProfile profileId, t, a => a = t.profiles.find? (·.id == profileId)
  | .countProfiles, t, a => a = t.profiles.length
  | .insertProfile name description isDefault now, _, a => a = ⟨a.id, name, description, isDefault, now, now⟩
  | .countChats profileId, t, a => a = (t.chats.filter (·.profileId == profileId)).length
  | .chatProfile chatId, t, a => a = (t.chats.find? (·.id == chatId)).map (·.profileId)
  | .cloneIdentity _ sourceId _, t, a => a.length = (t.identitiesOf sourceId).length
  | .clonePersonality _ sourceId _, t, a => a.length = (t.personalitiesOf sourceId).length
  | .semanticsOf sourceId, t, a => a.Perm (t.semanticIdsOf sourceId)
  | .cloneSemantic oldId _ _, t, a => a.isSome = t.semantics.any (·.id == oldId)
  | .metasOf sourceId, t, a => a.Perm (t.metaIdsOf sourceId)
  | .cloneMeta oldId _ _, t, a => a.isSome = t.metas.any (·.id == oldId)
  | .cloneExternal _ sourceId _, t, a => a.length = (t.externalsOf sourceId).length
  | .messageSourcesOf sourceId, t, a => a.Perm (t.messageSources.filter (·.1 ∈ t.semanticIdsOf sourceId))
  | .parentSourcesOf sourceId, t, a => a.Perm (t.parentSources.filter (·.1 ∈ t.semanticIdsOf sourceId))
  | .metaSourcesOf sourceId, t, a => a.Perm (t.metaSources.filter (·.1 ∈ t.metaIdsOf sourceId))
  | .metaParentsOf sourceId, t, a => a.Perm (t.metaParents.filter (·.1 ∈ t.metaIdsOf sourceId))
  | _, _, _ => True

/-! ## What a statement writes -/

/-- A row as the clone's INSERT … SELECT copies it. -/
def AgentIdentity.copy (newProfileId now : Nat) (r : AgentIdentity) (id : Nat) : AgentIdentity :=
  { r with id, profileId := newProfileId, createdAt := now, updatedAt := now }

def AgentPersonality.copy (newProfileId now : Nat) (r : AgentPersonality) (id : Nat) : AgentPersonality :=
  { r with id, profileId := newProfileId, createdAt := now, updatedAt := now }

def SemanticRow.copy (newProfileId now : Nat) (r : SemanticRow) (id : Nat) : SemanticRow :=
  { r with id, profileId := newProfileId, createdAt := now, updatedAt := now, lastAccessed := now, accessCount := 0 }

def MetaRow.copy (newProfileId now : Nat) (r : MetaRow) (id : Nat) : MetaRow :=
  { r with id, profileId := newProfileId, createdAt := now, updatedAt := now, lastAccessed := now }

def ExternalRow.copy (newProfileId now : Nat) (r : ExternalRow) (id : Nat) : ExternalRow :=
  { r with id, profileId := newProfileId, createdAt := now }

namespace Tables

variable (t : Tables)

/-- DELETE FROM memory_semantic, with ON DELETE CASCADE. -/
def dropSemantics (profileId : Nat) : Tables :=
  let ids := t.semanticIdsOf profileId
  { t with
    semantics := t.semantics.filter (·.profileId != profileId)
    messageSources := t.messageSources.filter fun e => e.1 ∉ ids
    parentSources := t.parentSources.filter fun e => e.1 ∉ ids ∧ e.2 ∉ ids
    metaSources := t.metaSources.filter fun e => e.2 ∉ ids }

/-- DELETE FROM memory_meta, with ON DELETE CASCADE. -/
def dropMetas (profileId : Nat) : Tables :=
  let ids := t.metaIdsOf profileId
  { t with
    metas := t.metas.filter (·.profileId != profileId)
    metaSources := t.metaSources.filter fun e => e.1 ∉ ids
    metaParents := t.metaParents.filter fun e => e.1 ∉ ids ∧ e.2 ∉ ids }

end Tables

def effect : (o : Op) → Tables → Ans o → Tables
  | .insertProfile .., t, profile => { t with profiles := profile :: t.profiles }
  | .unsetDefault now, t, _ =>
    { t with profiles := t.profiles.map fun p => if p.isDefault then { p with isDefault := false, updatedAt := now } else p }
  | .setDefault profileId now, t, _ =>
    { t with profiles := t.profiles.map fun p => if p.id = profileId then { p with isDefault := true, updatedAt := now } else p }
  | .setChatProfile chatId profileId, t, _ =>
    { t with chats := t.chats.map fun c => if c.id = chatId then { c with profileId } else c }
  | .deleteMetaSourcesByMeta profileId, t, _ =>
    { t with metaSources := t.metaSources.filter fun e => e.1 ∉ t.metaIdsOf profileId }
  | .deleteMetaSourcesBySemantic profileId, t, _ =>
    { t with metaSources := t.metaSources.filter fun e => e.2 ∉ t.semanticIdsOf profileId }
  | .deleteSummaryParents profileId, t, _ =>
    { t with parentSources := t.parentSources.filter fun e =>
        ¬(e.1 ∈ t.semanticIdsOf profileId ∨ e.2 ∈ t.semanticIdsOf profileId) }
  | .deleteSummaryMessages profileId, t, _ =>
    { t with messageSources := t.messageSources.filter fun e => e.1 ∉ t.semanticIdsOf profileId }
  | .deleteExternals profileId, t, _ => { t with externals := t.externals.filter (·.profileId != profileId) }
  | .deleteMetas profileId, t, _ => t.dropMetas profileId
  | .deleteSemantics profileId, t, _ => t.dropSemantics profileId
  | .deletePersonality profileId, t, _ => { t with personalities := t.personalities.filter (·.profileId != profileId) }
  | .deleteIdentity profileId, t, _ => { t with identities := t.identities.filter (·.profileId != profileId) }
  | .deleteProfileRow profileId, t, _ => { t with profiles := t.profiles.filter (·.id != profileId) }
  | .cloneIdentity newProfileId sourceId now, t, ids =>
    { t with identities := (t.identitiesOf sourceId).zipWith (AgentIdentity.copy newProfileId now) ids ++ t.identities }
  | .clonePersonality newProfileId sourceId now, t, ids =>
    { t with personalities :=
        (t.personalitiesOf sourceId).zipWith (AgentPersonality.copy newProfileId now) ids ++ t.personalities }
  | .cloneSemantic oldId newProfileId now, t, some id =>
    { t with semantics :=
        (t.semantics.filter (·.id == oldId)).map (SemanticRow.copy newProfileId now · id) ++ t.semantics }
  | .cloneMeta oldId newProfileId now, t, some id =>
    { t with metas := (t.metas.filter (·.id == oldId)).map (MetaRow.copy newProfileId now · id) ++ t.metas }
  | .cloneExternal newProfileId sourceId now, t, ids =>
    { t with externals := (t.externalsOf sourceId).zipWith (ExternalRow.copy newProfileId now) ids ++ t.externals }
  | .insertMessageSource summaryId key, t, _ => { t with messageSources := t.messageSources.insert (summaryId, key) }
  | .insertParentSource parentId childId, t, _ => { t with parentSources := t.parentSources.insert (parentId, childId) }
  | .insertMetaSource metaId semanticId, t, _ => { t with metaSources := t.metaSources.insert (metaId, semanticId) }
  | .insertMetaParent parentId childId, t, _ => { t with metaParents := t.metaParents.insert (parentId, childId) }
  | _, t, _ => t

instance : (o : Op) → (t : Tables) → (a : Ans o) → Decidable (Answers o t a) := by
  intro o t a
  cases o
  all_goals first
    | exact inferInstanceAs (Decidable (_ = _))
    | exact inferInstanceAs (Decidable (List.Perm _ _))
    | exact isTrue trivial

def service : Service Op Ans Db where
  exec o s a := if Answers o s.toTables a then Db.commit (effect o s.toTables a) else none

theorem exec_spec {o : Op} {s t : Db} {a : Ans o} (h : service.exec o s a = some t) :
    Answers o s.toTables a ∧ t.toTables = effect o s.toTables a := by
  simp only [service] at h
  split at h
  · exact ⟨‹_›, Db.commit_some h⟩
  · cases h

end FlowHelm.Profiles
