/-
  FlowHelm.Profiles.Manager — profile-manager.ts: `createProfile`, `deleteProfile`,
  `setDefaultProfile`, `assignChat` and `cloneProfile`, statement by statement.

  The two that use `sql.begin`, `setDefaultProfile` and `cloneProfile`, are programs on a
  connection (`TxOp`); the others are plain, and `onTx` puts them on one. A `Map` is the
  list of its entries, the latest first.
-/
import FlowHelm.Profiles.Statements

namespace FlowHelm.Profiles

open Memory (Profile Chat MessageKey)
open Script Prog

/-- A script on a connection. -/
abbrev Session (α : Type) := Prog (TxOp Op) (TxAns Ans) α

abbrev query (o : Op) : Session (Ans o) := perform (.on o : TxOp Op)

def profileLimit (maxProfiles : Nat) : String := s!"Profile limit reached (max {maxProfiles})"

def createProfile (maxProfiles : Nat) (name : String) (description : Option String) : Script Profile := do
  let now ← await .now
  let cnt ← await .countProfiles
  if maxProfiles ≤ cnt then Prog.throw (.error (profileLimit maxProfiles))
  else await (.insertProfile name description (cnt == 0) now)

/-- The DELETEs of `deleteProfile`, in their order. -/
def deletions (profileId : Nat) : List Op :=
  [.deleteMetaSourcesByMeta profileId, .deleteMetaSourcesBySemantic profileId, .deleteSummaryParents profileId,
    .deleteSummaryMessages profileId, .deleteExternals profileId, .deleteMetas profileId, .deleteSemantics profileId,
    .deletePersonality profileId, .deleteIdentity profileId, .deleteProfileRow profileId]

def deleteProfile (profileId : Nat) : Script Unit := do
  match ← await (.getProfile profileId) with
  | none => Prog.throw (.error "Profile not found")
  | some profile =>
    if profile.isDefault then
      Prog.throw (.error "Cannot delete the default profile. Set another profile as default first.")
    else do
      let cnt ← await (.countChats profileId)
      if 0 < cnt then Prog.throw (.error "Cannot delete profile with assigned chats. Reassign chats first.")
      else do
        await (.deleteMetaSourcesByMeta profileId)
        await (.deleteMetaSourcesBySemantic profileId)
        await (.deleteSummaryParents profileId)
        await (.deleteSummaryMessages profileId)
        await (.deleteExternals profileId)
        await (.deleteMetas profileId)
        await (.deleteSemantics profileId)
        await (.deletePersonality profileId)
        await (.deleteIdentity profileId)
        await (.deleteProfileRow profileId)

def setDefaultProfile (profileId : Nat) : Session Unit := do
  match ← query (.getProfile profileId) with
  | none => Prog.throw (.error "Profile not found")
  | some profile =>
    if profile.isDefault then return ()
    else do
      let now ← query .now
      begin do
        await (.unsetDefault now)
        await (.setDefault profileId now)

def assignChat (chatId : String) (profileId : Nat) : Script Nat := do
  match ← await (.getProfile profileId) with
  | none => Prog.throw (.error "Target profile not found")
  | some _ =>
    match ← await (.chatProfile chatId) with
    | none => Prog.throw (.error "Chat not found")
    | some previousProfileId => do
      await (.setChatProfile chatId profileId)
      return previousProfileId

/-! ## cloneProfile -/

/-- The entries of a `Map`, the latest first. -/
abbrev IdMap := List (Nat × Nat)

def IdMap.get (map : IdMap) (id : Nat) : Option Nat := map.lookup id

def IdMap.set (map : IdMap) (id new : Nat) : IdMap := (id, new) :: map

/-- One turn of the loop over the semantic rows. -/
def cloneSemantic (newProfileId now : Nat) (semanticIdMap : IdMap) (oldId : Nat) : Script IdMap := do
  match ← await (.cloneSemantic oldId newProfileId now) with
  | none => Prog.throw (.error "Failed to clone semantic memory")
  | some id => return semanticIdMap.set oldId id

def cloneMeta (newProfileId now : Nat) (metaIdMap : IdMap) (oldId : Nat) : Script IdMap := do
  match ← await (.cloneMeta oldId newProfileId now) with
  | none => Prog.throw (.error "Failed to clone meta memory")
  | some id => return metaIdMap.set oldId id

def cloneMessageSource (semanticIdMap : IdMap) (sms : Nat × MessageKey) : Script Unit := do
  match semanticIdMap.get sms.1 with
  | some newSummaryId => await (.insertMessageSource newSummaryId sms.2)
  | none => return ()

/-- One turn of the loops over the other three join tables: the edge is copied when both
    its ends are. -/
def cloneEdge (insert : Nat → Nat → Script Unit) (fromMap toMap : IdMap) (edge : Nat × Nat) : Script Unit := do
  match fromMap.get edge.1, toMap.get edge.2 with
  | some newFrom, some newTo => insert newFrom newTo
  | _, _ => return ()

def cloneParentSource (semanticIdMap : IdMap) : Nat × Nat → Script Unit :=
  cloneEdge (fun parentId childId => await (.insertParentSource parentId childId)) semanticIdMap semanticIdMap

def cloneMetaSource (metaIdMap semanticIdMap : IdMap) : Nat × Nat → Script Unit :=
  cloneEdge (fun metaId semanticId => await (.insertMetaSource metaId semanticId)) metaIdMap semanticIdMap

def cloneMetaParent (metaIdMap : IdMap) : Nat × Nat → Script Unit :=
  cloneEdge (fun parentId childId => await (.insertMetaParent parentId childId)) metaIdMap metaIdMap

/-- Step 7: the DAG join tables. -/
def cloneLinks (sourceId : Nat) (semanticIdMap metaIdMap : IdMap) : Script Unit := do
  let smsRows ← await (.messageSourcesOf sourceId)
  forEach smsRows (cloneMessageSource semanticIdMap)
  let spsRows ← await (.parentSourcesOf sourceId)
  forEach spsRows (cloneParentSource semanticIdMap)
  let mmsRows ← await (.metaSourcesOf sourceId)
  forEach mmsRows (cloneMetaSource metaIdMap semanticIdMap)
  let mpsRows ← await (.metaParentsOf sourceId)
  forEach mpsRows (cloneMetaParent metaIdMap)

/-- Steps 1 to 6: the rows, with the id maps of Tier 2 and Tier 3. -/
def cloneRows (sourceId : Nat) (newName : String) (description : Option String) (now : Nat) :
    Script (Profile × IdMap × IdMap) := do
  let newProfile ← await (.insertProfile newName description false now)
  let newProfileId := newProfile.id
  let _ ← await (.cloneIdentity newProfileId sourceId now)
  let _ ← await (.clonePersonality newProfileId sourceId now)
  let semanticSources ← await (.semanticsOf sourceId)
  let semanticIdMap ← forFold (cloneSemantic newProfileId now) [] semanticSources
  let metaSources ← await (.metasOf sourceId)
  let metaIdMap ← forFold (cloneMeta newProfileId now) [] metaSources
  let _ ← await (.cloneExternal newProfileId sourceId now)
  return (newProfile, semanticIdMap, metaIdMap)

/-- The body of the transaction of `cloneProfile`. -/
def cloneBody (sourceId : Nat) (newName : String) (description : Option String) (now : Nat) : Script Profile := do
  let (newProfile, semanticIdMap, metaIdMap) ← cloneRows sourceId newName description now
  cloneLinks sourceId semanticIdMap metaIdMap
  return newProfile

def cloneProfile (maxProfiles sourceId : Nat) (newName : String) (newDescription : Option String) : Session Profile := do
  match ← query (.getProfile sourceId) with
  | none => Prog.throw (.error "Source profile not found")
  | some source => do
    let cnt ← query .countProfiles
    if maxProfiles ≤ cnt then Prog.throw (.error (profileLimit maxProfiles))
    else do
      let now ← query .now
      begin (cloneBody sourceId newName (newDescription.or source.description) now)

end FlowHelm.Profiles
