/-
  FlowHelm.Memory.Profiles — profile-manager.ts: `createProfile`, `deleteProfile`,
  `setDefaultProfile`, `assignChat` and `cloneProfile`, and the two entry points of
  memory.ts that write Tier 2, `storeSemanticMemory` and `deleteSemanticMemory`.

  Each is the program of its awaited statements, checks and texts of its errors included.
  `cloneProfile` ends in one transaction, so one statement; `deleteProfile` is one DELETE
  after another with no transaction around them (`memory_external`, `agent_personality`
  and `agent_identity` are not modelled, and neither are the deletes of theirs).
-/
import FlowHelm.Memory.Statements

namespace FlowHelm.Memory

open Js Script Prog

/-! ## profile-manager.ts -/

def profileLimit (maxProfiles : Nat) : String := s!"Profile limit reached (max {maxProfiles})"

def createProfile (maxProfiles : Nat) (name : String) (description : Option String) : Script Profile := do
  let now ← await .now
  let cnt ← await .countProfiles
  if maxProfiles ≤ cnt then Prog.throw (.error (profileLimit maxProfiles))
  else await (.insertProfile name description (cnt == 0) now)

def deleteProfile (profileId : Nat) : Script Unit := do
  match ← await (.getProfile profileId) with
  | none => Prog.throw (.error "Profile not found")
  | some profile =>
    if profile.isDefault then
      Prog.throw (.error "Cannot delete the default profile. Set another profile as default first.")
    else do
      let cnt ← await (.countChats profileId)
      if 0 < cnt then Prog.throw (.error "Cannot delete profile with assigned chats. Reassign chats first.")
      else do
        await (.deleteMetaSourcesByMeta profileId)
        await (.deleteMetaSourcesBySemantic profileId)
        await (.deleteSummaryParents profileId)
        await (.deleteSummaryMessages profileId)
        await (.deleteMetas profileId)
        await (.deleteSemantics profileId)
        await (.deleteProfileRow profileId)

def setDefaultProfile (profileId : Nat) : Script Unit := do
  match ← await (.getProfile profileId) with
  | none => Prog.throw (.error "Profile not found")
  | some profile =>
    if profile.isDefault then return ()
    else do
      let now ← await .now
      await (.makeDefault profileId now)

def assignChat (chatId : String) (profileId : Nat) : Script Nat := do
  match ← await (.getProfile profileId) with
  | none => Prog.throw (.error "Target profile not found")
  | some _ =>
    match ← await (.chatProfile chatId) with
    | none => Prog.throw (.error "Chat not found")
    | some previousProfileId => do
      await (.setChatProfile chatId profileId)
      return previousProfileId

def cloneProfile (maxProfiles : Nat) (sourceId : Nat) (newName : String) (newDescription : Option String) :
    Script Profile := do
  match ← await (.getProfile sourceId) with
  | none => Prog.throw (.error "Source profile not found")
  | some source => do
    let cnt ← await .countProfiles
    if maxProfiles ≤ cnt then Prog.throw (.error (profileLimit maxProfiles))
    else do
      let now ← await .now
      await (.clone sourceId newName (newDescription.or source.description) now)

/-! ## memory.ts, Tier 2 -/

structure StoreSemanticOptions where
  content : JsString
  memoryType : SemanticMemoryType
  importance : Option ℚ
  depth : Option Nat
  sourceSession : Option Nat
  profileId : Nat
  deriving DecidableEq

def defaultImportance : SemanticMemoryType → ℚ
  | .instruction => 1
  | .procedure => 8 / 10
  | .summary => 7 / 10
  | _ => 5 / 10

def storeSemanticMemory (options : StoreSemanticOptions) : Script Nat := do
  await (.embed options.content)
  let now ← await .now
  await (.insertSemantic {
    content := options.content, memoryType := options.memoryType,
    importance := options.importance.getD (defaultImportance options.memoryType),
    depth := options.depth.getD 0, sourceSession := options.sourceSession, profileId := options.profileId,
    earliestAt := none, latestAt := none, createdAt := now, chunk := [] })

def deleteSemanticMemory (memoryId : Nat) : Script Unit := await (.deleteSemantic memoryId)

end FlowHelm.Memory
