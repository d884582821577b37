/-
  FlowHelm.Memory.Statements — the statements and calls of the memory code, one `Op` for
  each: the queries of consolidation.ts, reflection.ts, profile-manager.ts and memory.ts,
  the two providers, and `Date.now()`.

  `Answers o s a` says that `a` can be the answer of `o` in `s`: a SELECT answers its rows
  in any order its ORDER BY allows (an order of ids is no order, UUIDs being random), a
  provider any text. `effect` is what `o` writes, `exec` refuses what a constraint does.
  `clone` is the transaction of `cloneProfile`, the DELETEs cascade as the schema says.

  Two arguments belong to no statement and are kept for what is said about them: `rest`
  of `linkMessage`, the messages still to be linked after this one, and `profileId` of
  `uncondensedSummaries`, the profile the d1 summary will get.

  - `exec_spec`: what an executed operation answered and wrote.
  - `exec_reads`: an operation whose `effect` is nothing leaves the state.
-/
import Mathlib.Data.List.Sort
import FlowHelm.Memory.Tables
import FlowHelm.Lib.JsInteger
import FlowHelm.Lib.Script

namespace FlowHelm.Memory

open Js Script

inductive Prompt where
  | d0System
  | d1System
  | factExtraction
  | d0Prompts (type : MetaMemoryType)
  | d1Prompts (type : MetaMemoryType)
  | d2Prompts (type : MetaMemoryType)
  deriving DecidableEq, Repr

inductive Op where
  | summarize (content : JsString) (maxTokens : Nat) (systemPrompt : Prompt)
  | embed (text : JsString)
  | now
  | countUnconsolidated
  | sessionsToConsolidate
  | chatProfile (chatId : String)
  | unlinkedMessages (sessionId : Nat)
  | insertSemantic (row : SemanticColumns)
  | linkMessage (summaryId : Nat) (key : MessageKey) (rest : List MessageKey)
  | setLastConsolidation (now : Nat)
  | condensationCandidates (threshold : Nat)
  | uncondensedSummaries (chatId : String) (profileId : Nat)
  | linkSummary (parentId childId : Nat)
  | profileIds
  | lastReflectionAt
  | recentEntries (profileId since : Nat)
  | nearestMeta (profileId : Nat) (type : MetaMemoryType) (depth : Nat)
  | similarity (metaId : Nat)
  | setConfidence (metaId : Nat) (confidence : ℚ)
  | insertMeta (row : MetaColumns)
  | linkSource (metaId semanticId : Nat)
  | uncondensedMetas (profileId : Nat) (type : MetaMemoryType) (depth : Nat)
  | linkMeta (parentId childId : Nat)
  | parentMetas (profileId depth : Nat)
  | childCounts (metaId : Nat)
  | setLastReflection (now : Nat)
  | metaDepth (metaId : Nat)
  | sourcesOf (metaId : Nat)
  | childrenOf (metaId : Nat)
  | getProfile (profileId : Nat)
  | countProfiles
  | insertProfile (name : String) (description : Option String) (isDefault : Bool) (now : Nat)
  | makeDefault (profileId now : Nat)
  | setChatProfile (chatId : String) (profileId : Nat)
  | clone (sourceId : Nat) (name : String) (description : Option String) (now : Nat)
  | countChats (profileId : Nat)
  | deleteMetaSourcesByMeta (profileId : Nat)
  | deleteMetaSourcesBySemantic (profileId : Nat)
  | deleteSummaryParents (profileId : Nat)
  | deleteSummaryMessages (profileId : Nat)
  | deleteMetas (profileId : Nat)
  | deleteSemantics (profileId : Nat)
  | deleteProfileRow (profileId : Nat)
  | deleteSemantic (memoryId : Nat)
  deriving DecidableEq

@[reducible] def Ans : Op → Type
  | .summarize .. => String
  | .now => Nat
  | .countUnconsolidated => Nat
  | .sessionsToConsolidate => List Session
  | .chatProfile _ => Option Nat
  | .unlinkedMessages _ => List Working
  | .insertSemantic _ => Nat
  | .condensationCandidates _ => List Session
  | .uncondensedSummaries .. => List Semantic
  | .profileIds => List Nat
  | .lastReflectionAt => Option Nat
  | .recentEntries .. => List Semantic
  | .nearestMeta .. => Option Meta
  | .similarity _ => ℚ
  | .insertMeta _ => Nat
  | .uncondensedMetas .. => List Meta
  | .parentMetas .. => List Meta
  | .childCounts _ => Nat × Nat
  | .metaDepth _ => Option Nat
  | .sourcesOf _ => List Semantic
  | .childrenOf _ => List Meta
  | .getProfile _ => Option Profile
  | .countProfiles => Nat
  | .insertProfile .. => Profile
  | .clone .. => Profile
  | .countChats _ => Nat
  | _ => Unit

abbrev Script (α : Type) := Prog Op Ans α

abbrev await (o : Op) : Script (Ans o) := Prog.perform o

/-- `value ?? 0.5` as a number. -/
def numberOrHalf (value : Option Json) : Script JsNumber :=
  match (Json.orElse (.num false 5 (-1)) value).toNumber with
  | none => Prog.throw (.error "Cannot convert object to primitive value")
  | some x => return x

/-- `value` where a column takes its text, and what stands for it before. -/
def textOf (value : Json) : Option JsString := value.toText Json.numberString

/-! ## Queries -/

def SemanticColumns.IsD0Summary (r : SemanticColumns) : Prop := r.memoryType = .summary ∧ r.depth = 0

instance (r : SemanticColumns) : Decidable r.IsD0Summary := inferInstanceAs (Decidable (_ ∧ _))

namespace Tables

variable (t : Tables)

/-- Whether a message is a source of some summary. -/
def linked (m : Working) : Bool := t.messageSources.any (·.2 == m.key)

/-- The sessions with a message some summary is made from. -/
def consolidatedSessions : List Nat :=
  (t.sessions.filter fun s => t.working.any fun m => m.sessionId == some s.id && t.linked m).map (·.id)

/-- The messages of ended sessions. -/
def endedMessages : List Working :=
  t.working.filter fun m => t.sessions.any fun s => m.sessionId == some s.id && s.endedAt.isSome

/-- What `run` counts. -/
def unconsolidated : List Working :=
  t.endedMessages.filter fun m => !t.consolidatedSessions.any fun i => m.sessionId == some i

def toConsolidate : List Session :=
  t.sessions.filter fun s => s.endedAt.isSome && t.working.any fun m => m.sessionId == some s.id && !t.linked m

def unlinked (sessionId : Nat) : List Working :=
  t.working.filter fun m => m.sessionId == some sessionId && !t.linked m

/-- A d0 summary, not yet the child of another. -/
def isUncondensed (r : Semantic) : Bool :=
  r.memoryType == .summary && r.depth == 0 && !t.parentSources.any (·.2 == r.id)

/-- The uncondensed d0 summaries of a session. -/
def uncondensedIn (sessionId : Nat) : List Semantic :=
  t.semantic.filter fun r => t.isUncondensed r && r.sourceSession == some sessionId

/-- Those of the sessions of a chat. -/
def uncondensedOf (chatId : String) : List Semantic :=
  t.semantic.filter fun r =>
    t.isUncondensed r && t.sessions.any fun s => r.sourceSession == some s.id && s.chatId == chatId

def candidates (threshold : Nat) : List Session :=
  t.sessions.filter fun s => threshold ≤ (t.uncondensedIn s.id).length

def recent (profileId since : Nat) : List Semantic :=
  t.semantic.filter fun r => r.profileId == profileId && since < r.createdAt

/-- The entries above the confidence a reflection is suppressed below. -/
def active (profileId : Nat) (type : MetaMemoryType) (depth : Nat) : List Meta :=
  t.metas.filter fun m => m.profileId == profileId && m.reflectionType == type && m.depth == depth && 1 / 5 ≤ m.confidence

def uncondensedActive (profileId : Nat) (type : MetaMemoryType) (depth : Nat) : List Meta :=
  (t.active profileId type depth).filter fun m => !t.metaParents.any (·.2 == m.id)

def parents (profileId depth : Nat) : List Meta :=
  t.metas.filter fun m =>
    m.profileId == profileId && m.depth == depth && 1 / 5 ≤ m.confidence && t.metaParents.any (·.1 == m.id)

def children (metaId : Nat) : List Meta := t.metas.filter fun m => t.metaParents.contains (metaId, m.id)

def sources (metaId : Nat) : List Semantic := t.semantic.filter fun r => t.metaSources.contains (metaId, r.id)

end Tables

/-- Suppressed: below the confidence any use of an entry asks for. -/
def Meta.low (m : Meta) : Bool := m.confidence < 1 / 5

def byTimestamp (m n : Working) : Bool := m.timestamp ≤ n.timestamp

/-- ASC puts NULL last. -/
def byEarliest (r q : Semantic) : Bool :=
  match r.earliestAt, q.earliestAt with
  | some a, some b => a ≤ b
  | none, some _ => false
  | _, none => true

def newestFirst (r q : Semantic) : Bool := q.createdAt ≤ r.createdAt

def oldestFirst (m n : Meta) : Bool := m.createdAt ≤ n.createdAt

def oldestSource (r q : Semantic) : Bool := r.createdAt ≤ q.createdAt

def byDepth (m n : Meta) : Bool := m.depth < n.depth ∨ (m.depth = n.depth ∧ m.createdAt ≤ n.createdAt)

/-- The rows in an order the statement allows. -/
def Ordered {α : Type} (le : α → α → Bool) (rows answer : List α) : Prop :=
  answer.Perm rows ∧ answer.Pairwise fun a b => le a b

instance {α : Type} [DecidableEq α] (le : α → α → Bool) (rows answer : List α) : Decidable (Ordered le rows answer) :=
  inferInstanceAs (Decidable (_ ∧ _))

def anyOrder {α : Type} : α → α → Bool := fun _ _ => true

/-- LIMIT 1 in an order that can be any. -/
def FirstOf {α : Type} (rows : List α) : Option α → Prop
  | some a => a ∈ rows
  | none => rows = []

instance {α : Type} [DecidableEq α] (rows : List α) : ∀ a, Decidable (FirstOf rows a)
  | some a => inferInstanceAs (Decidable (a ∈ rows))
  | none => inferInstanceAs (Decidable (rows = []))

def Answers : (o : Op) → Tables → Ans o → Prop
  | .now, t, a => a = t.clock
  | .countUnconsolidated, t, a => a = t.unconsolidated.length
  | .sessionsToConsolidate, t, a => Ordered anyOrder t.toConsolidate a
  | .chatProfile chatId, t, a => a = (t.chats.find? (·.id == chatId)).map (·.profileId)
  | .unlinkedMessages sessionId, t, a => Ordered byTimestamp (t.unlinked sessionId) a
  | .insertSemantic _, t, a => a = t.nextId
  | .condensationCandidates threshold, t, a => Ordered anyOrder (t.candidates threshold) a
  | .uncondensedSummaries chatId _, t, a => Ordered byEarliest (t.uncondensedOf chatId) a
  | .profileIds, t, a => Ordered anyOrder t.profileIds a
  | .lastReflectionAt, t, a => a = t.lastReflectionAt
  | .recentEntries profileId since, t, a => Ordered newestFirst (t.recent profileId since) a
  | .nearestMeta profileId type depth, t, a => FirstOf (t.active profileId type depth) a
  | .insertMeta _, t, a => a = t.nextId
  | .uncondensedMetas profileId type depth, t, a =>
    Ordered oldestFirst (t.uncondensedActive profileId type depth) a
  | .parentMetas profileId depth, t, a => Ordered anyOrder (t.parents profileId depth) a
  | .childCounts metaId, t, a => a = ((t.children metaId).length, (t.children metaId).countP (·.low))
  | .metaDepth metaId, t, a => a = (t.metas.find? (·.id == metaId)).map (·.depth)
  | .sourcesOf metaId, t, a => Ordered oldestSource (t.sources metaId) a
  | .childrenOf metaId, t, a => Ordered byDepth (t.children metaId) a
  | .getProfile profileId, t, a => a = t.profiles.find? (·.id == profileId)
  | .countProfiles, t, a => a = t.profiles.length
  | .insertProfile name description isDefault now, t, a => a = ⟨t.nextId, name, description, isDefault, now, now⟩
  | .clone _ name description now, t, a => a = ⟨t.nextId, name, description, false, now, now⟩
  | .countChats profileId, t, a => a = (t.chats.filter (·.profileId == profileId)).length
  | _, _, _ => True

/-! ## What a statement writes -/

namespace Tables

variable (t : Tables)

/-- DELETE FROM memory_semantic, with ON DELETE CASCADE. -/
def dropSemantic (gone : Semantic → Bool) : Tables :=
  let ids := (t.semantic.filter gone).map (·.id)
  { t with
    semantic := t.semantic.filter fun r => !gone r
    messageSources := t.messageSources.filter fun e => e.1 ∉ ids
    parentSources := t.parentSources.filter fun e => e.1 ∉ ids ∧ e.2 ∉ ids
    metaSources := t.metaSources.filter fun e => e.2 ∉ ids }

/-- DELETE FROM memory_meta, with ON DELETE CASCADE. -/
def dropMetas (gone : Meta → Bool) : Tables :=
  let ids := (t.metas.filter gone).map (·.id)
  { t with
    metas := t.metas.filter fun m => !gone m
    metaSources := t.metaSources.filter fun e => e.1 ∉ ids
    metaParents := t.metaParents.filter fun e => e.1 ∉ ids ∧ e.2 ∉ ids }

def semanticIdsOf (profileId : Nat) : List Nat := (t.semantic.filter (·.profileId == profileId)).map (·.id)

def metaIdsOf (profileId : Nat) : List Nat := (t.metas.filter (·.profileId == profileId)).map (·.id)

end Tables

/-- The ids given to copies of the rows `ids`, counting from `base`: the id maps of
    `cloneProfile`. -/
def copied (ids : List Nat) (base id : Nat) : Option Nat := (ids.idxOf? id).map (base + ·)

/-- An edge with both ends mapped. -/
def remap (f g : Nat → Option Nat) (e : Nat × Nat) : Option (Nat × Nat) := do
  let a ← f e.1
  let b ← g e.2
  return (a, b)

theorem copied_some {ids : List Nat} {base id y : Nat} (h : copied ids base id = some y) :
    ∃ k, ∃ hk : k < ids.length, y = base + k ∧ ids[k] = id := by
  obtain ⟨k, hk, rfl⟩ := Option.map_eq_some_iff.mp h
  obtain ⟨hlt, hid, _⟩ := List.idxOf?_eq_some_iff.mp hk
  exact ⟨k, hlt, rfl, hid⟩

theorem copied_ge {ids : List Nat} {base id y : Nat} (h : copied ids base id = some y) : base ≤ y := by
  obtain ⟨k, _, rfl, _⟩ := copied_some h
  omega

theorem remap_some {f g : Nat → Option Nat} {e e' : Nat × Nat} (h : remap f g e = some e') :
    f e.1 = some e'.1 ∧ g e.2 = some e'.2 := by
  simp only [remap, Option.bind_eq_bind, Option.bind_eq_some_iff, Option.pure_def, Option.some.injEq] at h
  obtain ⟨a, ha, b, hb, rfl⟩ := h
  exact ⟨ha, hb⟩

def Tables.clone (t : Tables) (sourceId : Nat) (profile : Profile) (now : Nat) : Tables :=
  let semantics := t.semantic.filter (·.profileId == sourceId)
  let metas := t.metas.filter (·.profileId == sourceId)
  let semanticBase := profile.id + 1
  let metaBase := semanticBase + semantics.length
  let semanticIdMap := copied (semantics.map (·.id)) semanticBase
  let metaIdMap := copied (metas.map (·.id)) metaBase
  { t with
    profiles := profile :: t.profiles
    semantic := (semantics.mapIdx fun k r =>
      { r with id := semanticBase + k, profileId := profile.id, createdAt := now }) ++ t.semantic
    metas := (metas.mapIdx fun k m => { m with id := metaBase + k, profileId := profile.id, createdAt := now }) ++ t.metas
    messageSources := t.messageSources.filterMap (fun e => (semanticIdMap e.1).map (·, e.2)) ++ t.messageSources
    parentSources := t.parentSources.filterMap (remap semanticIdMap semanticIdMap) ++ t.parentSources
    metaSources := t.metaSources.filterMap (remap metaIdMap semanticIdMap) ++ t.metaSources
    metaParents := t.metaParents.filterMap (remap metaIdMap metaIdMap) ++ t.metaParents
    nextId := metaBase + metas.length }

def effect : (o : Op) → Tables → Ans o → Tables
  | .insertSemantic row, t, id => { t with semantic := ⟨row, id⟩ :: t.semantic, nextId := t.nextId + 1 }
  | .linkMessage summaryId key _, t, _ => { t with messageSources := (summaryId, key) :: t.messageSources }
  | .setLastConsolidation now, t, _ => { t with lastConsolidationAt := some now }
  | .linkSummary parentId childId, t, _ => { t with parentSources := (parentId, childId) :: t.parentSources }
  | .profileIds, t, _ => { t with listed := t.nextId, reads := [] }
  | .recentEntries profileId _, t, rows =>
    { t with reads := ⟨profileId, rows.map (·.id), t.nextId⟩ :: t.reads
             inputs := ⟨profileId, rows.map (·.id), t.nextId⟩ :: t.inputs }
  | .setConfidence metaId confidence, t, _ =>
    { t with metas := t.metas.map fun m => if m.id = metaId then { m with confidence } else m }
  | .insertMeta row, t, id => { t with metas := ⟨row, id⟩ :: t.metas, nextId := t.nextId + 1 }
  | .linkSource metaId semanticId, t, _ => { t with metaSources := t.metaSources.insert (metaId, semanticId) }
  | .linkMeta parentId childId, t, _ => { t with metaParents := t.metaParents.insert (parentId, childId) }
  | .setLastReflection now, t, _ => { t with lastReflectionAt := some now }
  | .insertProfile .., t, profile => { t with profiles := profile :: t.profiles, nextId := t.nextId + 1 }
  | .makeDefault profileId now, t, _ =>
    { t with profiles := t.profiles.map fun p =>
        if p.id = profileId then { p with isDefault := true, updatedAt := now }
        else if p.isDefault then { p with isDefault := false, updatedAt := now } else p }
  | .setChatProfile chatId profileId, t, _ =>
    { t with chats := t.chats.map fun c => if c.id = chatId then { c with profileId } else c }
  | .clone sourceId _ _ now, t, profile => t.clone sourceId profile now
  | .deleteMetaSourcesByMeta profileId, t, _ =>
    { t with metaSources := t.metaSources.filter fun e => e.1 ∉ t.metaIdsOf profileId }
  | .deleteMetaSourcesBySemantic profileId, t, _ =>
    { t with metaSources := t.metaSources.filter fun e => e.2 ∉ t.semanticIdsOf profileId }
  | .deleteSummaryParents profileId, t, _ =>
    { t with parentSources := t.parentSources.filter fun e =>
        ¬(e.1 ∈ t.semanticIdsOf profileId ∨ e.2 ∈ t.semanticIdsOf profileId) }
  | .deleteSummaryMessages profileId, t, _ =>
    { t with messageSources := t.messageSources.filter fun e => e.1 ∉ t.semanticIdsOf profileId }
  | .deleteMetas profileId, t, _ => t.dropMetas (·.profileId == profileId)
  | .deleteSemantics profileId, t, _ => t.dropSemantic (·.profileId == profileId)
  | .deleteProfileRow profileId, t, _ => { t with profiles := t.profiles.filter (·.id != profileId) }
  | .deleteSemantic memoryId, t, _ => t.dropSemantic (·.id == memoryId)
  | _, t, _ => t

instance : (o : Op) → (t : Tables) → (a : Ans o) → Decidable (Answers o t a) := by
  intro o t a
  cases o
  all_goals first
    | exact inferInstanceAs (Decidable (_ = _))
    | exact inferInstanceAs (Decidable (Ordered _ _ _))
    | exact inferInstanceAs (Decidable (FirstOf _ _))
    | exact isTrue trivial

def service : Service Op Ans Db where
  exec o s a := if Answers o s.toTables a then Db.commit (effect o s.toTables a) else none

theorem exec_spec {o : Op} {s t : Db} {a : Ans o} (h : service.exec o s a = some t) :
    Answers o s.toTables a ∧ t.toTables = effect o s.toTables a := by
  simp only [service] at h
  split at h
  · exact ⟨‹_›, Db.commit_some h⟩
  · cases h

/-! ## Answers there always are -/

/-- What the embeddings and the model decide. -/
structure Provider where
  text : Prompt → String
  similarity : ℚ

def sorted {α : Type} (le : α → α → Bool) (rows : List α) : List α := rows.insertionSort fun a b => le a b

/-- One answer of each operation. -/
def Provider.answer (provider : Provider) : (o : Op) → Tables → Ans o
  | .summarize _ _ prompt, _ => provider.text prompt
  | .embed _, _ => ()
  | .now, t => t.clock
  | .countUnconsolidated, t => t.unconsolidated.length
  | .sessionsToConsolidate, t => t.toConsolidate
  | .chatProfile chatId, t => (t.chats.find? (·.id == chatId)).map (·.profileId)
  | .unlinkedMessages sessionId, t => sorted byTimestamp (t.unlinked sessionId)
  | .insertSemantic _, t => t.nextId
  | .linkMessage .., _ => ()
  | .setLastConsolidation _, _ => ()
  | .condensationCandidates threshold, t => t.candidates threshold
  | .uncondensedSummaries chatId _, t => sorted byEarliest (t.uncondensedOf chatId)
  | .linkSummary .., _ => ()
  | .profileIds, t => t.profileIds
  | .lastReflectionAt, t => t.lastReflectionAt
  | .recentEntries profileId since, t => sorted newestFirst (t.recent profileId since)
  | .nearestMeta profileId type depth, t => (t.active profileId type depth).head?
  | .similarity _, _ => provider.similarity
  | .setConfidence .., _ => ()
  | .insertMeta _, t => t.nextId
  | .linkSource .., _ => ()
  | .uncondensedMetas profileId type depth, t => sorted oldestFirst (t.uncondensedActive profileId type depth)
  | .linkMeta .., _ => ()
  | .parentMetas profileId depth, t => t.parents profileId depth
  | .childCounts metaId, t => ((t.children metaId).length, (t.children metaId).countP (·.low))
  | .setLastReflection _, _ => ()
  | .metaDepth metaId, t => (t.metas.find? (·.id == metaId)).map (·.depth)
  | .sourcesOf metaId, t => sorted oldestSource (t.sources metaId)
  | .childrenOf metaId, t => sorted byDepth (t.children metaId)
  | .getProfile profileId, t => t.profiles.find? (·.id == profileId)
  | .countProfiles, t => t.profiles.length
  | .insertProfile name description isDefault now, t => ⟨t.nextId, name, description, isDefault, now, now⟩
  | .makeDefault .., _ => ()
  | .setChatProfile .., _ => ()
  | .clone _ name description now, t => ⟨t.nextId, name, description, false, now, now⟩
  | .countChats profileId, t => (t.chats.filter (·.profileId == profileId)).length
  | .deleteMetaSourcesByMeta _, _ => ()
  | .deleteMetaSourcesBySemantic _, _ => ()
  | .deleteSummaryParents _, _ => ()
  | .deleteSummaryMessages _, _ => ()
  | .deleteMetas _, _ => ()
  | .deleteSemantics _, _ => ()
  | .deleteProfileRow _, _ => ()
  | .deleteSemantic _, _ => ()

theorem ordered_any {α : Type} (rows : List α) : Ordered anyOrder rows rows := ⟨.refl _, List.pairwise_of_forall fun _ _ => rfl⟩

theorem ordered_sorted {α : Type} {le : α → α → Bool} (htotal : ∀ a b, le a b = true ∨ le b a = true)
    (htrans : ∀ a b c, le a b = true → le b c = true → le a c = true) (rows : List α) :
    Ordered le rows (sorted le rows) := by
  have : Std.Total fun a b : α => le a b = true := ⟨htotal⟩
  have : IsTrans α fun a b => le a b = true := ⟨htrans⟩
  exact ⟨List.perm_insertionSort _ rows, List.pairwise_insertionSort _ rows⟩

theorem firstOf_head {α : Type} (rows : List α) : FirstOf rows rows.head? := by
  cases rows with
  | nil => rfl
  | cons a rows => exact .head _

theorem answers_answer (provider : Provider) (o : Op) (t : Tables) : Answers o t (provider.answer o t) := by
  cases o with
  | sessionsToConsolidate => exact ordered_any _
  | condensationCandidates threshold => exact ordered_any _
  | profileIds => exact ordered_any _
  | parentMetas profileId depth => exact ordered_any _
  | unlinkedMessages sessionId =>
    refine ordered_sorted ?_ ?_ _
    · simp only [byTimestamp, decide_eq_true_eq]
      omega
    · simp only [byTimestamp, decide_eq_true_eq]
      omega
  | uncondensedSummaries chatId profileId =>
    refine ordered_sorted ?_ ?_ _
    · intro r q
      simp only [byEarliest]
      cases r.earliestAt <;> cases q.earliestAt <;> simp only [decide_eq_true_eq, true_or, or_true]
      omega
    · intro r q p
      simp only [byEarliest]
      cases r.earliestAt <;> cases q.earliestAt <;> cases p.earliestAt <;>
        simp only [decide_eq_true_eq, Bool.false_eq_true, false_imp_iff, imp_true_iff]
      omega
  | recentEntries profileId since =>
    refine ordered_sorted ?_ ?_ _
    · simp only [newestFirst, decide_eq_true_eq]
      omega
    · simp only [newestFirst, decide_eq_true_eq]
      omega
  | uncondensedMetas profileId type depth =>
    refine ordered_sorted ?_ ?_ _
    · simp only [oldestFirst, decide_eq_true_eq]
      omega
    · simp only [oldestFirst, decide_eq_true_eq]
      omega
  | sourcesOf metaId =>
    refine ordered_sorted ?_ ?_ _
    · simp only [oldestSource, decide_eq_true_eq]
      omega
    · simp only [oldestSource, decide_eq_true_eq]
      omega
  | childrenOf metaId =>
    refine ordered_sorted ?_ ?_ _
    · simp only [byDepth, decide_eq_true_eq]
      omega
    · simp only [byDepth, decide_eq_true_eq]
      omega
  | nearestMeta profileId type depth =>
    exact firstOf_head _
  | _ => first | rfl | trivial

theorem exec_reads {o : Op} (ho : ∀ t a, effect o t a = t) : service.Reads o := by
  intro s a t h
  apply Db.ext_tables
  rw [(exec_spec h).2, ho]

/-! ## Rows a statement finds again -/

/-- What any statement does to the memory rows: it keeps a row or drops it, writes nothing
    of a kept one but the confidence of a meta entry, and adds rows under fresh ids. -/
structure Tables.Grows (s t : Tables) : Prop where
  nextId : s.nextId ≤ t.nextId
  semantic : ∀ r ∈ t.semantic, r ∈ s.semantic ∨ s.nextId ≤ r.id
  metas : ∀ m ∈ t.metas, (∃ m₀ ∈ s.metas, { m₀ with confidence := m.confidence } = m) ∨ s.nextId ≤ m.id

namespace Tables.Grows

theorem same {s t : Tables} (hn : s.nextId ≤ t.nextId) (hs : ∀ r ∈ t.semantic, r ∈ s.semantic)
    (hm : ∀ m ∈ t.metas, m ∈ s.metas) : s.Grows t :=
  ⟨hn, fun r hr => Or.inl (hs r hr), fun m h => Or.inl ⟨m, hm m h, rfl⟩⟩

theorem refl (s : Tables) : s.Grows s := .same (le_refl _) (fun _ h => h) fun _ h => h

theorem trans {s t u : Tables} (h1 : s.Grows t) (h2 : t.Grows u) : s.Grows u := by
  refine ⟨h1.nextId.trans h2.nextId, ?_, ?_⟩
  · intro r hr
    rcases h2.semantic r hr with hr | hr
    · exact h1.semantic r hr
    · exact Or.inr (h1.nextId.trans hr)
  · intro m hm
    rcases h2.metas m hm with ⟨m₁, hm₁, h₁⟩ | hm
    · rcases h1.metas m₁ hm₁ with ⟨m₀, hm₀, h₀⟩ | hm₁
      · refine Or.inl ⟨m₀, hm₀, ?_⟩
        rw [← h₁, ← h₀]
      · refine Or.inr ?_
        rw [← h₁]
        exact hm₁
    · exact Or.inr (h1.nextId.trans hm)

/-- What is known of the T2 row `id`, as long as there is one, is known of it later. -/
theorem row {P : Semantic → Prop} {s t : Tables} {id : Nat} (hg : s.Grows t)
    (h : id < s.nextId ∧ ∀ r ∈ s.semantic, r.id = id → P r) : id < t.nextId ∧ ∀ r ∈ t.semantic, r.id = id → P r := by
  refine ⟨lt_of_lt_of_le h.1 hg.nextId, ?_⟩
  intro r hr hid
  rcases hg.semantic r hr with hr | hr
  · exact h.2 r hr hid
  · have := h.1
    omega

end Tables.Grows

theorem Tables.dropSemantic_grows (t : Tables) (gone : Semantic → Bool) : t.Grows (t.dropSemantic gone) :=
  .same (le_refl _) (fun _ h => (List.mem_filter.mp h).1) fun _ h => h

theorem Tables.dropMetas_grows (t : Tables) (gone : Meta → Bool) : t.Grows (t.dropMetas gone) :=
  .same (le_refl _) (fun _ h => h) fun _ h => (List.mem_filter.mp h).1

theorem Tables.clone_grows (t : Tables) (sourceId now : Nat) {profile : Profile} (hp : profile.id = t.nextId) :
    t.Grows (t.clone sourceId profile now) := by
  refine ⟨?_, ?_, ?_⟩
  · show t.nextId ≤ profile.id + 1 + _ + _
    omega
  · intro r hr
    rcases List.mem_append.mp hr with hr | hr
    · obtain ⟨k, hk, rfl⟩ := List.mem_mapIdx.mp hr
      refine Or.inr ?_
      show t.nextId ≤ profile.id + 1 + k
      omega
    · exact Or.inl hr
  · intro m hm
    rcases List.mem_append.mp hm with hm | hm
    · obtain ⟨k, hk, rfl⟩ := List.mem_mapIdx.mp hm
      refine Or.inr ?_
      show t.nextId ≤ profile.id + 1 + _ + k
      omega
    · exact Or.inl ⟨m, hm, rfl⟩

theorem effect_grows {o : Op} {t : Tables} {a : Ans o} (h : Answers o t a) : t.Grows (effect o t a) := by
  cases o with
  | insertSemantic row =>
    refine ⟨Nat.le_succ _, ?_, fun m hm => Or.inl ⟨m, hm, rfl⟩⟩
    intro r hr
    rcases List.mem_cons.mp hr with rfl | hr
    · exact Or.inr (le_of_eq (Eq.symm h))
    · exact Or.inl hr
  | insertMeta row =>
    refine ⟨Nat.le_succ _, fun r hr => Or.inl hr, ?_⟩
    intro m hm
    rcases List.mem_cons.mp hm with rfl | hm
    · exact Or.inr (le_of_eq (Eq.symm h))
    · exact Or.inl ⟨m, hm, rfl⟩
  | setConfidence metaId confidence =>
    refine ⟨le_refl _, fun r hr => Or.inl hr, ?_⟩
    intro m hm
    obtain ⟨m₀, hm₀, rfl⟩ := List.mem_map.mp hm
    refine Or.inl ⟨m₀, hm₀, ?_⟩
    split <;> rfl
  | insertProfile => exact .same (Nat.le_succ _) (fun _ h => h) fun _ h => h
  | clone sourceId name description now => exact Tables.clone_grows t sourceId now (by rw [h])
  | deleteMetas profileId => exact t.dropMetas_grows _
  | deleteSemantics profileId => exact t.dropSemantic_grows _
  | deleteSemantic memoryId => exact t.dropSemantic_grows _
  | _ => exact .same (le_refl _) (fun _ h => h) fun _ h => h

theorem exec_grows {o : Op} {s t : Db} {a : Ans o} (h : service.exec o s a = some t) : s.Grows t.toTables := by
  obtain ⟨ha, ht⟩ := exec_spec h
  rw [ht]
  exact effect_grows ha

theorem mem_insertSemantic {row : SemanticColumns} {s t : Db} {id : Nat}
    (h : service.exec (.insertSemantic row) s id = some t) : (⟨row, id⟩ : Semantic) ∈ t.semantic := by
  rw [(exec_spec h).2]
  exact .head _

theorem mem_insertMeta {row : MetaColumns} {s t : Db} {id : Nat} (h : service.exec (.insertMeta row) s id = some t) :
    (⟨row, id⟩ : Meta) ∈ t.metas := by
  rw [(exec_spec h).2]
  exact .head _

end FlowHelm.Memory
