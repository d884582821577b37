/-
  FlowHelm.Memory.World — the memory of one user as a machine: the two jobs, the requests
  of the profile manager and of memory.ts, and the messages and sessions that arrive
  between any two of their statements.

  A job runs once at a time (`running` of the two job classes); any number of requests
  can be under way. A statement of one can fall between any two of another, each can be
  refused or executed with its answer lost, and the process can die at any point.

  - `arrive_keeps`: what arrives writes none of the memory tiers above the messages.
  - `smallConfig`, `wholeJob`, `played`: the small runs the other modules give as examples.
-/
import FlowHelm.Lib.RelyGuarantee
import FlowHelm.Memory.Profiles
import FlowHelm.Memory.Consolidation
import FlowHelm.Memory.Reflection

namespace FlowHelm.Memory

open Js Script Prog

inductive Request where
  | createProfile (name : String) (description : Option String)
  | deleteProfile (profileId : Nat)
  | setDefaultProfile (profileId : Nat)
  | assignChat (chatId : String) (profileId : Nat)
  | cloneProfile (sourceId : Nat) (newName : String) (newDescription : Option String)
  | storeSemanticMemory (options : StoreSemanticOptions)
  | deleteSemanticMemory (memoryId : Nat)
  deriving DecidableEq

inductive Job where
  | consolidation
  | reflection
  | request (number : Nat) (request : Request)
  deriving DecidableEq

structure Config where
  maxProfilesPerUser : Nat
  consolidation : ConsolidationConfig
  reflection : ReflectionConfig
  numberText : ℚ → JsString

def discard {α : Type} (p : Script α) : Script Unit := p.bind fun _ => .ret ()

def Request.program (maxProfiles : Nat) : Request → Script Unit
  | .createProfile name description => discard (Memory.createProfile maxProfiles name description)
  | .deleteProfile profileId => Memory.deleteProfile profileId
  | .setDefaultProfile profileId => Memory.setDefaultProfile profileId
  | .assignChat chatId profileId => discard (Memory.assignChat chatId profileId)
  | .cloneProfile sourceId newName newDescription =>
    discard (Memory.cloneProfile maxProfiles sourceId newName newDescription)
  | .storeSemanticMemory options => discard (Memory.storeSemanticMemory options)
  | .deleteSemanticMemory memoryId => Memory.deleteSemanticMemory memoryId

def Job.program (cfg : Config) : Job → Script Unit
  | .consolidation => discard (Consolidation.run cfg.consolidation)
  | .reflection => discard (Reflection.run cfg.reflection cfg.numberText)
  | .request _ r => r.program cfg.maxProfilesPerUser

/-! ## What arrives -/

inductive Arrival where
  | upsertChat (chatId : String) (profileId : Nat)
  | storeMessage (message : Working)
  | startSession (chatId : String)
  | endSession (sessionId : Nat)
  | backfillSessionId (key : MessageKey) (sessionId : Nat)
  | tick
  deriving DecidableEq

def Arrival.effect (t : Tables) : Arrival → Tables
  | .upsertChat chatId profileId => if chatId ∈ t.chatIds then t else { t with chats := ⟨chatId, profileId⟩ :: t.chats }
  | .storeMessage message =>
    if message.key ∈ t.messageKeys then t else { t with working := message :: t.working }
  | .startSession chatId =>
    { t with sessions := ⟨t.nextId, chatId, t.clock, none⟩ :: t.sessions, nextId := t.nextId + 1 }
  | .endSession sessionId =>
    { t with sessions := t.sessions.map fun s => if s.id = sessionId then { s with endedAt := some t.clock } else s }
  | .backfillSessionId key sessionId =>
    { t with working := t.working.map fun m =>
        if m.key = key ∧ m.sessionId = none then { m with sessionId := some sessionId } else m }
  | .tick => { t with clock := t.clock + 1 }

def arrive (s : Db) (e : Arrival) : Option Db := Db.commit (e.effect s.toTables)

def world (cfg : Config) : Machine Op Ans Db Job Arrival where
  svc := service
  init := .empty
  program := Job.program cfg
  env := arrive

/-- The profiles, the rows and links of Tier 2 and Tier 3, and what reflection has recorded. -/
structure Tables.SameMemory (s t : Tables) : Prop where
  profiles : t.profiles = s.profiles
  semantic : t.semantic = s.semantic
  messageSources : t.messageSources = s.messageSources
  parentSources : t.parentSources = s.parentSources
  metas : t.metas = s.metas
  metaSources : t.metaSources = s.metaSources
  metaParents : t.metaParents = s.metaParents
  lastReflectionAt : t.lastReflectionAt = s.lastReflectionAt
  listed : t.listed = s.listed
  reads : t.reads = s.reads
  inputs : t.inputs = s.inputs
  nextId : s.nextId ≤ t.nextId

theorem Tables.SameMemory.refl (t : Tables) : t.SameMemory t := ⟨rfl, rfl, rfl, rfl, rfl, rfl, rfl, rfl, rfl, rfl, rfl, le_refl _⟩

theorem Arrival.effect_keeps (t : Tables) (e : Arrival) : t.SameMemory (e.effect t) := by
  cases e with
  | upsertChat chatId profileId =>
    simp only [Arrival.effect]
    split
    · exact .refl t
    · exact ⟨rfl, rfl, rfl, rfl, rfl, rfl, rfl, rfl, rfl, rfl, rfl, le_refl _⟩
  | storeMessage message =>
    simp only [Arrival.effect]
    split
    · exact .refl t
    · exact ⟨rfl, rfl, rfl, rfl, rfl, rfl, rfl, rfl, rfl, rfl, rfl, le_refl _⟩
  | startSession chatId => exact ⟨rfl, rfl, rfl, rfl, rfl, rfl, rfl, rfl, rfl, rfl, rfl, Nat.le_succ _⟩
  | endSession sessionId => exact ⟨rfl, rfl, rfl, rfl, rfl, rfl, rfl, rfl, rfl, rfl, rfl, le_refl _⟩
  | backfillSessionId key sessionId => exact ⟨rfl, rfl, rfl, rfl, rfl, rfl, rfl, rfl, rfl, rfl, rfl, le_refl _⟩
  | tick => exact ⟨rfl, rfl, rfl, rfl, rfl, rfl, rfl, rfl, rfl, rfl, rfl, le_refl _⟩

theorem arrive_keeps {s t : Db} {e : Arrival} (h : arrive s e = some t) : s.SameMemory t.toTables := by
  rw [Db.commit_some h]
  exact e.effect_keeps s.toTables

theorem arrive_grows {s t : Db} {e : Arrival} (h : arrive s e = some t) : s.Grows t.toTables := by
  have hk := arrive_keeps h
  exact .same hk.nextId (by rw [hk.semantic]; exact fun _ h => h) (by rw [hk.metas]; exact fun _ h => h)

/-! ## Concrete runs -/

/-- Two messages a summary, two summaries a condensation, two entries a reflection. -/
def smallConfig : Config where
  maxProfilesPerUser := 5
  consolidation := ⟨1, 2, 2, 400, 500, by decide, by decide, by decide⟩
  reflection := ⟨true, 1000, 2, 3 / 10, 2, 400, 300, 3, true⟩
  numberText _ := []

/-- A model that answers every prompt with an empty array. -/
def terse : Provider := ⟨fun _ => "[]", 0⟩

abbrev Moves := List (Move Op Ans Job Arrival)

/-- A job from its start to its end, of at most `n` operations. -/
def wholeJob (j : Job) (n : Nat) : Moves :=
  .event (.start j) :: List.replicate n (.next j) ++ [.event (.finish j)]

def request (number : Nat) (r : Request) : Moves := wholeJob (.request number r) 12

def said (id : String) (time : Nat) (session : Nat) : Working := ⟨id, "tg:1", Js.ofString "ann", none, time, false, some session⟩

/-- Profiles 0 and 1, and a session (2) of a chat of profile 0 that has ended with three messages. -/
def threeMessages : Moves :=
  request 0 (.createProfile "home" none) ++ request 1 (.createProfile "work" none) ++
    [.event (.env (.upsertChat "tg:1" 0)), .event (.env (.startSession "tg:1")),
      .event (.env (.storeMessage (said "a" 1 2))), .event (.env (.storeMessage (said "b" 2 2))),
      .event (.env (.storeMessage (said "c" 3 2))), .event (.env (.endSession 2))]

def stored (content : String) : Request :=
  .storeSemanticMemory ⟨Js.ofString content, .fact, none, none, none, 0⟩

/-- A profile with two entries. -/
def twoEntries : Moves :=
  request 0 (.createProfile "home" none) ++ .event (.env .tick) :: request 1 (stored "a") ++ request 2 (stored "b") ++
    [.event (.env .tick)]

/-- A model that finds two insights in the entries, and one in the two. -/
def musing : Provider where
  text
    | .d0Prompts .insight => "[\x7b\"content\": \"x\"\x7d, \x7b\"content\": \"y\"\x7d]"
    | .d1Prompts .insight => "[\x7b\"content\": \"z\"\x7d]"
    | _ => "[]"
  similarity := 0

/-- A model whose first reflection contradicts the nearest entry, and whose second has no
    confidence the CHECK admits. -/
def doubting : Provider where
  text
    | .d0Prompts .insight =>
      "[\x7b\"content\": \"x\", \"confidence\": 0\x7d, \x7b\"content\": \"y\", \"confidence\": \"high\"\x7d]"
    | _ => "[]"
  similarity := 8 / 10

def continuedBy (provider : Provider) : Conf Op Ans Db Job → Moves → List (Event Op Ans Job Arrival) :=
  (world smallConfig).events fun o s => provider.answer o s.toTables

def playedBy (provider : Provider) : Moves → List (Event Op Ans Job Arrival) := continuedBy provider ⟨.empty, fun _ => none⟩

def played : Moves → List (Event Op Ans Job Arrival) := playedBy terse

end FlowHelm.Memory
