/-
  FlowHelm.Memory.Atomicity — which failures of `consolidateSession` leave a d0 summary
  that is not linked to the messages it was made from.

  A chunk takes one INSERT for the summary and one for each of its messages, with no
  transaction around them. A failure before the first leaves nothing, one between the
  first and the last leaves a summary with some of its messages missing. A fact the
  provider calls a summary is a d0 summary of no message.

  - `allComplete_insert`: a summary just inserted is incomplete.
  - `tracks_linkMessages`: the messages still to be linked decide what a failure leaves.
  - `facts_storeFacts`: the facts of an answer are stored in turn.
  - `summaries_are_complete`: every summary is complete after a call just if every one was
    before, no step of the call failed so, and no fact was stored so.
  - `a_failed_link_leaves_half_a_summary`: a call with such a step.
-/
import FlowHelm.Memory.Partition

namespace FlowHelm.Memory

open Js Script Prog Runs

/-- Linked to the messages of its chunk and to no others, of which there are some. -/
def Complete (t : Tables) (r : Semantic) : Prop := r.chunk ≠ [] ∧ ∀ key, (r.id, key) ∈ t.messageSources ↔ key ∈ r.chunk

def AllComplete (t : Tables) : Prop := ∀ r ∈ t.semantic, r.IsD0Summary → Complete t r

/-- A step that leaves no summary incomplete: not the INSERT of a chunk's summary whose answer
    is lost, not a failed INSERT of a source (but the last one's, executed all the same). -/
def Harmless : Did Op Ans → Prop
  | .lost (.insertSemantic row) _ => row.IsD0Summary → row.chunk = []
  | .refused (.linkMessage ..) => False
  | .lost (.linkMessage _ _ rest) _ => rest = []
  | _ => True

/-! ## The facts in an answer -/

/-- The type of a fact that has a content and a type, where it is one the CHECK admits. -/
def factType (fact : Json) : Option SemanticMemoryType :=
  if ((fact.get "content").filter Json.truthy).isSome then
    ((fact.get "type").filter Json.truthy).bind fun type => (textOf type).bind SemanticMemoryType.ofText
  else none

/-- The types of the facts in an answer, in the order they come to be stored. -/
def factTypes (answer : String) : List SemanticMemoryType := match Json.parse answer with
  | some (.arr facts) => facts.filterMap factType
  | _ => []

/-- The INSERT of a fact, executed. -/
def storesFact : Did Op Ans → Bool
  | .ran (.insertSemantic row) _ | .lost (.insertSemantic row) _ => row.chunk.isEmpty
  | _ => false

/-- The facts still to be stored: those of the last answer without those that have been. -/
def upcoming (facts : List SemanticMemoryType) : Did Op Ans → List SemanticMemoryType
  | .ran (.summarize _ _ .factExtraction) answer => factTypes answer
  | d => if storesFact d then facts.tail else facts

/-- Of the facts in the provider's answers none is stored that is called a summary: where there
    is one, the call fails before its turn comes. -/
def NoFactIsSummary : List SemanticMemoryType → List (Did Op Ans) → Prop
  | _, [] => True
  | facts, d :: tr => (storesFact d = true → facts.head? ≠ some .summary) ∧ NoFactIsSummary (upcoming facts d) tr

instance : ∀ d, Decidable (Harmless d)
  | .ran _ _ => isTrue trivial
  | .refused o => by
    apply Op.casesOn (motive := fun o => Decidable (Harmless (.refused o))) o <;> intros <;>
      first | exact isTrue trivial | exact isFalse id
  | .lost o a => by
    revert a
    apply Op.casesOn (motive := fun o => ∀ a, Decidable (Harmless (.lost o a))) o <;> intros <;>
      first | exact isTrue trivial | exact inferInstanceAs (Decidable (_ → _ = _)) | exact inferInstanceAs (Decidable (_ = _))

instance : ∀ facts tr, Decidable (NoFactIsSummary facts tr)
  | _, [] => isTrue trivial
  | facts, d :: tr =>
    have : Decidable (NoFactIsSummary (upcoming facts d) tr) := instDecidableNoFactIsSummary (upcoming facts d) tr
    inferInstanceAs (Decidable (_ ∧ _))

/-! ## Steps by the rows they insert -/

/-- A fact stored is no summary. -/
def StoresNoSummary : Did Op Ans → Prop
  | .ran (.insertSemantic row) _ | .lost (.insertSemantic row) _ => row.chunk = [] → ¬row.IsD0Summary
  | _ => True

/-- What a step leaves of the summaries, by the row it inserts. -/
def LeavesComplete : Did Op Ans → Prop
  | .ran (.insertSemantic row) _ => row.IsD0Summary → row.chunk ≠ []
  | .lost (.insertSemantic row) _ => ¬row.IsD0Summary
  | .refused (.linkMessage ..) => False
  | .lost (.linkMessage _ _ rest) _ => rest = []
  | _ => True

theorem leavesComplete_iff (d : Did Op Ans) : LeavesComplete d ↔ Harmless d ∧ StoresNoSummary d := by
  cases d with
  | ran o a =>
    cases o with
    | insertSemantic row => simp only [LeavesComplete, Harmless, StoresNoSummary, true_and, ne_eq, imp_not_comm]
    | _ => exact ⟨fun _ => ⟨trivial, trivial⟩, fun _ => trivial⟩
  | refused o =>
    cases o with
    | linkMessage => exact ⟨fun h => h.elim, fun h => h.1⟩
    | _ => exact ⟨fun _ => ⟨trivial, trivial⟩, fun _ => trivial⟩
  | lost o a =>
    cases o with
    | insertSemantic row => exact ⟨fun h => ⟨fun hsum => (h hsum).elim, fun _ => h⟩, fun h hsum => h.2 (h.1 hsum) hsum⟩
    | linkMessage => exact ⟨fun h => ⟨h, trivial⟩, fun h => h.1⟩
    | _ => exact ⟨fun _ => ⟨trivial, trivial⟩, fun _ => trivial⟩

/-! ## Single steps -/

theorem unlinked_fresh {s : Db} {id : Nat} (hid : id = s.nextId) (key : MessageKey) : (id, key) ∉ s.messageSources := by
  intro hmem
  have := s.valid.semanticDrawn _ (s.valid.messageSourceSummary _ hmem)
  omega

theorem allComplete_insert {row : SemanticColumns} {s t : Db} {id : Nat}
    (hx : service.exec (.insertSemantic row) s id = some t) :
    AllComplete t.toTables ↔ AllComplete s.toTables ∧ ¬row.IsD0Summary := by
  have ht := (exec_spec hx).2
  have hsources : t.messageSources = s.messageSources := by rw [ht]; rfl
  have hrows : t.semantic = ⟨row, id⟩ :: s.semantic := by rw [ht]; rfl
  have hnew : ¬Complete t.toTables ⟨row, id⟩ := by
    rintro ⟨hne, hall⟩
    obtain ⟨key, hkey⟩ := List.exists_mem_of_ne_nil _ hne
    exact unlinked_fresh (exec_spec hx).1 key (hsources ▸ (hall key).mpr hkey)
  simp only [AllComplete, hrows, List.forall_mem_cons, Complete, hsources] at hnew ⊢
  rw [and_comm]
  exact and_congr_right fun _ => ⟨fun h hsum => hnew (h hsum), fun h hsum => (h hsum).elim⟩

/-- The summaries other than `id` are complete. -/
def OthersComplete (t : Tables) (id : Nat) : Prop := ∀ r ∈ t.semantic, r.id ≠ id → r.IsD0Summary → Complete t r

/-- The summary `id`, the messages of its chunk linked but for those still to be. -/
structure Pending (t : Tables) (row : SemanticColumns) (id : Nat) (todo : List MessageKey) : Prop where
  summary : row.IsD0Summary
  stored : (⟨row, id⟩ : Semantic) ∈ t.semantic
  chunk : row.chunk ≠ []
  subset : ∀ key ∈ todo, key ∈ row.chunk
  nodup : todo.Nodup
  linked : ∀ key, (id, key) ∈ t.messageSources ↔ key ∈ row.chunk ∧ key ∉ todo

theorem Pending.incomplete {t : Tables} {row : SemanticColumns} {id : Nat} {key : MessageKey} {rest : List MessageKey}
    (h : Pending t row id (key :: rest)) : ¬AllComplete t := by
  intro hall
  have hlinked := ((hall _ h.stored h.summary).2 key).mpr (h.subset key (.head _))
  exact ((h.linked key).mp hlinked).2 (.head _)

theorem Pending.complete {t : Db} {row : SemanticColumns} {id : Nat} (h : Pending t.toTables row id []) :
    AllComplete t.toTables ↔ OthersComplete t.toTables id := by
  refine ⟨fun hall r hr _ => hall r hr, fun hothers r hr hsum => ?_⟩
  by_cases hid : r.id = id
  · rw [t.semantic_unique hr h.stored hid]
    exact ⟨h.chunk, fun key => by simpa using h.linked key⟩
  · exact hothers r hr hid hsum

theorem othersComplete_link {id : Nat} {key : MessageKey} {rest : List MessageKey} {s t : Db}
    (hx : service.exec (.linkMessage id key rest) s () = some t) :
    OthersComplete t.toTables id ↔ OthersComplete s.toTables id := by
  have ht := (exec_spec hx).2
  have hsources : t.messageSources = (id, key) :: s.messageSources := by rw [ht]; rfl
  have hrows : t.semantic = s.semantic := by rw [ht]; rfl
  simp only [OthersComplete, Complete, hrows, hsources, List.mem_cons, Prod.mk.injEq]
  refine forall₃_congr fun r _ hid => ?_
  simp only [hid, false_and, false_or]

theorem Pending.link {s t : Db} {row : SemanticColumns} {id : Nat} {key : MessageKey} {rest todo : List MessageKey}
    (h : Pending s.toTables row id (key :: todo)) (hx : service.exec (.linkMessage id key rest) s () = some t) :
    Pending t.toTables row id todo := by
  have ht := (exec_spec hx).2
  obtain ⟨hkey, hnodup⟩ := List.nodup_cons.mp h.nodup
  refine ⟨h.summary, ?_, h.chunk, fun k hk => h.subset k (.tail _ hk), hnodup, fun k => ?_⟩
  · rw [ht]
    exact h.stored
  · rw [ht]
    show (id, k) ∈ (id, key) :: s.messageSources ↔ _
    rw [List.mem_cons, h.linked, Prod.mk.injEq, List.mem_cons]
    by_cases hk : k = key
    · subst hk
      simpa using ⟨h.subset k (.head _), hkey⟩
    · simp [hk]

theorem pending_insert {row : SemanticColumns} {s t : Db} {id : Nat} (hsum : row.IsD0Summary) (hchunk : row.chunk ≠ [])
    (hnodup : row.chunk.Nodup) (hx : service.exec (.insertSemantic row) s id = some t) :
    Pending t.toTables row id row.chunk ∧ (OthersComplete t.toTables id ↔ AllComplete s.toTables) := by
  have hid : id = s.nextId := (exec_spec hx).1
  have ht := (exec_spec hx).2
  have hsources : t.messageSources = s.messageSources := by rw [ht]; rfl
  have hrows : t.semantic = ⟨row, id⟩ :: s.semantic := by rw [ht]; rfl
  refine ⟨⟨hsum, mem_insertSemantic hx, hchunk, fun _ h => h, hnodup, fun key => ?_⟩, ?_⟩
  · rw [hsources]
    exact ⟨fun hmem => (unlinked_fresh hid key hmem).elim, fun h => (h.2 h.1).elim⟩
  · simp only [OthersComplete, AllComplete, Complete, hrows, hsources, List.forall_mem_cons]
    refine ⟨fun h r hr => h.2 r hr ?_, fun h => ⟨fun hne => (hne rfl).elim, fun r hr _ => h r hr⟩⟩
    have := s.valid.semanticDrawn r.id (List.mem_map_of_mem hr)
    omega

/-! ## Calls -/

/-- Keeps every summary complete just if no step of it is harmful. -/
abbrev TracksSummaries {α : Type} (p : Script α) : Prop := Tracks service (fun t : Db => AllComplete t.toTables) LeavesComplete p

def Op.writesSummary : Op → Bool
  | .insertSemantic _ => true
  | .linkMessage .. => true
  | _ => false

theorem leavesComplete_other {d : Did Op Ans} (h : d.op.writesSummary = false) : LeavesComplete d := by
  cases d with
  | ran o a => cases o <;> trivial
  | refused o => cases o <;> trivial
  | lost o a => cases o <;> trivial

theorem tracksSummaries_read {α : Type} {o : Op} (ho : ∀ t a, effect o t a = t) (hw : o.writesSummary = false)
    {k : Ans o → Script α} (hk : ∀ s a, service.exec o s a = some s → TracksSummaries (k a)) :
    TracksSummaries ((await o).bind k) :=
  tracks_read (exec_reads ho) (fun _ hd => leavesComplete_other (hd ▸ hw)) hk

theorem tracks_extractFacts (formatted : JsString) (sessionId profileId : Nat) :
    TracksSummaries (extractFacts formatted sessionId profileId) := by
  refine tracks_uses (P := fun o => o.extracts) ?_ ?_ (uses_extractFacts formatted sessionId profileId)
  · intro o ho
    cases o <;> trivial
  · intro o ho s a t hx
    cases o with
    | insertSemantic row =>
      have hchunk : row.chunk = [] := List.isEmpty_iff.mp ho
      refine ⟨?_, allComplete_insert hx⟩
      rw [allComplete_insert hx]
      exact and_congr_right fun _ => ⟨fun h hsum => (h hsum).elim, fun h hsum => h hsum hchunk⟩
    | summarize => rw [exec_reads (fun _ _ => rfl) _ _ _ hx]; exact ⟨(and_iff_left trivial).symm, (and_iff_left trivial).symm⟩
    | embed => rw [exec_reads (fun _ _ => rfl) _ _ _ hx]; exact ⟨(and_iff_left trivial).symm, (and_iff_left trivial).symm⟩
    | now => rw [exec_reads (fun _ _ => rfl) _ _ _ hx]; exact ⟨(and_iff_left trivial).symm, (and_iff_left trivial).symm⟩
    | _ => cases ho

/-- Where the call is cut decides which of its messages the summary is left without. -/
theorem tracks_linkMessages {rest : Script Unit} (hrest : TracksSummaries rest) {row : SemanticColumns} {id : Nat}
    {todo : List Working} {s t : Db} {q : Script Unit} {tr : List (Did Op Ans)}
    (h : Pending s.toTables row id (todo.map Working.key)) (hq : q.isDone)
    (hplay : play service ((linkMessages id todo).bind fun _ => rest) s tr = some (q, t)) :
    AllComplete t.toTables ↔ OthersComplete s.toTables id ∧ ∀ d ∈ tr, LeavesComplete d := by
  induction todo generalizing s tr with
  | nil =>
    rw [← h.complete]
    exact hrest s tr q t hq hplay
  | cons msg todo ih =>
    rcases play_op hq hplay with ⟨a, u, tr, rfl, hx, hp⟩ | ⟨tr, rfl, hp⟩ | ⟨a, u, tr, rfl, hx, hp⟩
    · rw [List.forall_mem_cons, ih (h.link hx) hp, othersComplete_link hx]
      simp [LeavesComplete]
    -- refused: this message and the later ones stay unlinked
    · obtain ⟨rfl, rfl, rfl⟩ := play_throw hp
      simp [LeavesComplete, h.incomplete]
    -- lost: linked all the same, the later ones stay unlinked
    · obtain ⟨rfl, rfl, rfl⟩ := play_throw hp
      have hlink := h.link hx
      cases todo with
      | nil =>
        rw [hlink.complete, othersComplete_link hx]
        simp [LeavesComplete]
      | cons next todo => simp [LeavesComplete, hlink.incomplete]

theorem tracks_consolidateChunk (cfg : ConsolidationConfig) (sessionId profileId : Nat) {chunk : List Working}
    (hne : chunk ≠ []) (hd : (chunk.map Working.key).Nodup) :
    TracksSummaries (consolidateChunk cfg sessionId profileId chunk) := by
  refine tracksSummaries_read (fun _ _ => rfl) rfl fun _ summary _ => ?_
  refine tracksSummaries_read (fun _ _ => rfl) rfl fun _ _ _ => ?_
  refine tracksSummaries_read (fun _ _ => rfl) rfl fun _ now _ => ?_
  have hchunk : chunk.map Working.key ≠ [] := fun h => hne (List.map_eq_nil_iff.mp h)
  intro s tr q t hq hplay
  show AllComplete t.toTables ↔ AllComplete s.toTables ∧ _
  rcases play_op hq hplay with ⟨id, u, tr, rfl, hx, hp⟩ | ⟨tr, rfl, hp⟩ | ⟨id, u, tr, rfl, hx, hp⟩
  · obtain ⟨hpending, hothers⟩ := pending_insert ⟨rfl, rfl⟩ hchunk hd hx
    rw [List.forall_mem_cons, tracks_linkMessages (tracks_extractFacts _ sessionId profileId) hpending hq hp, hothers]
    simp [LeavesComplete, hne]
  · obtain ⟨rfl, rfl, rfl⟩ := play_throw hp
    simp [LeavesComplete]
  · obtain ⟨rfl, rfl, rfl⟩ := play_throw hp
    rw [allComplete_insert hx]
    simp [LeavesComplete]

theorem tracks_consolidateSession (cfg : ConsolidationConfig) (sessionId : Nat) (chatId : String) :
    TracksSummaries (consolidateSession cfg sessionId chatId) := by
  refine tracksSummaries_read (fun _ _ => rfl) rfl fun s messages hx => ?_
  split
  · exact tracks_done rfl
  have hperm := (exec_spec hx).1.1
  have hd : (messages.map Working.key).Nodup :=
    (hperm.map _).nodup_iff.mpr (s.valid.workingKey.sublist (List.filter_sublist.map _))
  refine tracks_bind ?_ fun profileId => tracks_forEach fun chunk hc => ?_
  · refine tracksSummaries_read (fun _ _ => rfl) rfl fun _ row _ => ?_
    cases row with
    | none => exact tracks_done rfl
    | some profileId => exact tracks_done rfl
  · have hsub : chunk.Sublist messages := by
      rw [← chunkArray_flatten messages cfg.chunk_pos]
      exact List.sublist_flatten_of_mem hc
    exact tracks_consolidateChunk cfg sessionId profileId (chunkArray_ne_nil messages cfg.chunk_pos chunk hc)
      (hd.sublist (hsub.map _))

/-! ## The facts of an answer, in turn -/

theorem noFactIsSummary_append {facts : List SemanticMemoryType} {tr₁ tr₂ : List (Did Op Ans)} :
    NoFactIsSummary facts (tr₁ ++ tr₂) ↔ NoFactIsSummary facts tr₁ ∧ NoFactIsSummary (tr₁.foldl upcoming facts) tr₂ := by
  induction tr₁ generalizing facts with
  | nil => simp [NoFactIsSummary]
  | cons d tr₁ ih => simp [NoFactIsSummary, ih, and_assoc]

/-- The rows a program inserts for facts are no summaries just if the facts are none whose turn comes. -/
def Facts {α : Type} (facts : List SemanticMemoryType) (p : Script α) : Prop :=
  ∀ s tr q t, q.isDone → play service p s tr = some (q, t) → ((∀ d ∈ tr, StoresNoSummary d) ↔ NoFactIsSummary facts tr)

theorem facts_done {α : Type} {p : Script α} (hp : p.isDone) (facts : List SemanticMemoryType) : Facts facts p := by
  intro s tr q t _ h
  obtain ⟨rfl, _, rfl⟩ := play_done hp h
  simp [NoFactIsSummary]

theorem facts_bind {α β : Type} {facts : List SemanticMemoryType} {p : Script α} {f : α → Script β} (hp : Facts facts p)
    (hf : ∀ facts a, Facts facts (f a)) : Facts facts (p.bind f) := by
  intro s tr q t hq h
  rcases play_bind hq h with ⟨tr₁, tr₂, a, u, rfl, h1, h2⟩ | ⟨e, h1, rfl⟩
  · rw [List.forall_mem_append, noFactIsSummary_append, hp s tr₁ _ u rfl h1, hf _ a u tr₂ q t hq h2]
  · exact hp s tr _ t rfl h1

/-- A part that stores no fact. -/
theorem facts_uses {α : Type} {p : Script α} {P : Op → Prop} (hp : p.Uses P)
    (hP : ∀ o, P o → ∀ d : Did Op Ans, d.op = o → StoresNoSummary d ∧ storesFact d = false) (facts : List SemanticMemoryType) :
    Facts facts p := by
  intro s tr q t _ h
  have huses := play_uses hp h
  clear h
  induction tr generalizing facts with
  | nil => simp [NoFactIsSummary]
  | cons d tr ih =>
    obtain ⟨hd, htr⟩ := List.forall_mem_cons.mp huses
    obtain ⟨hstores, hnone⟩ := hP _ hd d rfl
    have hrest := ih (upcoming facts d) htr
    constructor
    · intro h
      exact ⟨fun hfact => absurd (hnone.symm.trans hfact) (by decide), hrest.mp (List.forall_mem_cons.mp h).2⟩
    · intro h
      exact List.forall_mem_cons.mpr ⟨hstores, hrest.mpr h.2⟩

theorem facts_attempt {α : Type} {facts : List SemanticMemoryType} {p : Script α} {handler : Exn Op → Script α}
    (hp : Facts facts p)
    (hh : ∀ facts e, Facts facts (handler e)) : Facts facts (p.attempt handler) := by
  intro s tr q t hq h
  rcases play_attempt hq h with ⟨a, h1, rfl⟩ | ⟨tr₁, tr₂, e, u, rfl, h1, h2⟩
  · exact hp s tr _ t rfl h1
  · rw [List.forall_mem_append, noFactIsSummary_append, hp s tr₁ _ u rfl h1, hh _ e u tr₂ q t hq h2]

/-- One operation that stores no fact, and what comes with its answer. -/
theorem facts_perform {α : Type} {o : Op} {facts : List SemanticMemoryType} (next : Ans o → List SemanticMemoryType)
    (ho : ∀ d : Did Op Ans, d.op = o → StoresNoSummary d ∧ storesFact d = false) (hnext : ∀ a, upcoming facts (.ran o a) = next a)
    {k : Ans o → Script α} (hk : ∀ a, Facts (next a) (k a)) : Facts facts ((await o).bind k) := by
  intro s tr q t hq h
  rcases play_op hq h with ⟨a, u, tr, rfl, -, hp⟩ | ⟨tr, rfl, hp⟩ | ⟨a, u, tr, rfl, -, hp⟩
  · obtain ⟨hstores, hnone⟩ := ho (.ran o a) rfl
    rw [List.forall_mem_cons, hk a u tr q t hq hp, NoFactIsSummary, hnext]
    simp [hstores, hnone]
  · obtain ⟨rfl, -, -⟩ := play_throw hp
    obtain ⟨hstores, hnone⟩ := ho (.refused o) rfl
    simp [NoFactIsSummary, hstores, hnone]
  · obtain ⟨rfl, -, -⟩ := play_throw hp
    obtain ⟨hstores, hnone⟩ := ho (.lost o a) rfl
    simp [NoFactIsSummary, hstores, hnone]

theorem factType_of_present {fact content type : Json} (hcontent : (fact.get "content").filter Json.truthy = some content)
    (htype : (fact.get "type").filter Json.truthy = some type) :
    factType fact = (textOf type).bind SemanticMemoryType.ofText := by
  rw [factType, hcontent, htype]
  rfl

theorem factType_of_absent {fact : Json} (h : ∀ content type, (fact.get "content").filter Json.truthy = some content →
    (fact.get "type").filter Json.truthy = some type → False) : factType fact = none := by
  unfold factType
  split
  · rename_i hcontent
    obtain ⟨content, hcontent⟩ := Option.isSome_iff_exists.mp hcontent
    cases htype : (fact.get "type").filter Json.truthy with
    | none => rfl
    | some type => exact (h content type hcontent htype).elim
  · rfl

/-- One fact: its turn is over when the call goes on behind it. -/
theorem storeFact_turn {sessionId profileId now : Nat} {fact : Json} {s t : Db} {q : Script Unit} {tr : List (Did Op Ans)}
    (hq : q.isDone) (h : play service (storeFact sessionId profileId now fact) s tr = some (q, t))
    (facts : List SemanticMemoryType) :
    ((∀ d ∈ tr, StoresNoSummary d) ↔ NoFactIsSummary ((factType fact).toList ++ facts) tr) ∧
      ∀ a, q = .ret a → tr.foldl upcoming ((factType fact).toList ++ facts) = facts := by
  unfold storeFact at h
  split at h
  · obtain ⟨rfl, rfl, -⟩ := play_throw h
    exact ⟨by simp [NoFactIsSummary], nofun⟩
  split at h
  · rename_i content type hcontent htype
    rw [factType_of_present hcontent htype]
    unfold numberOrHalf at h
    split at h
    · obtain ⟨rfl, rfl, -⟩ := play_throw h
      exact ⟨by simp [NoFactIsSummary], nofun⟩
    rename_i importance _
    rcases play_op hq h with ⟨_, u, tr, rfl, -, hp⟩ | ⟨tr, rfl, hp⟩ | ⟨_, u, tr, rfl, -, hp⟩
    · split at hp
      · rename_i row hrow
        obtain ⟨hmemoryType, -, hdepth, -, -, -, hchunk⟩ := factColumns_spec hrow
        have hsummary : row.IsD0Summary ↔ row.memoryType = .summary := and_iff_left hdepth
        rw [hmemoryType]
        rcases play_op hq hp with ⟨id, v, tr, rfl, -, hp'⟩ | ⟨tr, rfl, hp'⟩ | ⟨id, v, tr, rfl, -, hp'⟩
        · obtain ⟨rfl, rfl, -⟩ := play_ret hp'
          simp [NoFactIsSummary, StoresNoSummary, storesFact, upcoming, hchunk, hsummary]
        · obtain ⟨rfl, rfl, -⟩ := play_throw hp'
          simp [NoFactIsSummary, StoresNoSummary, storesFact]
        · obtain ⟨rfl, rfl, -⟩ := play_throw hp'
          simp [NoFactIsSummary, StoresNoSummary, storesFact, upcoming, hchunk, hsummary]
      · obtain ⟨rfl, rfl, -⟩ := play_throw hp
        simp [NoFactIsSummary, StoresNoSummary, storesFact]
    · obtain ⟨rfl, rfl, -⟩ := play_throw hp
      simp [NoFactIsSummary, StoresNoSummary, storesFact]
    · obtain ⟨rfl, rfl, -⟩ := play_throw hp
      simp [NoFactIsSummary, StoresNoSummary, storesFact]
  · rename_i habsent
    obtain ⟨rfl, rfl, -⟩ := play_ret h
    rw [factType_of_absent habsent]
    exact ⟨by simp [NoFactIsSummary], fun _ _ => rfl⟩

theorem facts_storeFacts (sessionId profileId now : Nat) (facts : List Json) :
    Facts (facts.filterMap factType) (forEach facts (storeFact sessionId profileId now)) := by
  induction facts with
  | nil => exact facts_done rfl _
  | cons fact facts ih =>
    intro s tr q t hq h
    have hsplit : (fact :: facts).filterMap factType = (factType fact).toList ++ facts.filterMap factType := by
      cases hfact : factType fact <;> simp [hfact]
    rw [hsplit]
    rcases play_bind hq h with ⟨tr₁, tr₂, a, u, rfl, h1, h2⟩ | ⟨e, h1, rfl⟩
    · obtain ⟨hturn, hover⟩ := storeFact_turn rfl h1 (facts.filterMap factType)
      rw [List.forall_mem_append, noFactIsSummary_append, hturn, hover a rfl, ih u tr₂ q t hq h2]
    · exact (storeFact_turn rfl h1 _).1

def Op.insertsRow : Op → Bool
  | .insertSemantic _ => true
  | _ => false

theorem stores_other {o : Op} (ho : o.insertsRow = false) (d : Did Op Ans) (hd : d.op = o) :
    StoresNoSummary d ∧ storesFact d = false := by
  subst hd
  cases d with
  | ran o a => cases o <;> first | exact ⟨trivial, rfl⟩ | cases ho
  | refused o => cases o <;> exact ⟨trivial, rfl⟩
  | lost o a => cases o <;> first | exact ⟨trivial, rfl⟩ | cases ho

theorem facts_other {α : Type} {p : Script α} (hp : p.Uses (·.insertsRow = false)) (facts : List SemanticMemoryType) :
    Facts facts p :=
  facts_uses hp (fun _ ho d hd => stores_other ho d hd) facts

/-- An answer's facts are those that come, whatever came before. -/
theorem facts_extractFacts (formatted : JsString) (sessionId profileId : Nat) (facts : List SemanticMemoryType) :
    Facts facts (extractFacts formatted sessionId profileId) := by
  refine facts_attempt (facts_perform factTypes (stores_other rfl) (fun _ => rfl) fun answer => ?_) fun _ _ => facts_done rfl _
  cases hparse : Json.parse answer with
  | none => exact facts_done rfl _
  | some value =>
    cases value with
    | arr elements =>
      have hfacts : factTypes answer = elements.filterMap factType := by rw [factTypes, hparse]
      exact facts_perform (fun _ => factTypes answer) (stores_other rfl) (fun _ => rfl) fun now =>
        hfacts ▸ facts_storeFacts sessionId profileId now elements
    | _ => exact facts_done rfl _

theorem facts_linkMessages (summaryId : Nat) (chunk : List Working) (facts : List SemanticMemoryType) :
    Facts facts (linkMessages summaryId chunk) := by
  refine facts_other ?_ facts
  induction chunk with
  | nil => trivial
  | cons msg rest ih => exact uses_bind (uses_perform rfl) fun _ => ih

theorem facts_consolidateChunk (cfg : ConsolidationConfig) (sessionId profileId : Nat) {chunk : List Working} (hne : chunk ≠ [])
    (facts : List SemanticMemoryType) : Facts facts (consolidateChunk cfg sessionId profileId chunk) := by
  refine facts_bind (facts_other (uses_perform rfl) facts) fun facts summary => ?_
  refine facts_bind (facts_other (uses_perform rfl) facts) fun facts _ => ?_
  refine facts_bind (facts_other (uses_perform rfl) facts) fun facts now => ?_
  refine facts_bind (facts_uses (uses_perform rfl) ?_ facts) fun facts summaryId => ?_
  · -- the summary's own row has its chunk
    have hchunk : chunk.map Working.key ≠ [] := fun h => hne (List.map_eq_nil_iff.mp h)
    rintro o rfl d hd
    cases d with
    | ran o a =>
      cases hd
      exact ⟨fun h => (hchunk h).elim, by simpa [storesFact] using hne⟩
    | refused o =>
      cases hd
      exact ⟨trivial, rfl⟩
    | lost o a =>
      cases hd
      exact ⟨fun h => (hchunk h).elim, by simpa [storesFact] using hne⟩
  · exact facts_bind (facts_linkMessages summaryId chunk facts) fun facts _ => facts_extractFacts _ sessionId profileId facts

theorem facts_forEach {β : Type} {f : β → Script Unit} {xs : List β} (hf : ∀ x ∈ xs, ∀ facts, Facts facts (f x))
    (facts : List SemanticMemoryType) : Facts facts (forEach xs f) := by
  induction xs generalizing facts with
  | nil => exact facts_done rfl facts
  | cons x xs ih => exact facts_bind (hf x (.head _) facts) fun facts _ => ih (fun y hy => hf y (.tail _ hy)) facts

theorem facts_consolidateSession (cfg : ConsolidationConfig) (sessionId : Nat) (chatId : String)
    (facts : List SemanticMemoryType) :
    Facts facts (consolidateSession cfg sessionId chatId) := by
  refine facts_bind (facts_other (uses_perform rfl) facts) fun facts messages => ?_
  split
  · exact facts_done rfl facts
  refine facts_bind (facts_other (uses_getProfileIdForChat (fun _ => rfl) chatId) facts) fun facts profileId => ?_
  exact facts_forEach (fun chunk hc => facts_consolidateChunk cfg sessionId profileId
    (chunkArray_ne_nil messages cfg.chunk_pos chunk hc)) facts

/-- Every d0 summary is complete after a call just if every one was before it, no step of it
    was harmful, and of no answer was a fact stored that is called a summary. -/
theorem summaries_are_complete (cfg : ConsolidationConfig) (sessionId : Nat) (chatId : String) {s t : Db}
    {q : Script Unit} {tr : List (Did Op Ans)} (hq : q.isDone)
    (hp : play service (consolidateSession cfg sessionId chatId) s tr = some (q, t)) :
    AllComplete t.toTables ↔ AllComplete s.toTables ∧ (∀ d ∈ tr, Harmless d) ∧ NoFactIsSummary [] tr := by
  have hrows := tracks_consolidateSession cfg sessionId chatId s tr q t hq hp
  have hfacts := facts_consolidateSession cfg sessionId chatId [] s tr q t hq hp
  simp only [leavesComplete_iff] at hrows
  rw [← hfacts, ← forall₂_and]
  exact hrows

/-! ## Concrete calls -/

/-- On the session of `threeMessages`. -/
def sessionCall : Script Unit := consolidateSession smallConfig.consolidation 2 "tg:1"

def succeeding (n : Nat) (s : Db) : List (Did Op Ans) := succeed service (fun o t => terse.answer o t.toTables) n sessionCall s

/-- A model that finds one fact in each chunk. -/
def attentive : Provider where
  text
    | .factExtraction => "[\x7b\"content\": \"x\", \"type\": \"fact\", \"importance\": \"0.75\"\x7d]"
    | _ => "..."
  similarity := 0

def attending (n : Nat) (s : Db) : List (Did Op Ans) := succeed service (fun o t => attentive.answer o t.toTables) n sessionCall s

theorem a_call_completes_its_summaries : ∃ x q t, Reach (world smallConfig).system Free x ∧
    play service sessionCall x.db (attending 40 x.db) = some (q, t) ∧
    t.semantic.map (fun r => (r.memoryType, r.importance)) =
      [(.fact, 3 / 4), (.summary, 7 / 10), (.fact, 3 / 4), (.summary, 7 / 10)] ∧
    AllComplete t.toTables := by
  obtain ⟨x, hx, hp⟩ := reach_any (M := (world smallConfig).system) (C := Free)
    (P := fun x => decide (x.db.semantic = [] ∧ (∀ d ∈ attending 40 x.db, Harmless d) ∧ NoFactIsSummary [] (attending 40 x.db)) &&
      (play service sessionCall x.db (attending 40 x.db)).any fun (q, t) =>
        q.isDone && decide (t.semantic.map (fun r => (r.memoryType, r.importance)) =
          [(.fact, 3 / 4), (.summary, 7 / 10), (.fact, 3 / 4), (.summary, 7 / 10)]))
    (played threeMessages) (meets_free _ _) (by decide +kernel)
  obtain ⟨hstart, hend⟩ := (Bool.and_eq_true ..).mp hp
  obtain ⟨hnone, hharmless⟩ := of_decide_eq_true hstart
  obtain ⟨⟨q, t⟩, hplay, hdone⟩ := (Option.any_eq_true _ _).mp hend
  obtain ⟨hq, hrows⟩ := (Bool.and_eq_true ..).mp hdone
  refine ⟨x, q, t, hx, hplay, of_decide_eq_true hrows, ?_⟩
  refine (summaries_are_complete smallConfig.consolidation 2 "tg:1" hq hplay).mpr ⟨?_, hharmless⟩
  rw [AllComplete, hnone]
  exact nofun

/-- The INSERT of the second of the chunk's two sources is refused. -/
theorem a_failed_link_leaves_half_a_summary : ∃ x q t, Reach (world smallConfig).system Free x ∧ AllComplete x.db.toTables ∧
    play service sessionCall x.db (succeeding 7 x.db ++ [.refused (.linkMessage 3 ("b", "tg:1") [])]) = some (q, t) ∧
    q.isDone ∧ ¬AllComplete t.toTables := by
  obtain ⟨x, hx, hp⟩ := reach_any (M := (world smallConfig).system) (C := Free)
    (P := fun x => decide (x.db.semantic = []) &&
      (play service sessionCall x.db (succeeding 7 x.db ++ [.refused (.linkMessage 3 ("b", "tg:1") [])])).any fun (q, t) =>
        q.isDone && decide (t.messageSources = [(3, ("a", "tg:1"))] ∧
          ∃ r ∈ t.semantic, r.id = 3 ∧ r.IsD0Summary ∧ r.chunk = [("a", "tg:1"), ("b", "tg:1")]))
    (played threeMessages) (meets_free _ _) (by decide +kernel)
  obtain ⟨hstart, hend⟩ := (Bool.and_eq_true ..).mp hp
  obtain ⟨⟨q, t⟩, hplay, hdone⟩ := (Option.any_eq_true _ _).mp hend
  obtain ⟨hq, hleft⟩ := (Bool.and_eq_true ..).mp hdone
  obtain ⟨hsources, r, hr, hid, hsum, hchunk⟩ := of_decide_eq_true hleft
  refine ⟨x, q, t, hx, ?_, hplay, hq, fun hall => ?_⟩
  · rw [AllComplete, of_decide_eq_true hstart]
    exact nofun
  · have hlinked := ((hall r hr hsum).2 ("b", "tg:1")).mpr (by simp [hchunk])
    rw [hsources, hid] at hlinked
    exact absurd hlinked (by decide)

end FlowHelm.Memory
