/-
  FlowHelm.Profiles.Clone — what `cloneProfile` makes.

  The transaction copies five tables of rows, two of them row by row into an id map, and
  then each edge of the DAG join tables both of whose ends the maps know. `IsClone` says
  what that comes to: a bijection between the rows of source and clone in each table, the
  columns equal but ids, owner, timestamps and access counters; the links of the clone the
  images of those of the source; nothing else changed.

  - `yields_cloneRows` / `yields_cloneLinks`: what the two kinds of loop leave.
  - `cloneBody_yields`: what the body of the transaction leaves where it returns.
  - `cloneProfile_isomorphic`: a call that returns has made a clone, one that throws
    nothing.
-/
import FlowHelm.Lib.Renaming
import FlowHelm.Profiles.Manager

namespace FlowHelm.Profiles

open Memory (Profile Chat MessageKey)
open Script Prog Renaming

/-! ## The tables one at a time -/

/-- One table among all. -/
structure Table (R : Type) where
  get : Tables → List R
  set : Tables → List R → Tables
  get_set : ∀ t rows, get (set t rows) = rows
  set_get : ∀ t, set t (get t) = t
  set_set : ∀ t rows rows', set (set t rows) rows' = set t rows'

namespace Table

def identities : Table AgentIdentity :=
  ⟨(·.identities), fun t rows => { t with identities := rows }, fun _ _ => rfl, fun _ => rfl, fun _ _ _ => rfl⟩

def personalities : Table AgentPersonality :=
  ⟨(·.personalities), fun t rows => { t with personalities := rows }, fun _ _ => rfl, fun _ => rfl, fun _ _ _ => rfl⟩

def externals : Table ExternalRow :=
  ⟨(·.externals), fun t rows => { t with externals := rows }, fun _ _ => rfl, fun _ => rfl, fun _ _ _ => rfl⟩

def semantics : Table SemanticRow :=
  ⟨(·.semantics), fun t rows => { t with semantics := rows }, fun _ _ => rfl, fun _ => rfl, fun _ _ _ => rfl⟩

def metas : Table MetaRow :=
  ⟨(·.metas), fun t rows => { t with metas := rows }, fun _ _ => rfl, fun _ => rfl, fun _ _ _ => rfl⟩

def messageSources : Table (Nat × MessageKey) :=
  ⟨(·.messageSources), fun t rows => { t with messageSources := rows }, fun _ _ => rfl, fun _ => rfl, fun _ _ _ => rfl⟩

def parentSources : Table (Nat × Nat) :=
  ⟨(·.parentSources), fun t rows => { t with parentSources := rows }, fun _ _ => rfl, fun _ => rfl, fun _ _ _ => rfl⟩

def metaSources : Table (Nat × Nat) :=
  ⟨(·.metaSources), fun t rows => { t with metaSources := rows }, fun _ _ => rfl, fun _ => rfl, fun _ _ _ => rfl⟩

def metaParents : Table (Nat × Nat) :=
  ⟨(·.metaParents), fun t rows => { t with metaParents := rows }, fun _ _ => rfl, fun _ => rfl, fun _ _ _ => rfl⟩

/-- INSERT … ON CONFLICT DO NOTHING, when there is something to insert. -/
def add {E : Type} [BEq E] (T : Table E) (t : Tables) : Option E → Tables
  | some e => T.set t ((T.get t).insert e)
  | none => t

/-- Tables that differ from `s` in one table only still do after that table is written. -/
theorem frame {R : Type} (T : Table R) {s u t : Tables} {rows : List R} (hu : u = T.set s (T.get u))
    (ht : t = T.set u rows) : t = T.set s (T.get t) := by
  rw [ht, T.get_set]
  calc T.set u rows = T.set (T.set s (T.get u)) rows := by rw [← hu]
    _ = T.set s rows := T.set_set _ _ _

end Table

/-! ## The loops -/

section Loops

variable {R E : Type}

/-- The loop that copies the rows `ids` one by one, keeping the ids they got. -/
theorem yields_cloneRows (T : Table R) {key : R → Nat} {copy : R → Nat → R} {body : IdMap → Nat → Script IdMap}
    (hkey : ∀ s : Db, ((T.get s.toTables).map key).Nodup) (hcopy : ∀ r v, key (copy r v) = v)
    (hbody : ∀ m i s, Yields service (body m i) (fun m' t => ∃ v, m' = m.set i v ∧
      t.toTables = T.set s.toTables (((T.get s.toTables).filter (key · == i)).map (copy · v) ++ T.get s.toTables)) s)
    {ids : List Nat} {s : Db} (hids : ∀ i ∈ ids, ∃ r ∈ T.get s.toTables, key r = i) :
    Yields service (forFold body [] ids) (fun m t => t.toTables = T.set s.toTables (T.get t.toTables) ∧
      Copies key copy (T.get s.toTables) (T.get t.toTables) m ∧ m.map Prod.fst = ids.reverse) s := by
  let J : List Nat → IdMap → Db → Prop := fun rest m t => (∀ i ∈ rest, ∃ r ∈ T.get s.toTables, key r = i) ∧
    t.toTables = T.set s.toTables (T.get t.toTables) ∧ Copies key copy (T.get s.toTables) (T.get t.toTables) m ∧
      (m.map Prod.fst).reverse ++ rest = ids
  have hstart : J ids [] s := ⟨hids, (T.set_get _).symm, copies_nil _, rfl⟩
  refine yields_mono ?_ (yields_forFold J ?_ hstart)
  · intro m t hJ
    obtain ⟨_, hframe, hcopies, hm⟩ := hJ
    refine ⟨hframe, hcopies, ?_⟩
    rw [List.append_nil] at hm
    rw [← hm, List.reverse_reverse]
  · intro i rest m u hJ
    obtain ⟨hrest, hframe, hcopies, hm⟩ := hJ
    refine yields_mono ?_ (hbody m i u)
    intro m' t ht
    obtain ⟨v, rfl, ht⟩ := ht
    obtain ⟨r, hr, rfl⟩ := hrest i (.head _)
    have hru : r ∈ T.get u.toTables := (hcopies.mem r).mpr (Or.inl hr)
    have hrows : T.get t.toTables = copy r v :: T.get u.toTables := by
      rw [ht, T.get_set, filter_key (hkey u) hru]
      rfl
    have hv : v ∉ (T.get u.toTables).map key := by
      have hnodup := hkey t
      rw [hrows, List.map_cons, hcopy, List.nodup_cons] at hnodup
      exact hnodup.1
    refine ⟨fun i hi => hrest i (.tail _ hi), T.frame hframe ht, ?_, ?_⟩
    · rw [hrows]
      exact hcopies.cons (hkey s) hr (hcopy r v) hv
    · rw [← hm]
      simp [IdMap.set]

/-- A loop that inserts what `f` makes of each link. -/
theorem yields_cloneLinks [BEq E] [LawfulBEq E] (T : Table E) {f : E → Option E} {body : E → Script Unit}
    (hbody : ∀ e s, Yields service (body e) (fun _ t => t.toTables = T.add s.toTables (f e)) s)
    (links : List E) (s : Db) :
    Yields service (forEach links body) (fun _ t => t.toTables = T.set s.toTables (T.get t.toTables) ∧
      ∀ e, e ∈ T.get t.toTables ↔ e ∈ T.get s.toTables ∨ ∃ e₀ ∈ links, f e₀ = some e) s := by
  let J : List E → Db → Prop := fun rest t => t.toTables = T.set s.toTables (T.get t.toTables) ∧
    ∀ e, (e ∈ T.get t.toTables ∨ ∃ e₀ ∈ rest, f e₀ = some e) ↔ e ∈ T.get s.toTables ∨ ∃ e₀ ∈ links, f e₀ = some e
  have hstart : J links s := ⟨(T.set_get _).symm, fun _ => Iff.rfl⟩
  refine yields_mono ?_ (yields_forEach J ?_ hstart)
  · intro _ t hJ
    obtain ⟨hframe, hmem⟩ := hJ
    refine ⟨hframe, fun e => ?_⟩
    simpa using hmem e
  · intro e₁ rest u hJ
    obtain ⟨hframe, hmem⟩ := hJ
    refine yields_mono ?_ (hbody e₁ u)
    intro _ t ht
    cases hf : f e₁ with
    | none =>
      rw [hf] at ht
      refine ⟨by rw [ht]; exact hframe, fun e => ?_⟩
      rw [← hmem e, ht]
      simp [hf, Table.add]
    | some e' =>
      rw [hf] at ht
      refine ⟨T.frame hframe ht, fun e => ?_⟩
      rw [← hmem e, ht, Table.add, T.get_set]
      simp only [List.mem_insert_iff, List.mem_cons, exists_eq_or_imp, hf, Option.some.injEq]
      constructor
      · intro he
        rcases he with (rfl | he) | he
        · exact Or.inr (Or.inl rfl)
        · exact Or.inl he
        · exact Or.inr (Or.inr he)
      · intro he
        rcases he with he | rfl | he
        · exact Or.inl (Or.inr he)
        · exact Or.inl (Or.inl rfl)
        · exact Or.inr he

end Loops

/-! ## What a clone is -/

/-- Equal up to id, owner, timestamps and access counter. -/
def AgentIdentity.Same (r q : AgentIdentity) : Prop :=
  q = { r with id := q.id, profileId := q.profileId, createdAt := q.createdAt, updatedAt := q.updatedAt }

def AgentPersonality.Same (r q : AgentPersonality) : Prop :=
  q = { r with id := q.id, profileId := q.profileId, createdAt := q.createdAt, updatedAt := q.updatedAt }

def SemanticRow.Same (r q : SemanticRow) : Prop :=
  q = { r with
    id := q.id, profileId := q.profileId, createdAt := q.createdAt, updatedAt := q.updatedAt,
    lastAccessed := q.lastAccessed, accessCount := q.accessCount }

def MetaRow.Same (r q : MetaRow) : Prop :=
  q = { r with
    id := q.id, profileId := q.profileId, createdAt := q.createdAt, updatedAt := q.updatedAt,
    lastAccessed := q.lastAccessed }

def ExternalRow.Same (r q : ExternalRow) : Prop :=
  q = { r with id := q.id, profileId := q.profileId, createdAt := q.createdAt }

/-- The links of `t` are those of `s` and the images of those between rows of `sourceId`. -/
structure LinkImages (s t : Tables) (sourceId : Nat) (σ μ : Nat → Nat) : Prop where
  messageSources : ∀ e, e ∈ t.messageSources ↔ e ∈ s.messageSources ∨
    ∃ e₀ ∈ s.messageSources, e₀.1 ∈ s.semanticIdsOf sourceId ∧ e = (σ e₀.1, e₀.2)
  parentSources : ∀ e, e ∈ t.parentSources ↔ e ∈ s.parentSources ∨
    ∃ e₀ ∈ s.parentSources, e₀.1 ∈ s.semanticIdsOf sourceId ∧ e₀.2 ∈ s.semanticIdsOf sourceId ∧ e = (σ e₀.1, σ e₀.2)
  metaSources : ∀ e, e ∈ t.metaSources ↔ e ∈ s.metaSources ∨
    ∃ e₀ ∈ s.metaSources, e₀.1 ∈ s.metaIdsOf sourceId ∧ e₀.2 ∈ s.semanticIdsOf sourceId ∧ e = (μ e₀.1, σ e₀.2)
  metaParents : ∀ e, e ∈ t.metaParents ↔ e ∈ s.metaParents ∨
    ∃ e₀ ∈ s.metaParents, e₀.1 ∈ s.metaIdsOf sourceId ∧ e₀.2 ∈ s.metaIdsOf sourceId ∧ e = (μ e₀.1, μ e₀.2)

/-- `t` is `s` with the profile `newProfile` in it, whose rows and links are those of
    `sourceId` under two maps of ids, and nothing else changed. -/
structure IsClone (s t : Tables) (sourceId : Nat) (newProfile : Profile) : Prop where
  profiles : t.profiles = newProfile :: s.profiles
  drawn : newProfile.id ∉ s.profileIds
  chats : t.chats = s.chats
  sessions : t.sessions = s.sessions
  messages : t.messages = s.messages
  identities : ∃ ι, Copied (·.id) (·.profileId) AgentIdentity.Same sourceId newProfile.id ι s.identities t.identities
  personalities : ∃ ι, Copied (·.id) (·.profileId) AgentPersonality.Same sourceId newProfile.id ι s.personalities t.personalities
  externals : ∃ ι, Copied (·.id) (·.profileId) ExternalRow.Same sourceId newProfile.id ι s.externals t.externals
  memories : ∃ σ μ, Copied (·.id) (·.profileId) SemanticRow.Same sourceId newProfile.id σ s.semantics t.semantics ∧
    Copied (·.id) (·.profileId) MetaRow.Same sourceId newProfile.id μ s.metas t.metas ∧ LinkImages s t sourceId σ μ

/-! ## The links -/

theorem IdMap.get_some {m : IdMap} (hm : (m.map Prod.fst).Nodup) {i v : Nat} :
    m.get i = some v ↔ i ∈ m.map Prod.fst ∧ v = rename m i := by
  unfold IdMap.get
  rw [← mem_iff_lookup hm]
  constructor
  · intro h
    exact ⟨List.mem_map_of_mem (f := Prod.fst) h, (rename_of_mem hm h).symm⟩
  · intro h
    rw [h.2]
    exact mem_rename hm h.1

/-- The edge between the copies of an edge's ends. -/
def copiedEdge (fromMap toMap : IdMap) (edge : Nat × Nat) : Option (Nat × Nat) :=
  match fromMap.get edge.1, toMap.get edge.2 with
  | some newFrom, some newTo => some (newFrom, newTo)
  | _, _ => none

theorem copiedEdge_some {fromMap toMap : IdMap} (hf : (fromMap.map Prod.fst).Nodup) (ht : (toMap.map Prod.fst).Nodup)
    {e₀ e : Nat × Nat} : copiedEdge fromMap toMap e₀ = some e ↔
      e₀.1 ∈ fromMap.map Prod.fst ∧ e₀.2 ∈ toMap.map Prod.fst ∧ e = (rename fromMap e₀.1, rename toMap e₀.2) := by
  unfold copiedEdge
  constructor
  · intro h
    split at h
    · rename_i a b ha hb
      cases h
      obtain ⟨ha', rfl⟩ := (IdMap.get_some hf).mp ha
      obtain ⟨hb', rfl⟩ := (IdMap.get_some ht).mp hb
      exact ⟨ha', hb', rfl⟩
    · cases h
  · intro h
    obtain ⟨ha, hb, rfl⟩ := h
    simp only [(IdMap.get_some hf).mpr ⟨ha, rfl⟩, (IdMap.get_some ht).mpr ⟨hb, rfl⟩]

/-- The link from the copy of a summary to the same message. -/
def copiedLink (map : IdMap) (link : Nat × MessageKey) : Option (Nat × MessageKey) := (map.get link.1).map (·, link.2)

theorem copiedLink_some {m : IdMap} (hm : (m.map Prod.fst).Nodup) {e₀ e : Nat × MessageKey} :
    copiedLink m e₀ = some e ↔ e₀.1 ∈ m.map Prod.fst ∧ e = (rename m e₀.1, e₀.2) := by
  simp only [copiedLink, Option.map_eq_some_iff, IdMap.get_some hm]
  constructor
  · intro h
    obtain ⟨v, ⟨hi, rfl⟩, rfl⟩ := h
    exact ⟨hi, rfl⟩
  · intro h
    exact ⟨_, ⟨h.1, rfl⟩, h.2.symm⟩

/-- One turn of an edge loop. -/
theorem cloneEdge_yields (T : Table (Nat × Nat)) {insert : Nat → Nat → Script Unit}
    (hinsert : ∀ a b s, Yields service (insert a b)
    (fun _ t => t.toTables = T.set s.toTables ((T.get s.toTables).insert (a, b))) s)
    (fromMap toMap : IdMap) (e : Nat × Nat) (s : Db) :
    Yields service (cloneEdge insert fromMap toMap e)
        (fun _ t => t.toTables = T.add s.toTables (copiedEdge fromMap toMap e)) s := by
  unfold cloneEdge copiedEdge
  cases fromMap.get e.1 with
  | none => exact yields_ret rfl
  | some a =>
    cases toMap.get e.2 with
    | none => exact yields_ret rfl
    | some b => exact hinsert a b s

theorem yields_await {o : Op} {s : Db} {Q : Ans o → Db → Prop} (h : ∀ a t, service.exec o s a = some t → Q a t) :
    Yields service (await o) Q s := by
  intro tr a t hp
  obtain ⟨a', u, tr', -, hx, h2⟩ := play_perform_ret (k := .ret) hp
  obtain ⟨-, hret, rfl⟩ := play_ret h2
  cases hret
  exact h _ _ hx

theorem cloneParentSource_yields (m : IdMap) (e : Nat × Nat) (s : Db) :
    Yields service (cloneParentSource m e) (fun _ t => t.toTables = Table.parentSources.add s.toTables (copiedEdge m m e)) s :=
  cloneEdge_yields Table.parentSources (fun _ _ _ => yields_await fun _ _ hx => (exec_spec hx).2) m m e s

theorem cloneMetaSource_yields (μ m : IdMap) (e : Nat × Nat) (s : Db) :
    Yields service (cloneMetaSource μ m e) (fun _ t => t.toTables = Table.metaSources.add s.toTables (copiedEdge μ m e)) s :=
  cloneEdge_yields Table.metaSources (fun _ _ _ => yields_await fun _ _ hx => (exec_spec hx).2) μ m e s

theorem cloneMetaParent_yields (μ : IdMap) (e : Nat × Nat) (s : Db) :
    Yields service (cloneMetaParent μ e) (fun _ t => t.toTables = Table.metaParents.add s.toTables (copiedEdge μ μ e)) s :=
  cloneEdge_yields Table.metaParents (fun _ _ _ => yields_await fun _ _ hx => (exec_spec hx).2) μ μ e s

theorem cloneMessageSource_yields (m : IdMap) (e : Nat × MessageKey) (s : Db) :
    Yields service (cloneMessageSource m e) (fun _ t => t.toTables = Table.messageSources.add s.toTables (copiedLink m e)) s := by
  unfold cloneMessageSource copiedLink
  cases m.get e.1 with
  | none => exact yields_ret rfl
  | some v => exact yields_await fun _ _ hx => (exec_spec hx).2

theorem mem_semanticIdsOf {t : Tables} {sourceId i : Nat} :
    i ∈ t.semanticIdsOf sourceId ↔ ∃ r ∈ t.semantics, r.profileId = sourceId ∧ r.id = i := by
  simp only [Tables.semanticIdsOf, List.mem_map, List.mem_filter, beq_iff_eq, and_assoc]

theorem mem_metaIdsOf {t : Tables} {sourceId i : Nat} :
    i ∈ t.metaIdsOf sourceId ↔ ∃ r ∈ t.metas, r.profileId = sourceId ∧ r.id = i := by
  simp only [Tables.metaIdsOf, List.mem_map, List.mem_filter, beq_iff_eq, and_assoc]

/-- What a loop over the links selected for `sourceId` inserts. -/
theorem images_of_selected {E E' : Type} {rows all : List E} {sel : E → Prop} [DecidablePred sel]
    (hperm : rows.Perm (all.filter sel)) {f : E → Option E'} {P : E → E' → Prop}
    (hf : ∀ e₀ e, f e₀ = some e ↔ sel e₀ ∧ P e₀ e) (e : E') :
    (∃ e₀ ∈ rows, f e₀ = some e) ↔ ∃ e₀ ∈ all, sel e₀ ∧ P e₀ e := by
  simp only [hperm.mem_iff, List.mem_filter, decide_eq_true_eq, hf]
  constructor
  · intro h
    obtain ⟨e₀, ⟨hall, _⟩, hsel, hP⟩ := h
    exact ⟨e₀, hall, hsel, hP⟩
  · intro h
    obtain ⟨e₀, hall, hsel, hP⟩ := h
    exact ⟨e₀, ⟨hall, hsel⟩, hsel, hP⟩

theorem cloneLinks_yields {sourceId : Nat} {m μ : IdMap} {u : Db} (hm : (m.map Prod.fst).Nodup)
    (hμ : (μ.map Prod.fst).Nodup) (hS : ∀ i, i ∈ m.map Prod.fst ↔ i ∈ u.semanticIdsOf sourceId)
    (hM : ∀ i, i ∈ μ.map Prod.fst ↔ i ∈ u.metaIdsOf sourceId) :
    Yields service (cloneLinks sourceId m μ) (fun _ t => t.toTables = { u.toTables with
      messageSources := t.messageSources, parentSources := t.parentSources
      metaSources := t.metaSources, metaParents := t.metaParents } ∧
      LinkImages u.toTables t.toTables sourceId (rename m) (rename μ)) u := by
  unfold cloneLinks
  refine yields_perform ?_
  intro sms u₁ h₁
  obtain ⟨hsms, hu₁⟩ := exec_spec h₁
  obtain rfl : u₁ = u := Db.ext_tables hu₁
  refine yields_bind (yields_mono ?_ (yields_cloneLinks Table.messageSources (cloneMessageSource_yields m) sms u₁))
  intro _ u₂ h₂
  obtain ⟨hu₂, hms⟩ := h₂
  refine yields_perform ?_
  intro sps u₃ h₃
  obtain ⟨hsps, hu₃⟩ := exec_spec h₃
  obtain rfl : u₃ = u₂ := Db.ext_tables hu₃
  refine yields_bind (yields_mono ?_ (yields_cloneLinks Table.parentSources (cloneParentSource_yields m) sps u₃))
  intro _ u₄ h₄
  obtain ⟨hu₄, hps⟩ := h₄
  refine yields_perform ?_
  intro mms u₅ h₅
  obtain ⟨hmms, hu₅⟩ := exec_spec h₅
  obtain rfl : u₅ = u₄ := Db.ext_tables hu₅
  refine yields_bind (yields_mono ?_ (yields_cloneLinks Table.metaSources (cloneMetaSource_yields μ m) mms u₅))
  intro _ u₆ h₆
  obtain ⟨hu₆, hmm⟩ := h₆
  refine yields_perform ?_
  intro mps u₇ h₇
  obtain ⟨hmps, hu₇⟩ := exec_spec h₇
  obtain rfl : u₇ = u₆ := Db.ext_tables hu₇
  refine yields_mono ?_ (yields_cloneLinks Table.metaParents (cloneMetaParent_yields μ) mps u₇)
  intro _ t h₈
  obtain ⟨ht, hmp⟩ := h₈
  -- each loop has written one table; the others, and the rows selected by, are those of `u₁`
  have hsem₂ : u₃.semanticIdsOf sourceId = u₁.semanticIdsOf sourceId := congrArg (·.semanticIdsOf sourceId) hu₂
  have hmeta₂ : u₃.metaIdsOf sourceId = u₁.metaIdsOf sourceId := congrArg (·.metaIdsOf sourceId) hu₂
  have hmeta₄ : u₅.metaIdsOf sourceId = u₁.metaIdsOf sourceId := (congrArg (·.metaIdsOf sourceId) hu₄).trans hmeta₂
  have hmeta₆ : u₇.metaIdsOf sourceId = u₁.metaIdsOf sourceId := (congrArg (·.metaIdsOf sourceId) hu₆).trans hmeta₄
  have hps₂ : u₃.parentSources = u₁.parentSources := congrArg (·.parentSources) hu₂
  have hmm₄ : u₅.metaSources = u₁.metaSources :=
    (congrArg (·.metaSources) hu₄).trans (congrArg (·.metaSources) hu₂)
  have hmp₆ : u₇.metaParents = u₁.metaParents := (congrArg (·.metaParents) hu₆).trans
    ((congrArg (·.metaParents) hu₄).trans (congrArg (·.metaParents) hu₂))
  have hms₈ : t.messageSources = u₃.messageSources := (congrArg (·.messageSources) ht).trans
    ((congrArg (·.messageSources) hu₆).trans (congrArg (·.messageSources) hu₄))
  have hps₈ : t.parentSources = u₅.parentSources :=
    (congrArg (·.parentSources) ht).trans (congrArg (·.parentSources) hu₆)
  have hmm₈ : t.metaSources = u₇.metaSources := congrArg (·.metaSources) ht
  simp only [Answers, hsem₂, hps₂] at hsps
  simp only [Answers, hmeta₄, hmm₄] at hmms
  simp only [Answers, hmeta₆, hmp₆] at hmps
  refine ⟨?_, ?_, ?_, ?_, ?_⟩
  · rw [hms₈, hps₈, hmm₈]
    calc t.toTables = Table.metaParents.set u₇.toTables t.metaParents := ht
      _ = Table.metaParents.set (Table.metaSources.set u₅.toTables u₇.metaSources) t.metaParents := by
        rw [← show u₇.toTables = Table.metaSources.set u₅.toTables u₇.metaSources from hu₆]
      _ = Table.metaParents.set (Table.metaSources.set (Table.parentSources.set u₃.toTables u₅.parentSources)
          u₇.metaSources) t.metaParents := by
        rw [← show u₅.toTables = Table.parentSources.set u₃.toTables u₅.parentSources from hu₄]
      _ = Table.metaParents.set (Table.metaSources.set (Table.parentSources.set
          (Table.messageSources.set u₁.toTables u₃.messageSources) u₅.parentSources) u₇.metaSources) t.metaParents := by
        rw [← show u₃.toTables = Table.messageSources.set u₁.toTables u₃.messageSources from hu₂]
  · intro e
    have himg := images_of_selected (f := copiedLink m) hsms (fun e₀ e => by rw [copiedLink_some hm, hS]) e
    rw [hms₈, ← himg]
    exact hms e
  · intro e
    have himg := images_of_selected (f := copiedEdge m m) hsps
      (fun e₀ e => by rw [copiedEdge_some hm hm, hS, hS]) e
    rw [hps₈, ← himg, ← hps₂]
    exact hps e
  · intro e
    have himg := images_of_selected (f := copiedEdge μ m) hmms
      (fun e₀ e => by rw [copiedEdge_some hμ hm, hM, hS]) e
    rw [hmm₈, ← himg, ← hmm₄]
    exact hmm e
  · intro e
    have himg := images_of_selected (f := copiedEdge μ μ) hmps
      (fun e₀ e => by rw [copiedEdge_some hμ hμ, hM, hM]) e
    rw [← himg, ← hmp₆]
    exact hmp e

/-! ## The rows -/

theorem cloneSemantic_yields (new now : Nat) (m : IdMap) (i : Nat) (s : Db) :
    Yields service (cloneSemantic new now m i) (fun m' t => ∃ v, m' = m.set i v ∧
      t.toTables = Table.semantics.set s.toTables (((Table.semantics.get s.toTables).filter (·.id == i)).map
        (SemanticRow.copy new now · v) ++ Table.semantics.get s.toTables)) s := by
  unfold cloneSemantic
  refine yields_perform ?_
  intro a t hx
  have ht := (exec_spec hx).2
  cases a with
  | none => exact yields_throw
  | some v => exact yields_ret ⟨v, rfl, ht⟩

theorem cloneMeta_yields (new now : Nat) (m : IdMap) (i : Nat) (s : Db) :
    Yields service (cloneMeta new now m i) (fun m' t => ∃ v, m' = m.set i v ∧
      t.toTables = Table.metas.set s.toTables (((Table.metas.get s.toTables).filter (·.id == i)).map
        (MetaRow.copy new now · v) ++ Table.metas.get s.toTables)) s := by
  unfold cloneMeta
  refine yields_perform ?_
  intro a t hx
  have ht := (exec_spec hx).2
  cases a with
  | none => exact yields_throw
  | some v => exact yields_ret ⟨v, rfl, ht⟩

/-- The map of a loop over all the ids of `sourceId` names its rows. -/
theorem names_of_loop {R : Type} {key owner : R → Nat} {sourceId : Nat} {old : List R} {ids : List Nat} {m : IdMap}
    (hold : (old.map key).Nodup) (hids : ids.Perm ((old.filter (owner · == sourceId)).map key))
    (hm : m.map Prod.fst = ids.reverse) : Names key owner sourceId old m := by
  refine ⟨?_, ?_⟩
  · rw [hm, List.nodup_reverse, hids.nodup_iff]
    exact hold.sublist (List.filter_sublist.map key)
  · intro k
    rw [hm, List.mem_reverse, hids.mem_iff]
    simp only [List.mem_map, List.mem_filter, beq_iff_eq, and_assoc]

/-- The tables when all rows are copied and no link is. -/
structure RowsCloned (s u : Tables) (sourceId : Nat) (newProfile : Profile) (m μ : IdMap) : Prop where
  profiles : u.profiles = newProfile :: s.profiles
  drawn : newProfile.id ∉ s.profileIds
  chats : u.chats = s.chats
  sessions : u.sessions = s.sessions
  messages : u.messages = s.messages
  identities : ∃ ι, Copied (·.id) (·.profileId) AgentIdentity.Same sourceId newProfile.id ι s.identities u.identities
  personalities : ∃ ι, Copied (·.id) (·.profileId) AgentPersonality.Same sourceId newProfile.id ι s.personalities u.personalities
  externals : ∃ ι, Copied (·.id) (·.profileId) ExternalRow.Same sourceId newProfile.id ι s.externals u.externals
  semantics : Copied (·.id) (·.profileId) SemanticRow.Same sourceId newProfile.id (rename m) s.semantics u.semantics
  semanticNames : Names (·.id) (·.profileId) sourceId s.semantics m
  metas : Copied (·.id) (·.profileId) MetaRow.Same sourceId newProfile.id (rename μ) s.metas u.metas
  metaNames : Names (·.id) (·.profileId) sourceId s.metas μ
  messageSources : u.messageSources = s.messageSources
  parentSources : u.parentSources = s.parentSources
  metaSources : u.metaSources = s.metaSources
  metaParents : u.metaParents = s.metaParents

/-- The statements that copy rows, all run. -/
theorem rowsCloned (now : Nat) {s u : Db} {sourceId : Nat} {p : Profile} {ids₁ ids₂ ids₃ ids₄ ids₅ : List Nat} {m μ : IdMap}
    (hu : u.toTables = { s.toTables with
      profiles := p :: s.profiles
      identities := (s.identitiesOf sourceId).zipWith (AgentIdentity.copy p.id now) ids₁ ++ s.identities
      personalities := (s.personalitiesOf sourceId).zipWith (AgentPersonality.copy p.id now) ids₂ ++ s.personalities
      semantics := u.semantics
      metas := u.metas
      externals := (s.externalsOf sourceId).zipWith (ExternalRow.copy p.id now) ids₅ ++ s.externals })
    (hidentities : ids₁.length = (s.identitiesOf sourceId).length)
    (hpersonalities : ids₂.length = (s.personalitiesOf sourceId).length)
    (hexternals : ids₅.length = (s.externalsOf sourceId).length)
    (hsemantics : Copies (·.id) (SemanticRow.copy p.id now) s.semantics u.semantics m)
    (hids₃ : ids₃.Perm (s.semanticIdsOf sourceId)) (hm : m.map Prod.fst = ids₃.reverse)
    (hmetas : Copies (·.id) (MetaRow.copy p.id now) s.metas u.metas μ)
    (hids₄ : ids₄.Perm (s.metaIdsOf sourceId)) (hμ : μ.map Prod.fst = ids₄.reverse) :
    RowsCloned s.toTables u.toTables sourceId p m μ := by
  have hdrawn : p.id ∉ s.profileIds := by
    have hkey := u.valid.profileKey
    rw [hu] at hkey
    exact (List.nodup_cons.mp hkey).1
  have hnew : ∀ {i}, i ∈ s.profileIds → i ≠ p.id := fun hi heq => hdrawn (heq ▸ hi)
  have hm' := names_of_loop s.valid.semanticKey hids₃ hm
  have hμ' := names_of_loop s.valid.metaKey hids₄ hμ
  constructor
  case drawn => exact hdrawn
  case identities =>
    have hkey := u.valid.identityKey
    rw [hu] at hkey ⊢
    exact copied_zip hidentities s.valid.identityKey hkey (fun r hr => hnew (s.valid.identityProfile r hr))
      fun _ _ => ⟨rfl, rfl, rfl⟩
  case personalities =>
    have hkey := u.valid.personalityKey
    rw [hu] at hkey ⊢
    exact copied_zip hpersonalities s.valid.personalityKey hkey (fun r hr => hnew (s.valid.personalityProfile r hr))
      fun _ _ => ⟨rfl, rfl, rfl⟩
  case externals =>
    have hkey := u.valid.externalKey
    rw [hu] at hkey ⊢
    exact copied_zip hexternals s.valid.externalKey hkey (fun r hr => hnew (s.valid.externalProfile r hr))
      fun _ _ => ⟨rfl, rfl, rfl⟩
  case semantics =>
    exact hsemantics.copied hm' s.valid.semanticKey (fun r hr => hnew (s.valid.semanticProfile r hr))
      fun _ _ => ⟨rfl, rfl, rfl⟩
  case semanticNames => exact hm'
  case metas =>
    exact hmetas.copied hμ' s.valid.metaKey (fun r hr => hnew (s.valid.metaProfile r hr)) fun _ _ => ⟨rfl, rfl, rfl⟩
  case metaNames => exact hμ'
  all_goals rw [hu]

theorem cloneRows_yields (sourceId : Nat) (newName : String) (description : Option String) (now : Nat) (s : Db) :
    Yields service (cloneRows sourceId newName description now) (fun r u =>
      r.1 = ⟨r.1.id, newName, description, false, now, now⟩ ∧
      RowsCloned s.toTables u.toTables sourceId r.1 r.2.1 r.2.2) s := by
  unfold cloneRows
  refine yields_perform ?_
  intro p t₁ h₁
  have e₁ : t₁.toTables = { s.toTables with profiles := p :: s.profiles } := (exec_spec h₁).2
  refine yields_perform ?_
  intro ids₁ t₂ h₂
  have hlen₁ : ids₁.length = (s.identitiesOf sourceId).length := by
    have hlen := (exec_spec h₂).1
    rw [e₁] at hlen
    exact hlen
  let identities := (s.identitiesOf sourceId).zipWith (AgentIdentity.copy p.id now) ids₁ ++ s.identities
  have e₂ : t₂.toTables = { s.toTables with profiles := p :: s.profiles, identities } := by
    rw [(exec_spec h₂).2, e₁]
    rfl
  refine yields_perform ?_
  intro ids₂ t₃ h₃
  have hlen₂ : ids₂.length = (s.personalitiesOf sourceId).length := by
    have hlen := (exec_spec h₃).1
    rw [e₂] at hlen
    exact hlen
  let personalities := (s.personalitiesOf sourceId).zipWith (AgentPersonality.copy p.id now) ids₂ ++ s.personalities
  have e₃ : t₃.toTables = { s.toTables with profiles := p :: s.profiles, identities, personalities } := by
    rw [(exec_spec h₃).2, e₂]
    rfl
  refine yields_perform ?_
  intro ids₃ t₃' h₃'
  have hids₃ : ids₃.Perm (t₃.semanticIdsOf sourceId) := (exec_spec h₃').1
  obtain rfl : t₃' = t₃ := Db.ext_tables (exec_spec h₃').2
  have hthere₃ : ∀ i ∈ ids₃, ∃ r ∈ t₃'.semantics, r.id = i := by
    intro i hi
    obtain ⟨r, hr, -, hid⟩ := mem_semanticIdsOf.mp (hids₃.mem_iff.mp hi)
    exact ⟨r, hr, hid⟩
  refine yields_bind (yields_mono ?_ (yields_cloneRows Table.semantics (fun t => t.valid.semanticKey) (fun _ _ => rfl)
    (fun m i t => cloneSemantic_yields p.id now m i t) hthere₃))
  intro m t₄ h₄
  obtain ⟨e₄, hsemantics, hm⟩ := h₄
  refine yields_perform ?_
  intro ids₄ t₄' h₄'
  have hids₄ : ids₄.Perm (t₄.metaIdsOf sourceId) := (exec_spec h₄').1
  obtain rfl : t₄' = t₄ := Db.ext_tables (exec_spec h₄').2
  have hthere₄ : ∀ i ∈ ids₄, ∃ r ∈ t₄'.metas, r.id = i := by
    intro i hi
    obtain ⟨r, hr, -, hid⟩ := mem_metaIdsOf.mp (hids₄.mem_iff.mp hi)
    exact ⟨r, hr, hid⟩
  refine yields_bind (yields_mono ?_ (yields_cloneRows Table.metas (fun t => t.valid.metaKey) (fun _ _ => rfl)
    (fun m i t => cloneMeta_yields p.id now m i t) hthere₄))
  intro μ t₅ h₅
  obtain ⟨e₅, hmetas, hμ⟩ := h₅
  refine yields_perform ?_
  intro ids₅ u h₆
  have hlen₅ : ids₅.length = (s.externalsOf sourceId).length := by
    have hlen := (exec_spec h₆).1
    rw [e₅, e₄, e₃] at hlen
    exact hlen
  have e₆ : u.toTables = Table.externals.set t₅.toTables
      ((t₅.externalsOf sourceId).zipWith (ExternalRow.copy p.id now) ids₅ ++ t₅.externals) := (exec_spec h₆).2
  rw [e₄, e₃] at hids₄
  rw [e₃] at hids₃
  -- a loop has written one table, so what is read of another after it is as in `s`
  have hu₄ : u.semantics = t₄'.semantics := by
    rw [e₆, e₅]
    rfl
  have hu₅ : u.metas = t₅.metas := by
    rw [e₆]
    rfl
  have hs₃ : t₃'.semantics = s.semantics := by rw [e₃]
  have hs₄ : t₄'.metas = s.metas := by
    rw [e₄, e₃]
    rfl
  refine yields_ret ⟨(exec_spec h₁).1, rowsCloned now ?_ hlen₁ hlen₂ hlen₅ ?_ hids₃ hm ?_ hids₄ hμ⟩
  · rw [hu₄, hu₅, e₆, e₅, e₄, e₃]
    rfl
  · rw [hu₄, ← hs₃]
    exact hsemantics
  · rw [hu₅, ← hs₄]
    exact hmetas

theorem RowsCloned.isClone {s u t : Tables} {sourceId : Nat} {p : Profile} {m μ : IdMap}
    (h : RowsCloned s u sourceId p m μ) (hsource : sourceId ≠ p.id)
    (ht : t = { u with
      messageSources := t.messageSources, parentSources := t.parentSources
      metaSources := t.metaSources, metaParents := t.metaParents })
    (himages : LinkImages u t sourceId (rename m) (rename μ)) : IsClone s t sourceId p := by
  have hS : ∀ i, i ∈ u.semanticIdsOf sourceId ↔ i ∈ s.semanticIdsOf sourceId := by
    intro i
    rw [mem_semanticIdsOf, mem_semanticIdsOf, h.semantics.keys hsource]
  have hM : ∀ i, i ∈ u.metaIdsOf sourceId ↔ i ∈ s.metaIdsOf sourceId := by
    intro i
    rw [mem_metaIdsOf, mem_metaIdsOf, h.metas.keys hsource]
  have hlinks : LinkImages s t sourceId (rename m) (rename μ) := by
    constructor
    · intro e
      rw [himages.messageSources e, h.messageSources]
      simp only [hS]
    · intro e
      rw [himages.parentSources e, h.parentSources]
      simp only [hS]
    · intro e
      rw [himages.metaSources e, h.metaSources]
      simp only [hS, hM]
    · intro e
      rw [himages.metaParents e, h.metaParents]
      simp only [hM]
  rw [ht] at hlinks ⊢
  exact ⟨h.profiles, h.drawn, h.chats, h.sessions, h.messages, h.identities, h.personalities, h.externals,
    rename m, rename μ, h.semantics, h.metas, hlinks⟩

/-! ## The call -/

theorem cloneBody_yields (sourceId : Nat) (newName : String) (description : Option String) (now : Nat) {s : Db}
    (hsource : sourceId ∈ s.profileIds) :
    Yields service (cloneBody sourceId newName description now) (fun newProfile t =>
      newProfile = ⟨newProfile.id, newName, description, false, now, now⟩ ∧
      IsClone s.toTables t.toTables sourceId newProfile) s := by
  unfold cloneBody
  refine yields_bind (yields_mono ?_ (cloneRows_yields sourceId newName description now s))
  intro r u hr
  obtain ⟨p, m, μ⟩ := r
  obtain ⟨hp, hrows⟩ := hr
  have hne : sourceId ≠ p.id := fun heq => hrows.drawn (heq ▸ hsource)
  refine yields_bind (yields_mono ?_ (cloneLinks_yields hrows.semanticNames.1 hrows.metaNames.1 ?_ ?_))
  · intro _ t hlinks
    exact yields_ret ⟨hp, hrows.isClone hne hlinks.1 hlinks.2⟩
  · intro i
    rw [mem_semanticIdsOf, hrows.semantics.keys hne]
    exact hrows.semanticNames.2 i
  · intro i
    rw [mem_metaIdsOf, hrows.metas.keys hne]
    exact hrows.metaNames.2 i

/-- A statement outside any transaction that only reads: it answers and the call goes on,
    or it throws; either way nothing has changed. -/
theorem play_query {α : Type} {o : Op} (ho : ∀ t a, effect o t a = t) {k : Ans o → Session α} {q : Session α} {s : Db}
    {t : Tx Db} {tr : List (Did (TxOp Op) (TxAns Ans))} (hq : q.isDone)
    (h : play (txService service) ((query o).bind k) ⟨s, none⟩ tr = some (q, t)) :
    (∃ a tr', tr = .ran (.on o) a :: tr' ∧ Answers o s.toTables a ∧ play (txService service) (k a) ⟨s, none⟩ tr' = some (q, t)) ∨
      ((∃ e, q = .throw e) ∧ t.committed = s) := by
  have hread : ∀ {a u}, (txService service).exec (.on o) ⟨s, none⟩ a = some u → u = ⟨s, none⟩ ∧ Answers o s.toTables a := by
    intro a u hx
    obtain ⟨v, hv, rfl⟩ := Option.map_eq_some_iff.mp hx
    obtain ⟨ha, hv⟩ := exec_spec hv
    rw [ho] at hv
    obtain rfl := Db.ext_tables hv
    exact ⟨rfl, ha⟩
  rcases play_op hq h with ⟨a, u, tr', rfl, hx, hp⟩ | ⟨tr', rfl, hp⟩ | ⟨a, u, tr', rfl, hx, hp⟩
  · obtain ⟨rfl, ha⟩ := hread hx
    exact Or.inl ⟨a, tr', rfl, ha, hp⟩
  · obtain ⟨-, rfl, rfl⟩ := play_throw hp
    exact Or.inr ⟨⟨_, rfl⟩, rfl⟩
  · obtain ⟨rfl, -⟩ := hread hx
    obtain ⟨-, rfl, rfl⟩ := play_throw hp
    exact Or.inr ⟨⟨_, rfl⟩, rfl⟩

/-- A clone that returns is one; one that throws, whichever statement failed, has left the
    database as it was. -/
theorem cloneProfile_isomorphic (maxProfiles sourceId : Nat) (newName : String) (newDescription : Option String) (s : Db)
    (tr : List (Did (TxOp Op) (TxAns Ans))) (q : Session Profile) (t : Tx Db) (hq : q.isDone) (hheard : CommitHeard tr)
    (h : play (txService service) (cloneProfile maxProfiles sourceId newName newDescription) ⟨s, none⟩ tr = some (q, t)) :
    (∀ newProfile, q = .ret newProfile → newProfile.name = newName ∧ newProfile.isDefault = false ∧
      (∃ source ∈ s.profiles, source.id = sourceId ∧ newProfile.description = newDescription.or source.description) ∧
      IsClone s.toTables t.committed.toTables sourceId newProfile) ∧
    ∀ e, q = .throw e → t.committed = s := by
  have hfailed : (∃ e, q = .throw e) ∧ t.committed = s → (∀ newProfile, q = .ret newProfile →
      newProfile.name = newName ∧ newProfile.isDefault = false ∧
      (∃ source ∈ s.profiles, source.id = sourceId ∧ newProfile.description = newDescription.or source.description) ∧
      IsClone s.toTables t.committed.toTables sourceId newProfile) ∧ ∀ e, q = .throw e → t.committed = s := by
    intro hthrow
    obtain ⟨⟨e, rfl⟩, ht⟩ := hthrow
    exact ⟨nofun, fun _ _ => ht⟩
  unfold cloneProfile at h
  rcases play_query (fun _ _ => rfl) hq h with ⟨source?, tr₁, rfl, hsource, h⟩ | hthrow
  case inr => exact hfailed hthrow
  cases source? with
  | none =>
    obtain ⟨-, rfl, rfl⟩ := play_throw h
    exact hfailed ⟨⟨_, rfl⟩, rfl⟩
  | some source =>
    have hmem : source ∈ s.profiles := List.mem_of_find?_eq_some (Eq.symm hsource)
    have hid : source.id = sourceId := by simpa using List.find?_some (Eq.symm hsource)
    rcases play_query (fun _ _ => rfl) hq h with ⟨cnt, tr₂, rfl, -, h⟩ | hthrow
    case inr => exact hfailed hthrow
    split at h
    · obtain ⟨-, rfl, rfl⟩ := play_throw h
      exact hfailed ⟨⟨_, rfl⟩, rfl⟩
    · rcases play_query (fun _ _ => rfl) hq h with ⟨now, tr₃, rfl, -, h⟩ | hthrow
      case inr => exact hfailed hthrow
      have hheard₃ : CommitHeard tr₃ := fun d hd => hheard d (.tail _ (.tail _ (.tail _ hd)))
      rcases begin_atomic hq hheard₃ h with ⟨p, u, tr', rfl, rfl, hbody⟩ | hthrow
      case inr => exact hfailed hthrow
      have hsourceId : sourceId ∈ s.profileIds := List.mem_map.mpr ⟨source, hmem, hid⟩
      obtain ⟨hp, hclone⟩ := cloneBody_yields sourceId newName (newDescription.or source.description) now hsourceId tr' p u hbody
      refine ⟨?_, nofun⟩
      intro newProfile hret
      cases hret
      refine ⟨?_, ?_, ⟨source, hmem, hid, ?_⟩, hclone⟩
      · rw [hp]
      · rw [hp]
      · rw [hp]

/-- A default profile with two summaries, one the child of the other, and an insight. -/
def summaries : Db where
  profiles := [⟨0, "default", none, true, 1, 1⟩]
  chats := [⟨"chat", 0⟩]
  sessions := []
  messages := [⟨"m", "chat", "Ada", some "hello", 2, false⟩]
  identities := [⟨1, 0, "assistant", [], "warm", none, 3, 3⟩]
  personalities := []
  semantics := [⟨2, "greeting", [1], .summary, 1, 0, 2, none, 0, none, none, 4, 4, 4, 5⟩,
    ⟨3, "talk", [1], .summary, 1, 1, 2, none, 0, none, none, 4, 4, 4, 0⟩]
  metas := [⟨4, "polite", [1], .insight, 1, 0, 0, 5, 5, 5⟩]
  externals := []
  messageSources := [(2, ("m", "chat"))]
  parentSources := [(3, 2)]
  metaSources := [(4, 2)]
  metaParents := []
  valid := by decide

/-- A clone of it, every statement answered. -/
def cloning : List (Did (TxOp Op) (TxAns Ans)) :=
  [.ran (.on (.getProfile 0)) (some ⟨0, "default", none, true, 1, 1⟩), .ran (.on .countProfiles) (1 : Nat),
    .ran (.on .now) (9 : Nat), .ran .begin (),
    .ran (.on (.insertProfile "work" none false 9)) (⟨5, "work", none, false, 9, 9⟩ : Profile),
    .ran (.on (.cloneIdentity 5 0 9)) [6], .ran (.on (.clonePersonality 5 0 9)) [],
    .ran (.on (.semanticsOf 0)) [2, 3], .ran (.on (.cloneSemantic 2 5 9)) (some 7),
    .ran (.on (.cloneSemantic 3 5 9)) (some 8), .ran (.on (.metasOf 0)) [4],
    .ran (.on (.cloneMeta 4 5 9)) (some 9), .ran (.on (.cloneExternal 5 0 9)) [],
    .ran (.on (.messageSourcesOf 0)) [(2, ("m", "chat"))], .ran (.on (.insertMessageSource 7 ("m", "chat"))) (),
    .ran (.on (.parentSourcesOf 0)) [(3, 2)], .ran (.on (.insertParentSource 8 7)) (),
    .ran (.on (.metaSourcesOf 0)) [(4, 2)], .ran (.on (.insertMetaSource 9 7)) (),
    .ran (.on (.metaParentsOf 0)) [], .ran .commit ()]

/-- What a program that has returned returned. -/
def returned {Op : Type} {Ans : Op → Type} {α S : Type} : Option (Prog Op Ans α × S) → Option (α × S)
  | some (.ret a, t) => some (a, t)
  | _ => none

theorem returned_some {Op : Type} {Ans : Op → Type} {α S : Type} {x : Option (Prog Op Ans α × S)} {a : α} {t : S}
    (h : returned x = some (a, t)) : x = some (.ret a, t) := by
  unfold returned at h
  split at h
  · cases h
    rfl
  · cases h

theorem cloneProfile_isomorphic_summaries : ∃ newProfile t,
    play (txService service) (cloneProfile 3 0 "work" none) ⟨summaries, none⟩ cloning = some (.ret newProfile, t) ∧
      newProfile.name = "work" ∧ IsClone summaries.toTables t.committed.toTables 0 newProfile := by
  have hruns : (returned (play (txService service) (cloneProfile 3 0 "work" none) ⟨summaries, none⟩ cloning)).isSome := by
    decide
  obtain ⟨⟨newProfile, t⟩, hret⟩ := Option.isSome_iff_exists.mp hruns
  have hplay := returned_some hret
  have hheard : CommitHeard cloning := by simp [CommitHeard, cloning, heard]
  obtain ⟨hname, -, -, hclone⟩ :=
    (cloneProfile_isomorphic 3 0 "work" none summaries cloning _ t rfl hheard hplay).1 newProfile rfl
  exact ⟨newProfile, t, hplay, hname, hclone⟩

end FlowHelm.Profiles
