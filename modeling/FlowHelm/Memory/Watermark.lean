/-
  FlowHelm.Memory.Watermark — whether reflection passes over a semantic entry.

  A d0 generation selects the entries of its profile that are newer than
  `last_reflection_at`; the run sets that one timestamp for all profiles when it ends, to
  the time it ends. An entry stored after its profile was looked at, an entry of a profile
  with too few of them, and an entry whose `created_at` was taken before the timestamp was
  set are older than it and selected by nobody.

  - `looking_runForProfile`: a run selects, of each profile it has read, every newer entry there is.
  - `reflection_watched`: so that its end passes over nothing that was there in time.
  - `nothing_is_passed_over`: every run whose insertions and selections are in time.
  - `an_entry_stored_meanwhile_is_passed_over`: a run with one that is not.
-/
import FlowHelm.Memory.Footprint

namespace FlowHelm.Memory

open Js Script Prog Runs

/-- Every entry as old as the timestamp was selected by a d0 generation of its profile
    that found enough. -/
def Sound (minEntries : Nat) (t : Tables) : Prop :=
  ∀ last ∈ t.lastReflectionAt, ∀ r ∈ t.semantic, r.createdAt ≤ last →
    ∃ input ∈ t.inputs, input.profileId = r.profileId ∧ r.id ∈ input.ids ∧ minEntries ≤ input.ids.length

/-- The timestamp is older. -/
def After (t : Tables) (createdAt : Nat) : Prop := ∀ last ∈ t.lastReflectionAt, last < createdAt

/-- An entry was there when the run looked for it: its profile when the run read the profiles,
    the entry itself at the SELECT of its profile, which found enough. No SELECT finds an entry
    of time 0. -/
structure InTime (minEntries : Nat) (t : Tables) (r : Semantic) : Prop where
  dated : 0 < r.createdAt
  profile : r.profileId < t.listed
  entry : ∀ input ∈ t.reads, input.profileId = r.profileId → r.id < input.drawn
  enough : ∀ input ∈ t.reads, input.profileId = r.profileId → minEntries ≤ input.ids.length

/-- What a new timestamp must find of the entries inserted, and an insertion of the timestamp. -/
def Passes (minEntries : Nat) (t : Tables) : Op → Prop
  | .setLastReflection now => ∀ r ∈ t.semantic, After t r.createdAt → r.createdAt ≤ now → InTime minEntries t r
  | .insertSemantic row => After t row.createdAt
  | .clone sourceId _ _ now => (∃ r ∈ t.semantic, r.profileId = sourceId) → After t now
  | _ => True

def Op.selectsEntries : Op → Bool
  | .recentEntries .. => true
  | _ => false

/-- A SELECT of entries whose answer is lost selects for nobody: it is taken as refused. -/
def PassesNothing (minEntries : Nat) (s : Db) : Did Op Ans → Prop
  | .ran o _ => Passes minEntries s.toTables o
  | .lost o _ => o.selectsEntries = false ∧ Passes minEntries s.toTables o
  | .refused _ => True

/-! ## The invariant -/

structure Watched (minEntries : Nat) (t : Tables) : Prop where
  sound : Sound minEntries t
  recorded : ∀ input ∈ t.reads, input ∈ t.inputs
  drawn : ∀ input ∈ t.inputs, ∀ id ∈ input.ids, id < t.nextId
  own : ∀ input ∈ t.inputs, ∀ r ∈ t.semantic, r.id ∈ input.ids → r.profileId = input.profileId

/-- What every statement but three does: it leaves the timestamp and what has been selected, and
    drops rows and profiles or adds them under fresh ids. -/
structure Kept (s t : Tables) : Prop where
  nextId : s.nextId ≤ t.nextId
  lastReflectionAt : t.lastReflectionAt = s.lastReflectionAt
  listed : t.listed = s.listed
  reads : t.reads = s.reads
  inputs : t.inputs = s.inputs
  semantic : ∀ r ∈ t.semantic, r ∈ s.semantic ∨ s.nextId ≤ r.id
  profiles : ∀ p ∈ t.profileIds, p ∈ s.profileIds ∨ s.nextId ≤ p

theorem Kept.refl (t : Tables) : Kept t t := ⟨le_refl _, rfl, rfl, rfl, rfl, fun _ => Or.inl, fun _ => Or.inl⟩

theorem Kept.trans {s t u : Tables} (h1 : Kept s t) (h2 : Kept t u) : Kept s u where
  nextId := h1.nextId.trans h2.nextId
  lastReflectionAt := h2.lastReflectionAt.trans h1.lastReflectionAt
  listed := h2.listed.trans h1.listed
  reads := h2.reads.trans h1.reads
  inputs := h2.inputs.trans h1.inputs
  semantic r hr := (h2.semantic r hr).elim (h1.semantic r) fun h => Or.inr (h1.nextId.trans h)
  profiles p hp := (h2.profiles p hp).elim (h1.profiles p) fun h => Or.inr (h1.nextId.trans h)

theorem Kept.after {s t : Tables} (h : Kept s t) {createdAt : Nat} : After t createdAt ↔ After s createdAt := by
  rw [After, After, h.lastReflectionAt]

theorem kept_arrive {s t : Db} {e : Arrival} (h : arrive s e = some t) : Kept s.toTables t.toTables := by
  have hk := arrive_keeps h
  refine ⟨hk.nextId, hk.lastReflectionAt, hk.listed, hk.reads, hk.inputs, (arrive_grows h).semantic, fun p hp => Or.inl ?_⟩
  rw [Tables.profileIds, hk.profiles] at hp
  exact hp

def Op.keeps : Op → Bool
  | .profileIds | .recentEntries .. | .setLastReflection _ => false
  | _ => true

theorem exec_kept {o : Op} {s t : Db} {a : Ans o} (ho : o.keeps = true) (hx : service.exec o s a = some t) :
    Kept s.toTables t.toTables := by
  have hg := exec_grows hx
  obtain ⟨ha, ht⟩ := exec_spec hx
  refine ⟨hg.nextId, ?_, ?_, ?_, ?_, hg.semantic, ?_⟩
  · rw [ht]
    cases o <;> first | rfl | cases ho
  · rw [ht]
    cases o <;> first | rfl | cases ho
  · rw [ht]
    cases o <;> first | rfl | cases ho
  · rw [ht]
    cases o <;> first | rfl | cases ho
  · rw [ht]
    cases o with
    | profileIds => cases ho
    | recentEntries => cases ho
    | setLastReflection => cases ho
    | insertProfile name description isDefault now =>
      obtain rfl : a = ⟨s.nextId, name, description, isDefault, now, now⟩ := ha
      exact List.forall_mem_cons.mpr ⟨Or.inr (le_refl _), fun p => Or.inl⟩
    | clone sourceId name description now =>
      obtain rfl : a = ⟨s.nextId, name, description, false, now, now⟩ := ha
      exact List.forall_mem_cons.mpr ⟨Or.inr (le_refl _), fun p => Or.inl⟩
    | makeDefault profileId now =>
      intro p hp
      obtain ⟨updated, hupdated, rfl⟩ := List.mem_map.mp hp
      obtain ⟨q, hq, rfl⟩ := List.mem_map.mp hupdated
      refine Or.inl (List.mem_map.mpr ⟨q, hq, ?_⟩)
      split
      · rfl
      · split <;> rfl
    | deleteProfileRow profileId =>
      intro p hp
      obtain ⟨q, hq, rfl⟩ := List.mem_map.mp hp
      exact Or.inl (List.mem_map_of_mem (List.mem_filter.mp hq).1)
    | _ => exact fun p => Or.inl

variable {minEntries : Nat}

/-- What is added comes after the timestamp. -/
theorem Watched.keep {s t : Tables} (h : Watched minEntries s) (hk : Kept s t)
    (hrows : ∀ r ∈ t.semantic, r ∈ s.semantic ∨ After s r.createdAt) : Watched minEntries t := by
  refine ⟨?_, ?_, ?_, ?_⟩
  · intro last hl r hr hle
    rw [hk.lastReflectionAt] at hl
    rw [hk.inputs]
    rcases hrows r hr with hr | hafter
    · exact h.sound last hl r hr hle
    · exact (Nat.not_lt.mpr hle (hafter last hl)).elim
  · rw [hk.reads, hk.inputs]
    exact h.recorded
  · rw [hk.inputs]
    exact fun input hi id hid => lt_of_lt_of_le (h.drawn input hi id hid) hk.nextId
  · rw [hk.inputs]
    intro input hi r hr hid
    rcases hk.semantic r hr with hr | hfresh
    · exact h.own input hi r hr hid
    · exact (Nat.not_lt.mpr hfresh (h.drawn input hi r.id hid)).elim

/-- A statement that leaves the timestamp and the selections. -/
theorem watched_step {o : Op} {s t : Db} {a : Ans o} (h : Watched minEntries s.toTables) (ho : o.keeps = true)
    (hok : Passes minEntries s.toTables o) (hx : service.exec o s a = some t) : Watched minEntries t.toTables := by
  refine h.keep (exec_kept ho hx) ?_
  obtain ⟨ha, ht⟩ := exec_spec hx
  rw [ht]
  cases o with
  | profileIds => cases ho
  | recentEntries => cases ho
  | setLastReflection => cases ho
  | insertSemantic row => exact List.forall_mem_cons.mpr ⟨Or.inr hok, fun r => Or.inl⟩
  | clone sourceId name description now =>
    intro r hr
    rcases List.mem_append.mp hr with hr | hr
    · obtain ⟨k, hk, rfl⟩ := List.mem_mapIdx.mp hr
      have hsource := List.mem_filter.mp (List.getElem_mem hk)
      exact Or.inr (hok ⟨_, hsource.1, beq_iff_eq.mp hsource.2⟩)
    · exact Or.inl hr
  | deleteSemantics => exact fun r hr => Or.inl (List.mem_filter.mp hr).1
  | deleteSemantic => exact fun r hr => Or.inl (List.mem_filter.mp hr).1
  | _ => exact fun r => Or.inl

/-! ## What a run has selected -/

/-- A selection has every entry of its profile that was there and is newer than the timestamp. -/
def Covers (t : Tables) (input : Read) : Prop :=
  ∀ r ∈ t.semantic, r.profileId = input.profileId → r.id < input.drawn → 0 < r.createdAt → After t r.createdAt → r.id ∈ input.ids

/-- Of the profiles the run has read, those of `rest` are still to be looked at. -/
structure Looking (rest : List Nat) (t : Tables) : Prop where
  listed : t.listed ≤ t.nextId
  taken : ∀ input ∈ t.reads, input.drawn ≤ t.nextId
  looked : ∀ p ∈ t.profileIds, p < t.listed → p ∈ rest ∨ ∃ input ∈ t.reads, input.profileId = p ∧ Covers t input

theorem Covers.keep {s t : Tables} {input : Read} (h : Covers s input) (hk : Kept s t) (hi : input.drawn ≤ s.nextId) :
    Covers t input := by
  intro r hr hp hlt hdated hafter
  rcases hk.semantic r hr with hr | hfresh
  · exact h r hr hp hlt hdated (hk.after.mp hafter)
  · omega

theorem Looking.keep {rest : List Nat} {s t : Tables} (h : Looking rest s) (hk : Kept s t) : Looking rest t where
  listed := hk.listed.trans_le (h.listed.trans hk.nextId)
  taken input hi := (h.taken input (hk.reads ▸ hi)).trans hk.nextId
  looked p hp hlt := by
    rw [hk.listed] at hlt
    rcases hk.profiles p hp with hp | hfresh
    · refine (h.looked p hp hlt).imp_right fun ⟨input, hi, hprofile, hcovers⟩ => ?_
      exact ⟨input, hk.reads ▸ hi, hprofile, hcovers.keep hk (h.taken input hi)⟩
    · have := h.listed
      omega

/-- The run begins: every profile is still to be looked at. -/
theorem watched_profileIds {s t : Db} {profiles : List Nat} (h : Watched minEntries s.toTables)
    (hx : service.exec .profileIds s profiles = some t) : Watched minEntries t.toTables ∧ Looking profiles t.toTables := by
  obtain ⟨ha, ht⟩ := exec_spec hx
  rw [ht]
  exact ⟨⟨h.sound, List.forall_mem_nil _, h.drawn, h.own⟩, le_refl _, List.forall_mem_nil _,
    fun p hp _ => Or.inl (ha.1.mem_iff.mpr hp)⟩

theorem watched_recentEntries {s t : Db} {profileId since : Nat} {rows : List Semantic} (h : Watched minEntries s.toTables)
    (hx : service.exec (.recentEntries profileId since) s rows = some t) : Watched minEntries t.toTables := by
  obtain ⟨ha, ht⟩ := exec_spec hx
  have hrows : ∀ r ∈ rows, r ∈ s.semantic ∧ r.profileId = profileId := by
    intro r hr
    obtain ⟨hmem, hp⟩ := List.mem_filter.mp (ha.1.mem_iff.mp hr)
    exact ⟨hmem, beq_iff_eq.mp ((Bool.and_eq_true ..).mp hp).1⟩
  rw [ht]
  refine ⟨?_, ?_, List.forall_mem_cons.mpr ⟨?_, h.drawn⟩, List.forall_mem_cons.mpr ⟨?_, h.own⟩⟩
  · intro last hl r hr hle
    obtain ⟨input, hi, hok⟩ := h.sound last hl r hr hle
    exact ⟨input, .tail _ hi, hok⟩
  · intro input hi
    rcases List.mem_cons.mp hi with rfl | hi
    · exact .head _
    · exact .tail _ (h.recorded input hi)
  · intro id hid
    obtain ⟨r, hr, rfl⟩ := List.mem_map.mp hid
    exact s.valid.semanticDrawn _ (List.mem_map_of_mem (hrows r hr).1)
  · intro r hr hid
    obtain ⟨r', hr', hid'⟩ := List.mem_map.mp hid
    rw [← s.semantic_unique (hrows r' hr').1 hr hid']
    exact (hrows r' hr').2

/-- A selection of what is newer than the timestamp covers its profile. -/
theorem looking_recentEntries {s t : Db} {profileId : Nat} {rows : List Semantic}
    (hx : service.exec (.recentEntries profileId (s.lastReflectionAt.getD 0)) s rows = some t) {rest : List Nat}
    (hl : Looking (profileId :: rest) s.toTables) : Looking rest t.toTables := by
  obtain ⟨ha, ht⟩ := exec_spec hx
  have hcovers : Covers s.toTables ⟨profileId, rows.map (·.id), s.nextId⟩ := by
    intro r hr hp _ hdated hafter
    refine List.mem_map_of_mem (ha.1.mem_iff.mpr (List.mem_filter.mpr ⟨hr, ?_⟩))
    rw [Bool.and_eq_true, beq_iff_eq, decide_eq_true_eq]
    refine ⟨hp, ?_⟩
    cases hlast : s.lastReflectionAt with
    | none => exact hdated
    | some last => exact hafter last hlast
  rw [ht]
  refine ⟨hl.listed, List.forall_mem_cons.mpr ⟨le_refl _, hl.taken⟩, fun p hp hlt => ?_⟩
  rcases hl.looked p hp hlt with hin | ⟨input, hi, hprofile, hold⟩
  · rcases List.mem_cons.mp hin with rfl | hin
    · exact Or.inr ⟨_, .head _, rfl, hcovers⟩
    · exact Or.inl hin
  · exact Or.inr ⟨input, .tail _ hi, hprofile, hold⟩

/-- Once every profile has been looked at, the new timestamp passes over nothing that was there in time. -/
theorem watched_setLastReflection {s t : Db} {now : Nat} (h : Watched minEntries s.toTables) (hl : Looking [] s.toTables)
    (hok : Passes minEntries s.toTables (.setLastReflection now))
    (hx : service.exec (.setLastReflection now) s () = some t) : Watched minEntries t.toTables := by
  rw [(exec_spec hx).2]
  refine ⟨?_, h.recorded, h.drawn, h.own⟩
  intro last hlast r hr hle
  obtain rfl : last = now := (Option.mem_some_iff.mp hlast).symm
  by_cases hafter : After s.toTables r.createdAt
  · have hin := hok r hr hafter hle
    rcases hl.looked r.profileId (s.valid.semanticProfile r hr) hin.profile with hnone | ⟨input, hi, hprofile, hcovers⟩
    · cases hnone
    · have hid := hcovers r hr hprofile.symm (hin.entry input hi hprofile) hin.dated hafter
      exact ⟨input, h.recorded input hi, hprofile, hid, hin.enough input hi hprofile⟩
  · simp only [After, not_forall, Nat.not_lt] at hafter
    obtain ⟨last₀, hl₀, hle₀⟩ := hafter
    exact h.sound last₀ hl₀ r hr hle₀

/-! ## The programs -/

namespace Op

theorem reflectsOn_keeps (sourceIds : List Nat) (o : Op) (h : o.reflectsOn sourceIds) : o.keeps := by
  cases o <;> first | rfl | cases h

theorem condensesMeta_keeps (o : Op) (h : o.condensesMeta) : o.keeps := by
  cases o <;> first | rfl | cases h

theorem cascades_keeps (o : Op) (h : o.cascades) : o.keeps := by
  cases o <;> first | rfl | cases h

theorem consolidates_keeps (o : Op) (h : o.consolidates) : o.keeps := by
  cases o <;> first | rfl | cases h

theorem requested_keeps (o : Op) (h : o.requested) : o.keeps := by
  cases o <;> first | rfl | cases h

end Op

theorem keeps_runReflection (cfg : ReflectionConfig) (type : MetaMemoryType) (prompt : Prompt) (content : JsString)
    (sourceIds : List Nat) (profileId depth : Nat) :
    (runReflection cfg type prompt content sourceIds profileId depth).Uses (·.keeps) := by
  refine uses_attempt (uses_bind (uses_await rfl) fun result => ?_) fun _ => trivial
  refine uses_bind (uses_parseReflections result) fun reflections => uses_forSum (fun reflection => ?_) _
  exact (uses_reflectOne cfg type sourceIds profileId depth reflection).mono (Op.reflectsOn_keeps sourceIds)

/-! ## Every run -/

instance (t : Tables) (createdAt : Nat) : Decidable (After t createdAt) :=
  inferInstanceAs (Decidable (∀ last ∈ t.lastReflectionAt, last < createdAt))

instance (t : Tables) (r : Semantic) : Decidable (InTime minEntries t r) :=
  decidable_of_iff (0 < r.createdAt ∧ r.profileId < t.listed ∧
    (∀ input ∈ t.reads, input.profileId = r.profileId → r.id < input.drawn) ∧
      ∀ input ∈ t.reads, input.profileId = r.profileId → minEntries ≤ input.ids.length)
    ⟨fun ⟨a, b, c, d⟩ => ⟨a, b, c, d⟩, fun ⟨a, b, c, d⟩ => ⟨a, b, c, d⟩⟩

instance (t : Tables) : ∀ o, Decidable (Passes minEntries t o) := by
  intro o
  apply Op.casesOn (motive := fun o => Decidable (Passes minEntries t o)) o <;> intros <;> first
    | exact isTrue trivial
    | exact inferInstanceAs (Decidable (∀ r ∈ t.semantic, _))
    | exact inferInstanceAs (Decidable (After t _))
    | exact inferInstanceAs (Decidable (_ → After t _))

instance (s : Db) : ∀ d, Decidable (PassesNothing minEntries s d)
  | .ran o _ => inferInstanceAs (Decidable (Passes minEntries s.toTables o))
  | .lost o _ => inferInstanceAs (Decidable (o.selectsEntries = false ∧ Passes minEntries s.toTables o))
  | .refused _ => isTrue trivial

abbrev watermarkCond (cfg : Config) : Cond Op Ans Db Job Arrival where
  start _ := True
  did := PassesNothing cfg.reflection.minSemanticEntries
  env _ _ := True

theorem passes_of_ok {s : Db} {o : Op} {a : Ans o}
    (h : PassesNothing minEntries s (.ran o a) ∨ PassesNothing minEntries s (.lost o a)) :
    Passes minEntries s.toTables o := by
  rcases h with h | h
  · exact h
  · exact h.2

/-- What the other jobs do to a reflection run. -/
def watermarkRely (j : Job) (s t : Db) : Prop := j = .reflection → Kept s.toTables t.toTables

def watermarkGuar (j : Job) (s t : Db) : Prop := j ≠ .reflection → Kept s.toTables t.toTables

abbrev watermarkSetting (cfg : Config) (j : Job) : Setting Op Ans Db where
  inv s := Watched cfg.reflection.minSemanticEntries s.toTables
  rely := watermarkRely j
  guar := watermarkGuar j
  ok := PassesNothing cfg.reflection.minSemanticEntries
  total := False
  rely_refl _ _ := .refl _
  rely_trans h1 h2 hj := (h1 hj).trans (h2 hj)
  guar_refl _ _ := .refl _

section Reflection

variable (cfg : Config)

/-- Any statement of any job, but for the three. -/
theorem watermark_step (j : Job) {o : Op} (ho : o.keeps = true) {s t : Db} {a : Ans o}
    (hi : Watched cfg.reflection.minSemanticEntries s.toTables)
    (hok : PassesNothing cfg.reflection.minSemanticEntries s (.ran o a) ∨
    PassesNothing cfg.reflection.minSemanticEntries s (.lost o a))
    (hx : service.exec o s a = some t) :
    watermarkGuar j s t ∧ Watched cfg.reflection.minSemanticEntries t.toTables ∧ Kept s.toTables t.toTables :=
  ⟨fun _ => exec_kept ho hx, watched_step hi ho (passes_of_ok hok) hx, exec_kept ho hx⟩

/-- A part of the run without the three. -/
theorem looking_keeps {α : Type} {p : Script α} (hp : p.Uses (·.keeps)) {rest : List Nat} {s : Db}
    (hs : Looking rest s.toTables) :
    wp service (watermarkSetting cfg .reflection) p (fun _ t => Looking rest t.toTables) (fun _ _ => True) s := by
  refine wp_mono (fun _ _ h => h) (fun _ _ _ => trivial) (wp_uses id (fun _ _ hr h => h.keep (hr rfl)) ?_ hp hs)
  intro o ho s a t hi hs hok hx
  obtain ⟨hg, hi', hk⟩ := watermark_step cfg .reflection ho hi hok hx
  exact ⟨hg, hi', hs.keep hk⟩

theorem looking_generateD0 (profileId : Nat) {rest : List Nat} {s : Db} (hs : Looking (profileId :: rest) s.toTables) :
    wp service (watermarkSetting cfg .reflection) (generateD0 cfg.reflection cfg.numberText profileId)
      (fun _ t => Looking rest t.toTables) (fun _ _ => True) s := by
  refine wp_read (exec_reads fun _ _ => rfl) id (fun _ _ _ => trivial) ?_
  intro s₁ stateRow hr₁ _ hx₁ _
  obtain rfl : stateRow = s₁.lastReflectionAt := (exec_spec hx₁).1
  refine wp_perform id (fun _ _ _ => trivial) ?_
  intro s₂ rows t hr₂ hi hx _
  -- nobody else sets the timestamp between the two
  rw [← (hr₂ rfl).lastReflectionAt] at hx
  have hlooking := looking_recentEntries hx ((hs.keep (hr₁ rfl)).keep (hr₂ rfl))
  refine ⟨fun h => (h rfl).elim, watched_recentEntries hi hx, fun _ => ?_⟩
  split
  · exact hlooking
  · exact looking_keeps cfg (uses_forSum (fun type => keeps_runReflection cfg.reflection type _ _ _ profileId 0) _) hlooking

theorem looking_runForProfile (profileId : Nat) {rest : List Nat} {s : Db} (hs : Looking (profileId :: rest) s.toTables) :
    wp service (watermarkSetting cfg .reflection) (runForProfile cfg.reflection cfg.numberText profileId)
      (fun _ t => Looking rest t.toTables) (fun _ _ => True) s := by
  refine wp_bind (wp_mono ?_ (fun _ _ h => h) (looking_generateD0 cfg profileId hs))
  intro generated t ht
  refine wp_bind (wp_mono ?_ (fun _ _ h => h)
    (looking_keeps cfg ((uses_condenseDepths cfg.reflection profileId _).mono Op.condensesMeta_keeps) ht))
  intro condensed u hu
  split
  · exact wp_bind (wp_mono (fun _ _ h => h) (fun _ _ h => h)
      (looking_keeps cfg ((uses_runContradictionCascade cfg.reflection profileId).mono Op.cascades_keeps) hu))
  · exact hu

/-- A run selects for every profile before it sets the timestamp. -/
theorem reflection_watched (s : Db) :
    Safe service (watermarkSetting cfg .reflection) (Reflection.run cfg.reflection cfg.numberText) s := by
  simp only [Reflection.run]
  split
  · trivial
  refine wp_perform id (fun _ _ _ => trivial) ?_
  intro s₁ profiles t _ hi hx _
  obtain ⟨hi', hlooking⟩ := watched_profileIds hi hx
  refine ⟨fun h => (h rfl).elim, hi', fun _ => ?_⟩
  refine wp_bind (wp_mono ?_ (fun _ _ h => h) (wp_forSum (fun rest (u : Db) => Looking rest u.toTables)
    (fun profileId rest u hu => looking_runForProfile cfg profileId hu) hlooking))
  intro total u hu
  refine wp_read (exec_reads fun _ _ => rfl) id (fun _ _ _ => trivial) ?_
  intro s₂ now hr₂ _ _ _
  refine wp_perform id (fun _ _ _ => trivial) ?_
  intro s₃ written v hr₃ hi₃ hx₃ hok
  have hlooked := (hu.keep (hr₂ rfl)).keep (hr₃ rfl)
  have hpasses := @passes_of_ok _ _ (.setLastReflection now) written hok
  exact ⟨fun h => (h rfl).elim, watched_setLastReflection hi₃ hlooked hpasses hx₃, fun _ => trivial⟩

end Reflection

def watermarkContract (cfg : Config) : Contract (world cfg) (watermarkCond cfg) where
  inv s := Watched cfg.reflection.minSemanticEntries s.toTables
  rely := watermarkRely
  guar := watermarkGuar
  rely_refl _ _ _ := .refl _
  rely_trans h1 h2 hj := (h1 hj).trans (h2 hj)
  guar_refl _ _ _ := .refl _
  compat i j s t hij hg hj := hg (hj ▸ hij)
  init := ⟨nofun, nofun, nofun, nofun⟩
  env s e t hi _ he := by
    have hk := kept_arrive he
    refine ⟨hi.keep hk fun r hr => Or.inl ?_, fun _ _ => hk⟩
    rw [(arrive_keeps he).semantic] at hr
    exact hr
  jobs j s _ _ := by
    cases j with
    | reflection => exact wp_bind (wp_mono (fun _ _ _ => trivial) (fun _ _ h => h) (reflection_watched cfg s))
    | consolidation =>
      refine safe_uses id ?_ (uses_discard ((uses_consolidation cfg.consolidation).mono Op.consolidates_keeps)) s
      intro o ho s a t hi hok hx
      obtain ⟨hg, hi', -⟩ := watermark_step cfg .consolidation ho hi hok hx
      exact ⟨hg, hi'⟩
    | request number r =>
      refine safe_uses id ?_ ((uses_request cfg.maxProfilesPerUser r).mono Op.requested_keeps) s
      intro o ho s a t hi hok hx
      obtain ⟨hg, hi', -⟩ := watermark_step cfg (.request number r) ho hi hok hx
      exact ⟨hg, hi'⟩

theorem nothing_is_passed_over (cfg : Config) {x : Conf Op Ans Db Job}
    (h : Reach (world cfg).system (watermarkCond cfg).meets x) :
    Sound cfg.reflection.minSemanticEntries x.db.toTables :=
  Watched.sound ((watermarkContract cfg).safe h)

/-! ## Concrete runs -/

/-- The third entry comes when the run has read the profiles. -/
theorem a_run_passes_over_nothing : ∃ x, Reach (world smallConfig).system (watermarkCond smallConfig).meets x ∧
    x.db.lastReflectionAt = some 2 ∧ x.db.semantic.map (·.createdAt) = [2, 1, 1] ∧ Sound 2 x.db.toTables := by
  obtain ⟨x, hx, hp⟩ := reach_any (M := (world smallConfig).system) (C := (watermarkCond smallConfig).meets)
    (P := fun x => decide (x.db.lastReflectionAt = some 2 ∧ x.db.semantic.map (·.createdAt) = [2, 1, 1]))
    (played (twoEntries ++ .event (.start .reflection) :: .next .reflection :: request 3 (stored "c") ++
      List.replicate 40 (.next .reflection))) (by decide +kernel) (by decide +kernel)
  obtain ⟨hlast, hrows⟩ := of_decide_eq_true hp
  exact ⟨x, hx, hlast, hrows, nothing_is_passed_over smallConfig hx⟩

instance (t : Tables) : Decidable (Sound minEntries t) :=
  inferInstanceAs (Decidable (∀ last ∈ t.lastReflectionAt, ∀ r ∈ t.semantic, _))

/-- The third entry comes once the profile has been looked at. -/
theorem an_entry_stored_meanwhile_is_passed_over : ∃ x, Reach (world smallConfig).system Free x ∧ ¬Sound 2 x.db.toTables := by
  obtain ⟨x, hx, hp⟩ := reach_any (M := (world smallConfig).system) (C := Free)
    (P := fun x => !decide (Sound 2 x.db.toTables))
    (played (twoEntries ++ .event (.start .reflection) :: List.replicate 3 (.next .reflection) ++
      request 3 (stored "c") ++ .event (.env .tick) :: List.replicate 20 (.next .reflection)))
    (meets_free _ _) (by decide +kernel)
  exact ⟨x, hx, of_decide_eq_false (by simpa using hp)⟩

end FlowHelm.Memory
