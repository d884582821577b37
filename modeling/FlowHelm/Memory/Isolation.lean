/-
  FlowHelm.Memory.Isolation — whether the summary DAG joins rows of one profile only.

  A d0 summary gets the profile its chat has when its session is consolidated, a d1
  summary the one the chat has when it is condensed, and the children of a d1 summary are
  found through the chat. A chat assigned to another profile in between, or a clone of
  the profile (its copies keep the session), puts rows of two profiles under one parent.

  - `isolated_step`: a statement other than a link keeps the DAG within profiles.
  - `isolated_clone`: so does a clone, both ends of an edge being copies.
  - `edges_stay_within_profiles`: so does every run in which the summaries a condensation
    selects are of the profile it read for the chat.
  - `an_assigned_chat_mixes_profiles`: a run in which they are not.
-/
import FlowHelm.Memory.Footprint

namespace FlowHelm.Memory

open Js Script Prog Runs

/-- Both ends of every edge have one profile. -/
def Isolated (t : Tables) : Prop :=
  ∀ e ∈ t.parentSources, ∀ p ∈ t.semantic, ∀ c ∈ t.semantic, p.id = e.1 → c.id = e.2 → p.profileId = c.profileId

/-- The row `id`, as long as there is one, is of the profile. -/
def Owned (t : Tables) (profileId id : Nat) : Prop := id < t.nextId ∧ ∀ r ∈ t.semantic, r.id = id → r.profileId = profileId

theorem Owned.grows {s t : Tables} {profileId id : Nat} (hg : s.Grows t) (h : Owned s profileId id) :
    Owned t profileId id := hg.row h

theorem owned_of_mem {s : Db} {r : Semantic} (hr : r ∈ s.semantic) : Owned s.toTables r.profileId r.id := by
  refine ⟨s.valid.semanticDrawn _ (List.mem_map_of_mem hr), ?_⟩
  intro q hq hid
  rw [s.semantic_unique hq hr hid]

/-- New rows are at the end of no old edge. -/
theorem isolated_grows {s t : Db} (hg : s.Grows t.toTables)
    (hnew : ∀ e ∈ t.parentSources, e ∈ s.parentSources ∨ ∃ profileId, Owned t.toTables profileId e.1 ∧
      Owned t.toTables profileId e.2) (h : Isolated s.toTables) : Isolated t.toTables := by
  intro e he p hp c hc hpe hce
  rcases hnew e he with he | ⟨profileId, h1, h2⟩
  · have hold : ∀ r ∈ t.semantic, r.id ∈ s.semanticIds → r ∈ s.semantic := by
      intro r hr hid
      rcases hg.semantic r hr with hr | hr
      · exact hr
      · have := s.valid.semanticDrawn _ hid
        omega
    have hp' := hold p hp (hpe ▸ s.valid.parentSourceParent e he)
    have hc' := hold c hc (hce ▸ s.valid.parentSourceChild e he)
    exact h e he p hp' c hc' hpe hce
  · rw [h1.2 p hp hpe, h2.2 c hc hce]

def Op.linksSummaries : Op → Bool
  | .linkSummary .. => true
  | .clone .. => true
  | _ => false

theorem effect_parentSources {o : Op} (ho : o.linksSummaries = false) (t : Tables) (a : Ans o) :
    ∀ e ∈ (effect o t a).parentSources, e ∈ t.parentSources := by
  cases o with
  | linkSummary => cases ho
  | clone => cases ho
  | deleteSummaryParents => exact fun _ h => (List.mem_filter.mp h).1
  | deleteSemantics => exact fun _ h => (List.mem_filter.mp h).1
  | deleteSemantic => exact fun _ h => (List.mem_filter.mp h).1
  | _ => exact fun _ h => h

theorem isolated_step {o : Op} (ho : o.linksSummaries = false) {s t : Db} {a : Ans o} (h : Isolated s.toTables)
    (hx : service.exec o s a = some t) : Isolated t.toTables := by
  refine isolated_grows (exec_grows hx) (fun e he => Or.inl ?_) h
  rw [(exec_spec hx).2] at he
  exact effect_parentSources ho s.toTables a e he

/-! ## Clones -/

/-- What a clone has put under a fresh id is of the new profile. -/
theorem clone_owned {s t : Db} {sourceId now y : Nat} {profile : Profile} (hp : profile.id = s.nextId)
    (ht : t.toTables = s.clone sourceId profile now) (hy : profile.id < y) (hn : y < t.nextId) :
    Owned t.toTables profile.id y := by
  refine ⟨hn, ?_⟩
  intro r hr hid
  rw [ht] at hr
  rcases List.mem_append.mp hr with hr | hr
  · obtain ⟨k, hk, rfl⟩ := List.mem_mapIdx.mp hr
    rfl
  · have := s.valid.semanticDrawn r.id (List.mem_map_of_mem hr)
    omega

theorem isolated_clone {sourceId now : Nat} {name : String} {description : Option String} {s t : Db} {profile : Profile}
    (h : Isolated s.toTables) (hx : service.exec (.clone sourceId name description now) s profile = some t) :
    Isolated t.toTables := by
  obtain ⟨ha, ht⟩ := exec_spec hx
  have hp : profile.id = s.nextId := by rw [ha]
  refine isolated_grows (exec_grows hx) ?_ h
  intro e he
  have hends := And.intro (t.valid.parentSourceParent e he) (t.valid.parentSourceChild e he)
  rw [ht] at he
  rcases List.mem_append.mp he with he | he
  · obtain ⟨e₀, _, hmap⟩ := List.mem_filterMap.mp he
    obtain ⟨h1, h2⟩ := remap_some hmap
    have g1 := copied_ge h1
    have g2 := copied_ge h2
    refine Or.inr ⟨profile.id, clone_owned hp ht ?_ ?_, clone_owned hp ht ?_ ?_⟩
    · omega
    · exact t.valid.semanticDrawn _ hends.1
    · omega
    · exact t.valid.semanticDrawn _ hends.2
  · exact Or.inl he

/-! ## Condensation -/

/-- The selection of a condensation: its chat, and the profile read for the chat. -/
def selection : Did Op Ans → Option (String × Nat)
  | .ran (.uncondensedSummaries chatId profileId) _ => some (chatId, profileId)
  | _ => none

/-- Where a condensation finds enough d0 summaries, they are of the profile it has read
    for the chat. -/
def CondensesOneProfile (cfg : ConsolidationConfig) (s : Db) (d : Did Op Ans) : Prop :=
  ∀ q ∈ selection d, cfg.consolidationThreshold ≤ (s.uncondensedOf q.1).length →
    ∀ r ∈ s.uncondensedOf q.1, r.profileId = q.2

def isolationSetting (cfg : ConsolidationConfig) : Setting Op Ans Db where
  inv s := Isolated s.toTables
  rely s t := s.Grows t.toTables
  guar s t := s.Grows t.toTables
  ok := CondensesOneProfile cfg
  total := False
  rely_refl s := .refl s.toTables
  rely_trans h1 h2 := h1.trans h2
  guar_refl s := .refl s.toTables

/-- A program that links no summaries. -/
theorem isolated_uses (cfg : ConsolidationConfig) {α : Type} {p : Script α} {P : Op → Prop} (hp : p.Uses P)
    (hP : ∀ o, P o → o.linksSummaries = false)
    (s : Db) : Safe service (isolationSetting cfg) p s := by
  refine safe_uses id ?_ hp s
  intro o ho s a t hi _ hx
  exact ⟨exec_grows hx, isolated_step (hP o ho) hi hx⟩

theorem isolated_linkSummary {parentId childId profileId : Nat} {s t : Db}
    (hp : Owned s.toTables profileId parentId) (hc : Owned s.toTables profileId childId) (h : Isolated s.toTables)
    (hx : service.exec (.linkSummary parentId childId) s () = some t) : Isolated t.toTables := by
  have hg := exec_grows hx
  refine isolated_grows hg ?_ h
  intro e he
  rw [(exec_spec hx).2] at he
  rcases List.mem_cons.mp he with rfl | he
  · exact Or.inr ⟨profileId, hp.grows hg, hc.grows hg⟩
  · exact Or.inl he

theorem owned_insert {row : SemanticColumns} {s t : Db} {id : Nat} (hx : service.exec (.insertSemantic row) s id = some t) :
    Owned t.toTables row.profileId id := owned_of_mem (mem_insertSemantic hx)

theorem condenseSummaries_isolated (cfg : ConsolidationConfig) (chatId : String) (s : Db) :
    Safe service (isolationSetting cfg) (condenseSummaries cfg chatId) s := by
  refine safe_condenseSummaries id cfg chatId (C := fun _ profileId c s => Owned s.toTables profileId c.id)
    (P := fun _ profileId id s => Owned s.toTables profileId id) ?_ ?_ ?_ ?_ ?_ s
  · exact isolated_uses cfg (uses_getProfileIdForChat (fun _ => rfl) chatId) (fun _ ho => ho)
  · intro rows profileId s hok hanswer hmany c hc
    rw [hanswer.1.length_eq] at hmany
    have hmem := hanswer.1.mem_iff.mp hc
    have hprofile : c.profileId = profileId := hok _ rfl hmany c hmem
    rw [← hprofile]
    exact owned_of_mem (List.mem_filter.mp hmem).1
  · intro rows profileId s t hg
    have hgrows : s.Grows t.toTables := hg.elim id id
    exact ⟨fun c hc => hc.grows hgrows, fun id hp => hp.grows hgrows⟩
  · intro rows profileId row id s t hrow _ _ hi hx
    refine ⟨exec_grows hx, isolated_step rfl hi hx, ?_⟩
    rw [← hrow]
    exact owned_insert hx
  · intro rows profileId id c s t hp hc hi hx
    exact ⟨exec_grows hx, isolated_linkSummary hp hc hi hx⟩

theorem summarizes_linksSummaries (o : Op) (h : o.summarizes) : o.linksSummaries = false := by
  cases o <;> first | rfl | cases h

theorem consolidation_isolated (cfg : ConsolidationConfig) (s : Db) :
    Safe service (isolationSetting cfg) (Consolidation.run cfg) s := by
  refine safe_consolidation id cfg ?_ ?_ ?_ s
  · intro now s t hi hx
    exact ⟨exec_grows hx, isolated_step rfl hi hx⟩
  · intro sessionId chatId u
    exact isolated_uses cfg (uses_consolidateSession cfg sessionId chatId) summarizes_linksSummaries u
  · intro u
    exact safe_read (exec_reads fun _ _ => rfl) id fun candidates v =>
      safe_forEach (fun candidate w => condenseSummaries_isolated cfg candidate.chatId w) candidates v

theorem request_isolated (cfg : ConsolidationConfig) (maxProfiles : Nat) (r : Request) (s : Db) :
    Safe service (isolationSetting cfg) (r.program maxProfiles) s := by
  refine safe_uses id ?_ (uses_request maxProfiles r) s
  intro o ho s a t hi _ hx
  refine ⟨exec_grows hx, ?_⟩
  by_cases hl : o.linksSummaries = false
  · exact isolated_step hl hi hx
  · cases o with
    | clone sourceId name description now => exact isolated_clone hi hx
    | linkSummary => cases ho
    | _ => exact (hl rfl).elim

theorem reflects_linksSummaries (o : Op) (h : o.reflects) : o.linksSummaries = false := by
  cases o <;> first | rfl | cases h

instance (t : Tables) : Decidable (Isolated t) := inferInstanceAs (Decidable (∀ e ∈ t.parentSources, _))

instance (cfg : ConsolidationConfig) (s : Db) (d : Did Op Ans) : Decidable (CondensesOneProfile cfg s d) :=
  inferInstanceAs (Decidable (∀ q ∈ selection d, _))

abbrev isolationCond (cfg : Config) : Cond Op Ans Db Job Arrival where
  start _ := True
  did := CondensesOneProfile cfg.consolidation
  env _ _ := True

def isolationContract (cfg : Config) : Contract (world cfg) (isolationCond cfg) where
  inv s := Isolated s.toTables
  rely _ s t := s.Grows t.toTables
  guar _ s t := s.Grows t.toTables
  rely_refl _ s := .refl s.toTables
  rely_trans h1 h2 := h1.trans h2
  guar_refl _ s := .refl s.toTables
  compat _ _ _ _ _ h := h
  init := nofun
  env s e t hi _ he := by
    have hk := arrive_keeps he
    have hg := arrive_grows he
    exact ⟨isolated_grows hg (fun e he => Or.inl (hk.parentSources ▸ he)) hi, fun _ => hg⟩
  jobs j s _ _ := by
    cases j with
    | consolidation => exact safe_bind (consolidation_isolated cfg.consolidation s) fun _ _ => trivial
    | reflection =>
      exact isolated_uses cfg.consolidation (uses_discard (uses_reflection cfg.reflection cfg.numberText))
        reflects_linksSummaries s
    | request n r => exact request_isolated cfg.consolidation cfg.maxProfilesPerUser r s

theorem edges_stay_within_profiles (cfg : Config) {x : Conf Op Ans Db Job}
    (h : Reach (world cfg).system (isolationCond cfg).meets x) : Isolated x.db.toTables :=
  (isolationContract cfg).safe h

/-! ## Concrete runs -/

theorem a_run_condenses_one_profile : ∃ x, Reach (world smallConfig).system (isolationCond smallConfig).meets x ∧
    x.db.parentSources = [(5, 4), (5, 3)] ∧ Isolated x.db.toTables := by
  obtain ⟨x, hx, hp⟩ := reach_any (M := (world smallConfig).system) (C := (isolationCond smallConfig).meets)
    (P := fun x => decide (x.db.parentSources = [(5, 4), (5, 3)])) (played (threeMessages ++ wholeJob .consolidation 40))
    (by decide +kernel) (by decide +kernel)
  exact ⟨x, hx, of_decide_eq_true hp, edges_stay_within_profiles smallConfig hx⟩

/-- Consolidation, and the requests of profiles and chats, with nothing else asked for. -/
def profileWork : Cond Op Ans Db Job Arrival where
  start
    | .consolidation => True
    | .request _ (.createProfile ..) => True
    | .request _ (.cloneProfile ..) => True
    | .request _ (.assignChat ..) => True
    | _ => False
  did _ _ := True
  env _ _ := True

instance : ∀ j, Decidable (profileWork.start j)
  | .consolidation => isTrue trivial
  | .reflection => isFalse id
  | .request _ (.createProfile ..) => isTrue trivial
  | .request _ (.cloneProfile ..) => isTrue trivial
  | .request _ (.assignChat ..) => isTrue trivial
  | .request _ (.deleteProfile _) => isFalse id
  | .request _ (.setDefaultProfile _) => isFalse id
  | .request _ (.storeSemanticMemory _) => isFalse id
  | .request _ (.deleteSemanticMemory _) => isFalse id

instance (s : Db) (d : Did Op Ans) : Decidable (profileWork.did s d) := isTrue trivial

instance (s : Db) (e : Arrival) : Decidable (profileWork.env s e) := isTrue trivial

/-- The chat is assigned to profile 1 once the two summaries of profile 0 are there, and
    before their condensation reads its profile. -/
theorem an_assigned_chat_mixes_profiles : ∃ x, Reach (world smallConfig).system profileWork.meets x ∧
    ¬Isolated x.db.toTables := by
  obtain ⟨x, hx, hp⟩ := reach_any (M := (world smallConfig).system) (C := profileWork.meets)
    (P := fun x => !decide (Isolated x.db.toTables))
    (played (threeMessages ++ .event (.start .consolidation) :: List.replicate 22 (.next .consolidation) ++
      request 2 (.assignChat "tg:1" 1) ++ List.replicate 7 (.next .consolidation)))
    (by decide +kernel) (by decide +kernel)
  exact ⟨x, hx, of_decide_eq_false (by simpa using hp)⟩

end FlowHelm.Memory
