/-
  FlowHelm.Memory.MetaDag — what any run does to the entries and edges of Tier 3.

  A condensation selects the entries of one profile, type and depth, gives the entries it
  creates the same profile and type and the next depth, and links them. Nothing writes
  these columns afterwards, so the edges lead one depth down for as long as their rows are
  there; a clone copies whole rows. Confidences are written by reflection alone, and only
  of entries it has selected above 0.2 and nobody has touched since.

  - `layered_grows`: edges between known entries, and old ones, keep the DAG layered.
  - `meta_clone`: so does a clone, an edge being copied with the rows at its ends.
  - `condenseOne_safe` / `reflectOne_safe` / `cascadeParent_safe`: what reflection writes.
  - `metaContract`: every job keeps the DAG layered and leaves suppressed entries alone.
-/
import FlowHelm.Memory.Footprint

namespace FlowHelm.Memory

open Js Script Prog Runs

/-- The edges lead one depth down within a profile and a type. -/
def LayeredEdges (t : Tables) : Prop :=
  ∀ e ∈ t.metaParents, ∀ p ∈ t.metas, ∀ c ∈ t.metas, p.id = e.1 → c.id = e.2 →
    p.depth = c.depth + 1 ∧ p.profileId = c.profileId ∧ p.reflectionType = c.reflectionType

instance (t : Tables) : Decidable (LayeredEdges t) := inferInstanceAs (Decidable (∀ e ∈ t.metaParents, _))

/-- They do, and only entries of depth 0 have T2 sources. -/
structure Layered (t : Tables) : Prop where
  edges : LayeredEdges t
  sources : ∀ e ∈ t.metaSources, ∀ m ∈ t.metas, m.id = e.1 → m.depth = 0

/-- The entry `id`, as long as there is one, has these columns. -/
structure Entry (t : Tables) (profileId : Nat) (type : MetaMemoryType) (depth id : Nat) : Prop where
  drawn : id < t.nextId
  row : ∀ m ∈ t.metas, m.id = id → m.profileId = profileId ∧ m.reflectionType = type ∧ m.depth = depth

theorem Entry.grows {s t : Tables} {profileId depth id : Nat} {type : MetaMemoryType} (hg : s.Grows t)
    (h : Entry s profileId type depth id) : Entry t profileId type depth id := by
  refine ⟨lt_of_lt_of_le h.drawn hg.nextId, ?_⟩
  intro m hm hid
  rcases hg.metas m hm with ⟨m₀, hm₀, heq⟩ | hfresh
  · rw [← heq] at hid ⊢
    exact h.row m₀ hm₀ hid
  · exact (Nat.not_lt.mpr hfresh (hid ▸ h.drawn)).elim

theorem entry_of_mem {s : Db} {m : Meta} (hm : m ∈ s.metas) :
    Entry s.toTables m.profileId m.reflectionType m.depth m.id := by
  refine ⟨s.valid.metaDrawn _ (List.mem_map_of_mem hm), ?_⟩
  intro n hn hid
  rw [s.meta_unique hn hm hid]
  exact ⟨rfl, rfl, rfl⟩

/-- Known entries joined, and old edges: old rows stand at the ends of the old ones. -/
theorem layered_grows {s t : Db} (hg : s.Grows t.toTables)
    (hedges : ∀ e ∈ t.metaParents, e ∈ s.metaParents ∨ ∃ profileId type depth,
      Entry t.toTables profileId type (depth + 1) e.1 ∧ Entry t.toTables profileId type depth e.2)
    (hsources : ∀ e ∈ t.metaSources, e ∈ s.metaSources ∨ ∃ profileId type, Entry t.toTables profileId type 0 e.1)
    (h : Layered s.toTables) : Layered t.toTables := by
  have hold : ∀ id ∈ s.metaIds, ∃ m₀ ∈ s.metas, m₀.id = id ∧ Entry t.toTables m₀.profileId m₀.reflectionType m₀.depth id := by
    intro id hid
    obtain ⟨m₀, hm₀, rfl⟩ := List.mem_map.mp hid
    exact ⟨m₀, hm₀, rfl, (entry_of_mem hm₀).grows hg⟩
  refine ⟨?_, ?_⟩
  · intro e he p hp c hc hpe hce
    rcases hedges e he with he | ⟨profileId, type, depth, h1, h2⟩
    · obtain ⟨p₀, hp₀, hpid, hpe₀⟩ := hold e.1 (s.valid.metaParentParent e he)
      obtain ⟨c₀, hc₀, hcid, hce₀⟩ := hold e.2 (s.valid.metaParentChild e he)
      obtain ⟨hp1, hp2, hp3⟩ := hpe₀.row p hp hpe
      obtain ⟨hc1, hc2, hc3⟩ := hce₀.row c hc hce
      rw [hp1, hp2, hp3, hc1, hc2, hc3]
      exact h.edges e he p₀ hp₀ c₀ hc₀ hpid hcid
    · obtain ⟨hp1, hp2, hp3⟩ := h1.row p hp hpe
      obtain ⟨hc1, hc2, hc3⟩ := h2.row c hc hce
      rw [hp1, hp2, hp3, hc1, hc2, hc3]
      exact ⟨rfl, rfl, rfl⟩
  · intro e he m hm hme
    rcases hsources e he with he | ⟨profileId, type, h1⟩
    · obtain ⟨m₀, hm₀, hid, hme₀⟩ := hold e.1 (s.valid.metaSourceMeta e he)
      rw [(hme₀.row m hm hme).2.2]
      exact h.sources e he m₀ hm₀ hid
    · exact (h1.row m hm hme).2.2

/-! ## Suppressed entries -/

/-- Confidences are left as they are. -/
def Leaves (s t : Tables) : Prop := ∀ m ∈ t.metas, m ∈ s.metas ∨ s.nextId ≤ m.id

/-- There is an entry `id` above 0.2, or there has been none. -/
def Spared (s : Tables) (id : Nat) : Prop := s.nextId ≤ id ∨ ∃ m ∈ s.metas, m.id = id ∧ m.low = false

/-- Suppressed entries are neither written nor made children. -/
structure Spares (s t : Tables) : Prop where
  rows : ∀ m ∈ t.metas, m ∈ s.metas ∨ Spared s m.id
  edges : ∀ e ∈ t.metaParents, e ∈ s.metaParents ∨ Spared s e.2

/-- The entry `id`, as long as there is one, is above 0.2. -/
def Usable (t : Tables) (id : Nat) : Prop := id < t.nextId ∧ ∀ m ∈ t.metas, m.id = id → m.low = false

theorem Leaves.refl (s : Tables) : Leaves s s := fun _ h => Or.inl h

theorem Leaves.trans {s t u : Tables} (hg : s.Grows t) (h1 : Leaves s t) (h2 : Leaves t u) : Leaves s u := by
  intro m hm
  rcases h2 m hm with hm | hm
  · exact h1 m hm
  · exact Or.inr (hg.nextId.trans hm)

theorem Spares.refl (s : Tables) : Spares s s := ⟨fun _ h => Or.inl h, fun _ h => Or.inl h⟩

theorem Leaves.spares {s t : Tables} (h : Leaves s t) (hedges : ∀ e ∈ t.metaParents, e ∈ s.metaParents ∨ s.nextId ≤ e.2) :
    Spares s t :=
  ⟨fun m hm => (h m hm).imp_right Or.inl, fun e he => (hedges e he).imp_right Or.inl⟩

/-- What is known of the entry `id`, as long as there is one, is known of it later. -/
theorem Leaves.row {P : Meta → Prop} {s t : Tables} {id : Nat} (hg : s.Grows t) (hl : Leaves s t)
    (h : id < s.nextId ∧ ∀ m ∈ s.metas, m.id = id → P m) : id < t.nextId ∧ ∀ m ∈ t.metas, m.id = id → P m := by
  refine ⟨lt_of_lt_of_le h.1 hg.nextId, ?_⟩
  intro m hm hid
  rcases hl m hm with hm | hfresh
  · exact h.2 m hm hid
  · exact (Nat.not_lt.mpr hfresh (hid ▸ h.1)).elim

theorem Usable.leaves {s t : Tables} {id : Nat} (hg : s.Grows t) (hl : Leaves s t) (h : Usable s id) : Usable t id :=
  Leaves.row hg hl h

theorem usable_of_mem {s : Db} {m : Meta} (hm : m ∈ s.metas) (hlow : m.low = false) : Usable s.toTables m.id := by
  refine ⟨s.valid.metaDrawn _ (List.mem_map_of_mem hm), ?_⟩
  intro n hn hid
  rw [s.meta_unique hn hm hid]
  exact hlow

theorem not_low {m : Meta} (h : 1 / 5 ≤ m.confidence) : m.low = false := decide_eq_false (not_lt.mpr h)

/-! ## Single statements -/

theorem mem_active {s : Db} {m : Meta} {profileId depth : Nat} {type : MetaMemoryType} (h : m ∈ s.active profileId type depth) :
    m ∈ s.metas ∧ 1 / 5 ≤ m.confidence := by
  obtain ⟨hm, hp⟩ := List.mem_filter.mp h
  exact ⟨hm, of_decide_eq_true ((Bool.and_eq_true ..).mp hp).2⟩

/-- The parents a cascade selects at a depth. -/
theorem parents_selected {s : Db} {profileId depth : Nat} {parents : List Meta}
    (hx : service.exec (.parentMetas profileId depth) s parents = some s) :
    (parents.map (·.id)).Nodup ∧ ∀ p ∈ parents, p ∈ s.metas ∧ 1 / 5 ≤ p.confidence := by
  have hperm := (exec_spec hx).1.1
  refine ⟨(hperm.map _).nodup_iff.mpr (s.valid.metaKey.sublist (List.filter_sublist.map _)), ?_⟩
  intro p hp
  obtain ⟨hm, hp⟩ := List.mem_filter.mp (hperm.mem_iff.mp hp)
  simp only [Bool.and_eq_true, decide_eq_true_eq] at hp
  exact ⟨hm, hp.1.2⟩

namespace Op

def linksMetas : Op → Bool
  | .linkSource .. => true
  | .linkMeta .. => true
  | .clone .. => true
  | _ => false

def writesMetas (o : Op) : Bool := o.linksMetas || o matches .setConfidence ..

end Op

theorem effect_metaLinks {o : Op} (ho : o.linksMetas = false) (t : Tables) (a : Ans o) :
    (∀ e ∈ (effect o t a).metaParents, e ∈ t.metaParents) ∧ ∀ e ∈ (effect o t a).metaSources, e ∈ t.metaSources := by
  cases o with
  | linkSource => cases ho
  | linkMeta => cases ho
  | clone => cases ho
  | deleteMetaSourcesByMeta => exact ⟨fun _ h => h, fun _ h => (List.mem_filter.mp h).1⟩
  | deleteMetaSourcesBySemantic => exact ⟨fun _ h => h, fun _ h => (List.mem_filter.mp h).1⟩
  | deleteMetas => exact ⟨fun _ h => (List.mem_filter.mp h).1, fun _ h => (List.mem_filter.mp h).1⟩
  | deleteSemantics => exact ⟨fun _ h => h, fun _ h => (List.mem_filter.mp h).1⟩
  | deleteSemantic => exact ⟨fun _ h => h, fun _ h => (List.mem_filter.mp h).1⟩
  | _ => exact ⟨fun _ h => h, fun _ h => h⟩

theorem effect_leaves {o : Op} (ho : o.writesMetas = false) {t : Tables} {a : Ans o} (ha : Answers o t a) :
    Leaves t (effect o t a) := by
  cases o with
  | setConfidence => cases ho
  | linkSource => cases ho
  | linkMeta => cases ho
  | clone => cases ho
  | insertMeta row => exact List.forall_mem_cons.mpr ⟨Or.inr (le_of_eq (Eq.symm ha)), fun _ h => Or.inl h⟩
  | deleteMetas => exact fun _ h => Or.inl (List.mem_filter.mp h).1
  | _ => exact fun _ h => Or.inl h

def metaRely (j : Job) (s t : Db) : Prop := s.Grows t.toTables ∧ (j = .reflection → Leaves s.toTables t.toTables)

def metaGuar (j : Job) (s t : Db) : Prop :=
  s.Grows t.toTables ∧ Spares s.toTables t.toTables ∧ (j ≠ .reflection → Leaves s.toTables t.toTables)

theorem meta_step (j : Job) {o : Op} (ho : o.writesMetas = false) {s t : Db} {a : Ans o} (h : Layered s.toTables)
    (hx : service.exec o s a = some t) : metaGuar j s t ∧ Layered t.toTables ∧ Leaves s.toTables t.toTables := by
  obtain ⟨ha, ht⟩ := exec_spec hx
  have hleaves : Leaves s.toTables t.toTables := ht ▸ effect_leaves ho ha
  obtain ⟨hparents, hsources⟩ := effect_metaLinks ((Bool.or_eq_false_iff.mp ho).1) s.toTables a
  rw [← ht] at hparents hsources
  refine ⟨⟨exec_grows hx, hleaves.spares fun e he => Or.inl (hparents e he), fun _ => hleaves⟩, ?_, hleaves⟩
  exact layered_grows (exec_grows hx) (fun e he => Or.inl (hparents e he)) (fun e he => Or.inl (hsources e he)) h

/-! ## Clones -/

/-- The copy of an entry has its depth and type, and the new profile. -/
theorem clone_entry {s t : Db} {sourceId now id y : Nat} {profile : Profile} (hp : profile.id = s.nextId)
    (ht : t.toTables = s.clone sourceId profile now)
    (h : copied ((s.metas.filter (·.profileId == sourceId)).map (·.id))
      (profile.id + 1 + (s.semantic.filter (·.profileId == sourceId)).length) id = some y) :
    ∃ m ∈ s.metas, m.id = id ∧ Entry t.toTables profile.id m.reflectionType m.depth y := by
  obtain ⟨k, hk, rfl, hid⟩ := copied_some h
  rw [List.length_map] at hk
  rw [List.getElem_map] at hid
  refine ⟨_, (List.mem_filter.mp (List.getElem_mem hk)).1, hid, ?_, ?_⟩
  · rw [ht]
    show _ < profile.id + 1 + _ + (s.metas.filter (·.profileId == sourceId)).length
    omega
  · intro m hm hmid
    rw [ht] at hm
    rcases List.mem_append.mp hm with hm | hm
    · obtain ⟨k', hk', rfl⟩ := List.mem_mapIdx.mp hm
      have hkk : k' = k := Nat.add_left_cancel hmid
      subst hkk
      exact ⟨rfl, rfl, rfl⟩
    · have := s.valid.metaDrawn m.id (List.mem_map_of_mem hm)
      omega

theorem clone_leaves {sourceId now : Nat} {name : String} {description : Option String} {s t : Db} {profile : Profile}
    (hx : service.exec (.clone sourceId name description now) s profile = some t) : Leaves s.toTables t.toTables := by
  obtain ⟨ha, ht⟩ := exec_spec hx
  have hp : profile.id = s.nextId := by rw [ha]
  intro m hm
  rw [ht] at hm
  rcases List.mem_append.mp hm with hm | hm
  · obtain ⟨k, hk, rfl⟩ := List.mem_mapIdx.mp hm
    refine Or.inr ?_
    show s.nextId ≤ profile.id + 1 + _ + k
    omega
  · exact Or.inl hm

theorem meta_clone (j : Job) {sourceId now : Nat} {name : String} {description : Option String} {s t : Db}
    {profile : Profile} (h : Layered s.toTables)
    (hx : service.exec (.clone sourceId name description now) s profile = some t) :
    metaGuar j s t ∧ Layered t.toTables := by
  obtain ⟨ha, ht⟩ := exec_spec hx
  have hg := exec_grows hx
  have hp : profile.id = s.nextId := by rw [ha]
  have hleaves := clone_leaves hx
  -- an edge copied, its ends copied with it
  have hedge : ∀ e ∈ t.metaParents, e ∈ s.metaParents ∨ ∃ e₀ ∈ s.metaParents, ∃ p ∈ s.metas, ∃ c ∈ s.metas,
      p.id = e₀.1 ∧ c.id = e₀.2 ∧ s.nextId ≤ e.2 ∧ Entry t.toTables profile.id p.reflectionType p.depth e.1 ∧
      Entry t.toTables profile.id c.reflectionType c.depth e.2 := by
    intro e he
    rw [ht] at he
    rcases List.mem_append.mp he with he | he
    · obtain ⟨e₀, he₀, hmap⟩ := List.mem_filterMap.mp he
      obtain ⟨h1, h2⟩ := remap_some hmap
      have hge := copied_ge h2
      obtain ⟨p, hpm, hpe, hp'⟩ := clone_entry hp ht h1
      obtain ⟨c, hcm, hce, hc'⟩ := clone_entry hp ht h2
      exact Or.inr ⟨e₀, he₀, p, hpm, c, hcm, hpe, hce, by omega, hp', hc'⟩
    · exact Or.inl he
  refine ⟨⟨hg, hleaves.spares fun e he => ?_, fun _ => hleaves⟩, layered_grows hg ?_ ?_ h⟩
  · rcases hedge e he with h | ⟨_, _, _, _, _, _, _, _, hge, _⟩
    · exact Or.inl h
    · exact Or.inr hge
  · intro e he
    rcases hedge e he with he | ⟨e₀, he₀, p, hpm, c, hcm, hpe, hce, _, hp', hc'⟩
    · exact Or.inl he
    · obtain ⟨hdepth, _, htype⟩ := h.edges e₀ he₀ p hpm c hcm hpe hce
      rw [hdepth, htype] at hp'
      exact Or.inr ⟨profile.id, c.reflectionType, c.depth, hp', hc'⟩
  · intro e he
    rw [ht] at he
    rcases List.mem_append.mp he with he | he
    · obtain ⟨e₀, he₀, hmap⟩ := List.mem_filterMap.mp he
      obtain ⟨m, hm, hme, hm'⟩ := clone_entry hp ht (remap_some hmap).1
      rw [h.sources e₀ he₀ m hm hme] at hm'
      exact Or.inr ⟨profile.id, m.reflectionType, hm'⟩
    · exact Or.inl he

/-! ## Reflection -/

def metaSetting (j : Job) : Setting Op Ans Db where
  inv s := Layered s.toTables
  rely := metaRely j
  guar := metaGuar j
  ok _ _ := True
  total := False
  rely_refl s := ⟨.refl s.toTables, fun _ => .refl s.toTables⟩
  rely_trans h1 h2 := ⟨h1.1.trans h2.1, fun hj => Leaves.trans h1.1 (h1.2 hj) (h2.2 hj)⟩
  guar_refl s := ⟨.refl s.toTables, .refl s.toTables, fun _ => .refl s.toTables⟩

abbrev reflecting : Setting Op Ans Db := metaSetting .reflection

/-- What the other jobs leave, and the statements of reflection that write no confidence. -/
def Steady (A : Db → Prop) : Prop := ∀ s t : Db, s.Grows t.toTables → Leaves s.toTables t.toTables → A s → A t

theorem steady_true : Steady fun _ => True := fun _ _ _ _ _ => trivial

theorem Steady.rely {A : Db → Prop} (hA : Steady A) {s t : Db} (hr : metaRely .reflection s t) (h : A s) : A t :=
  hA s t hr.1 (hr.2 rfl) h

theorem wp_steady {α : Type} {p : Script α} {P : Op → Prop} (hp : p.Uses P) (hP : ∀ o, P o → o.writesMetas = false)
    {A : Db → Prop} (hA : Steady A) {s : Db} (hs : A s) : wp service reflecting p (fun _ => A) (fun _ => A) s := by
  refine wp_uses id (fun _ _ hr h => hA.rely hr h) ?_ hp hs
  intro o ho s a t hi hs _ hx
  obtain ⟨hg, hi', hl⟩ := meta_step .reflection (hP o ho) hi hx
  exact ⟨hg, hi', hA s t hg.1 hl hs⟩

theorem wp_storeMeta (content : Json) (type : MetaMemoryType) (confidence : Option ℚ) (depth profileId : Nat)
    {A : Db → Prop} (hA : Steady A) {s : Db} (hs : A s) :
    wp service reflecting (storeMeta content type confidence depth profileId)
      (fun id t => Entry t.toTables profileId type depth id ∧ A t) (fun _ _ => True) s := by
  refine wp_read (exec_reads fun _ _ => rfl) id (fun _ _ _ => trivial) ?_
  intro s₁ now hr₁ _ _ _
  split
  · refine wp_perform id (fun _ _ _ => trivial) ?_
    intro s₂ id t hr₂ hi hx _
    obtain ⟨hg, hi', hl⟩ := meta_step .reflection rfl hi hx
    exact ⟨hg, hi', fun _ => ⟨entry_of_mem (mem_insertMeta hx), hA s₂ t hg.1 hl (hA.rely hr₂ (hA.rely hr₁ hs))⟩⟩
  · trivial
  · trivial

theorem setConfidence_guar {id : Nat} {confidence : ℚ} {s t : Db} (hu : Usable s.toTables id) (h : Layered s.toTables)
    (hx : service.exec (.setConfidence id confidence) s () = some t) :
    metaGuar .reflection s t ∧ Layered t.toTables ∧ ∀ m ∈ t.metas, m.id ≠ id → m ∈ s.metas := by
  have ht := (exec_spec hx).2
  have hg := exec_grows hx
  have hmetas : t.metas = s.metas.map fun m => if m.id = id then { m with confidence } else m := by rw [ht]; rfl
  have hparents : t.metaParents = s.metaParents := by rw [ht]; rfl
  have hsources : t.metaSources = s.metaSources := by rw [ht]; rfl
  refine ⟨⟨hg, ⟨?_, fun e he => Or.inl (hparents ▸ he)⟩, fun h => (h rfl).elim⟩, ?_, ?_⟩
  · intro m hm
    rw [hmetas] at hm
    obtain ⟨m₀, hm₀, rfl⟩ := List.mem_map.mp hm
    split
    · rename_i hid
      exact Or.inr (Or.inr ⟨m₀, hm₀, rfl, hu.2 m₀ hm₀ hid⟩)
    · exact Or.inl hm₀
  · exact layered_grows hg (fun e he => Or.inl (hparents ▸ he)) (fun e he => Or.inl (hsources ▸ he)) h
  · intro m hm hne
    rw [hmetas] at hm
    obtain ⟨m₀, hm₀, rfl⟩ := List.mem_map.mp hm
    split at hne
    · rename_i hid
      exact (hne hid).elim
    · rename_i hid
      rw [if_neg hid]
      exact hm₀

theorem adjustNearest_safe (type : MetaMemoryType) (profileId depth : Nat) (s : Db) :
    Safe service reflecting (adjustNearest type profileId depth) s := by
  refine safe_adjustNearest id (F := fun m t => Usable t.toTables m.id) ?_ ?_ ?_ s
  · intro m s _ hm
    obtain ⟨hm, hconf⟩ := mem_active hm
    exact usable_of_mem hm (not_low hconf)
  · intro m s t hr hu
    exact hu.leaves hr.1 (hr.2 rfl)
  · intro m c s t hu _ hi hx
    obtain ⟨hg, hi', _⟩ := setConfidence_guar hu hi hx
    exact ⟨hg, hi'⟩

theorem linkSource_guar {metaId semanticId profileId : Nat} {type : MetaMemoryType} {s t : Db}
    (he : Entry s.toTables profileId type 0 metaId) (h : Layered s.toTables)
    (hx : service.exec (.linkSource metaId semanticId) s () = some t) :
    metaGuar .reflection s t ∧ Layered t.toTables := by
  have ht := (exec_spec hx).2
  have hg := exec_grows hx
  have hmetas : t.metas = s.metas := by rw [ht]; rfl
  have hparents : t.metaParents = s.metaParents := by rw [ht]; rfl
  have hsources : t.metaSources = s.metaSources.insert (metaId, semanticId) := by rw [ht]; rfl
  refine ⟨⟨hg, ⟨fun m hm => Or.inl (hmetas ▸ hm), fun e he => Or.inl (hparents ▸ he)⟩, fun h => (h rfl).elim⟩, ?_⟩
  refine layered_grows hg (fun e he => Or.inl (hparents ▸ he)) (fun e hmem => ?_) h
  rw [hsources] at hmem
  rcases List.mem_insert_iff.mp hmem with rfl | hmem
  · exact Or.inr ⟨profileId, type, he.grows hg⟩
  · exact Or.inl hmem

theorem safe_pure {α : Type} {p : Script α} (hp : p.Uses fun _ => False) (s : Db) : Safe service reflecting p s :=
  safe_uses id (fun _ ho => ho.elim) hp s

theorem reflectOne_safe (cfg : ReflectionConfig) (type : MetaMemoryType) (sourceIds : List Nat) (profileId : Nat)
    (reflection : Json) (s : Db) : Safe service reflecting (reflectOne cfg type sourceIds profileId 0 reflection) s := by
  refine safe_bind (safe_pure (uses_reflectionContent reflection) s) fun content? s₁ => ?_
  split
  · trivial
  refine safe_bind (safe_pure (uses_numberOrHalf _) s₁) fun confidence s₁ => ?_
  refine safe_read (exec_reads fun _ _ => rfl) id fun _ s₂ => ?_
  refine safe_bind (adjustNearest_safe type profileId 0 s₂) fun duplicate s₃ => ?_
  split
  · trivial
  refine wp_bind (wp_mono ?_ (fun _ _ h => h) (wp_storeMeta _ type _ 0 profileId steady_true trivial))
  rintro metaId s₄ ⟨he, _⟩
  refine wp_bind (wp_mono (fun _ _ _ => trivial) (fun _ _ h => h)
    (wp_forEach (fun _ (u : Db) => Entry u.toTables profileId type 0 metaId) ?_ he))
  rintro sourceId _ u he s' hr hi
  refine ⟨fun h => h.elim, fun _ => trivial, ?_⟩
  intro _ v hx
  have he' := he.grows hr.1
  obtain ⟨hg, hi'⟩ := linkSource_guar he' hi hx
  exact ⟨fun _ => ⟨hg, hi', he'.grows hg.1⟩, fun _ => ⟨hg, hi', trivial⟩⟩

theorem generateD0_safe (cfg : ReflectionConfig) (numberText : ℚ → JsString) (profileId : Nat) (s : Db) :
    Safe service reflecting (generateD0 cfg numberText profileId) s := by
  refine safe_read (exec_reads fun _ _ => rfl) id fun stateRow s₁ => ?_
  refine wp_perform id (fun _ _ _ => trivial) ?_
  intro _ recentEntries s₂ _ hi hx _
  obtain ⟨hg, hi', _⟩ := meta_step .reflection rfl hi hx
  refine ⟨hg, hi', fun _ => ?_⟩
  split
  · trivial
  · refine safe_forSum (fun type t => ?_) allTypes s₂
    refine safe_attempt ?_ fun _ _ => trivial
    refine safe_read (exec_reads fun _ _ => rfl) id fun result u => ?_
    refine safe_bind (safe_pure (uses_parseReflections result) u) fun reflections v => ?_
    exact safe_forSum (fun reflection => reflectOne_safe cfg type _ profileId reflection) reflections v

/-! ## Condensation -/

/-- Entries selected together, none of them suppressed. -/
def Children (profileId : Nat) (type : MetaMemoryType) (depth : Nat) (ids : List Nat) (t : Db) : Prop :=
  ∀ id ∈ ids, Entry t.toTables profileId type depth id ∧ Usable t.toTables id

theorem steady_children (profileId : Nat) (type : MetaMemoryType) (depth : Nat) (ids : List Nat) :
    Steady (Children profileId type depth ids) :=
  fun _ _ hg hl h id hid => ⟨(h id hid).1.grows hg, (h id hid).2.leaves hg hl⟩

theorem Children.rely {profileId depth : Nat} {type : MetaMemoryType} {ids : List Nat} {s t : Db}
    (hr : metaRely .reflection s t) (h : Children profileId type depth ids s) : Children profileId type depth ids t :=
  (steady_children profileId type depth ids).rely hr h

theorem linkMeta_guar {parentId childId profileId depth : Nat} {type : MetaMemoryType} {s t : Db}
    (hp : Entry s.toTables profileId type (depth + 1) parentId) (hc : Entry s.toTables profileId type depth childId)
    (hu : Usable s.toTables childId) (h : Layered s.toTables)
    (hx : service.exec (.linkMeta parentId childId) s () = some t) :
    metaGuar .reflection s t ∧ Layered t.toTables ∧ Leaves s.toTables t.toTables := by
  have ht := (exec_spec hx).2
  have hg := exec_grows hx
  have hmetas : t.metas = s.metas := by rw [ht]; rfl
  have hsources : t.metaSources = s.metaSources := by rw [ht]; rfl
  have hparents : t.metaParents = s.metaParents.insert (parentId, childId) := by rw [ht]; rfl
  have hleaves : Leaves s.toTables t.toTables := fun m hm => Or.inl (hmetas ▸ hm)
  refine ⟨⟨hg, ⟨fun m hm => Or.inl (hmetas ▸ hm), fun e hmem => ?_⟩, fun h => (h rfl).elim⟩,
    layered_grows hg (fun e hmem => ?_) (fun e he => Or.inl (hsources ▸ he)) h, hleaves⟩
  · have hchild := t.valid.metaParentChild e hmem
    rw [hparents] at hmem
    rcases List.mem_insert_iff.mp hmem with rfl | hmem
    · rw [Tables.metaIds, hmetas] at hchild
      obtain ⟨m, hm, hid⟩ := List.mem_map.mp hchild
      exact Or.inr (Or.inr ⟨m, hm, hid, hu.2 m hm hid⟩)
    · exact Or.inl hmem
  · rw [hparents] at hmem
    rcases List.mem_insert_iff.mp hmem with rfl | hmem
    · exact Or.inr ⟨profileId, type, depth, hp.grows hg, hc.grows hg⟩
    · exact Or.inl hmem

theorem condenseOne_safe (type : MetaMemoryType) (childIds : List Nat) (profileId depth : Nat) (floor : ℚ)
    (reflection : Json) {s : Db} (hs : Children profileId type depth childIds s) :
    wp service reflecting (condenseOne type childIds profileId (depth + 1) floor reflection)
      (fun _ => Children profileId type depth childIds) (fun _ _ => True) s := by
  have hA := steady_children profileId type depth childIds
  refine wp_bind (wp_mono ?_ (fun _ _ _ => trivial)
    (wp_steady (uses_reflectionContent (P := fun _ => False) reflection) (fun _ ho => ho.elim) hA hs))
  intro content? s₁ hs₁
  split
  · exact hs₁
  refine wp_bind (wp_mono ?_ (fun _ _ _ => trivial)
    (wp_steady (uses_numberOrHalf (P := fun _ => False) _) (fun _ ho => ho.elim) hA hs₁))
  intro confidence s₁ hs₁
  refine wp_read (exec_reads fun _ _ => rfl) id (fun _ _ _ => trivial) ?_
  intro s₂ _ hr₂ _ _ _
  refine wp_bind (wp_mono ?_ (fun _ _ h => h) (wp_storeMeta _ type _ (depth + 1) profileId hA (hs₁.rely hr₂)))
  rintro metaId s₃ ⟨he, hc⟩
  refine wp_bind (wp_mono (fun _ _ h => h.2.1) (fun _ _ h => h) (wp_forEach (fun rest u =>
    Entry u.toTables profileId type (depth + 1) metaId ∧ Children profileId type depth childIds u ∧
      ∀ id ∈ rest, id ∈ childIds) ?_ ⟨he, hc, fun _ h => h⟩))
  rintro childId rest u ⟨he, hc, hsub⟩ s' hr hi
  refine ⟨fun h => h.elim, fun _ => trivial, ?_⟩
  intro _ v hx
  have he' := he.grows hr.1
  have hc' := hc.rely hr
  obtain ⟨hentry, husable⟩ := hc' childId (hsub childId (.head _))
  obtain ⟨hg, hi', hl⟩ := linkMeta_guar he' hentry husable hi hx
  exact ⟨fun _ => ⟨hg, hi', he'.grows hg.1, hA s' v hg.1 hl hc', fun id hid => hsub id (.tail _ hid)⟩,
    fun _ => ⟨hg, hi', trivial⟩⟩

theorem condenseMetaType_safe (cfg : ReflectionConfig) (type : MetaMemoryType) (depth profileId : Nat) (s : Db) :
    Safe service reflecting (condenseMetaType cfg type depth (depth + 1) profileId) s := by
  refine wp_read (exec_reads fun _ _ => rfl) id (fun _ _ _ => trivial) ?_
  intro s₁ uncondensed _ _ hx _
  have hperm := (exec_spec hx).1.1
  split
  · trivial
  have hc : Children profileId type depth (uncondensed.map (·.id)) s₁ := by
    intro id hid
    obtain ⟨m, hm, rfl⟩ := List.mem_map.mp hid
    obtain ⟨hrow, hp⟩ := List.mem_filter.mp (List.mem_filter.mp (hperm.mem_iff.mp hm)).1
    simp only [Bool.and_eq_true, beq_iff_eq, decide_eq_true_eq] at hp
    obtain ⟨⟨⟨rfl, rfl⟩, rfl⟩, hconf⟩ := hp
    exact ⟨entry_of_mem hrow, usable_of_mem hrow (not_low hconf)⟩
  refine safe_attempt ?_ fun _ _ => trivial
  refine wp_read (exec_reads fun _ _ => rfl) id (fun _ _ _ => trivial) ?_
  intro s₂ result hr₂ _ _ _
  refine wp_bind (wp_mono ?_ (fun _ _ _ => trivial) (wp_steady (uses_parseReflections (P := fun _ => False) result)
    (fun _ ho => ho.elim) (steady_children profileId type depth _) (hc.rely hr₂)))
  intro reflections s₃ hc₃
  refine wp_mono (fun _ _ _ => trivial) (fun _ _ h => h) (wp_forSum
    (fun _ => Children profileId type depth (uncondensed.map (·.id))) ?_ hc₃)
  intro reflection _ u hu
  exact condenseOne_safe type _ profileId depth _ reflection hu

theorem condenseDepths_safe (cfg : ReflectionConfig) (profileId : Nat) {ds : List Nat} (hds : ∀ d ∈ ds, 1 ≤ d) (s : Db) :
    Safe service reflecting (condenseDepths cfg profileId ds) s := by
  induction ds generalizing s with
  | nil => trivial
  | cons d ds ih =>
    obtain ⟨depth, rfl⟩ := Nat.exists_eq_add_of_le' (hds d (.head _))
    refine safe_bind (safe_forSum (fun type t => condenseMetaType_safe cfg type depth profileId t) allTypes s)
      fun created s₁ => ?_
    split
    · trivial
    · exact safe_bind (ih (fun d' hd => hds d' (.tail _ hd)) s₁) fun _ _ => trivial

/-! ## The cascade -/

/-- The parents still to be looked at: none of them touched since they were selected. -/
def Untouched (parents : List Meta) (t : Db) : Prop :=
  (parents.map (·.id)).Nodup ∧ ∀ p ∈ parents, Usable t.toTables p.id

theorem Untouched.steady {parents : List Meta} {s t : Db} (hg : s.Grows t.toTables) (hl : Leaves s.toTables t.toTables)
    (h : Untouched parents s) : Untouched parents t :=
  ⟨h.1, fun p hp => (h.2 p hp).leaves hg hl⟩

theorem cascadeParent_safe (parent : Meta) (rest : List Meta) {s : Db} (hs : Untouched (parent :: rest) s) :
    wp service reflecting (cascadeParent parent) (fun _ => Untouched rest) (fun _ _ => True) s := by
  have htail : ∀ {t : Db}, Untouched (parent :: rest) t → Untouched rest t :=
    fun h => ⟨(List.nodup_cons.mp h.1).2, fun p hp => h.2 p (.tail _ hp)⟩
  refine wp_cascadeParent id ?_ (fun _ h => htail h) ?_ hs
  · intro s t hr h
    exact Untouched.steady hr.1 (hr.2 rfl) h
  intro s t h hi hx
  obtain ⟨hg, hi', hother⟩ := setConfidence_guar (h.2 parent (.head _)) hi hx
  refine ⟨hg, hi', (htail h).1, fun p hp => ?_⟩
  refine ⟨lt_of_lt_of_le ((htail h).2 p hp).1 hg.1.nextId, fun m hm hid => ?_⟩
  refine ((htail h).2 p hp).2 m (hother m hm fun he => ?_) hid
  exact (List.nodup_cons.mp h.1).1 (List.mem_map.mpr ⟨p, hp, hid.symm.trans he⟩)

theorem cascadeDepth_safe (profileId depth : Nat) (s : Db) :
    Safe service reflecting (cascadeDepth profileId depth) s := by
  refine wp_read (exec_reads fun _ _ => rfl) id (fun _ _ _ => trivial) ?_
  intro s₁ parents _ _ hx _
  obtain ⟨hnodup, hselected⟩ := parents_selected hx
  refine wp_mono (fun _ _ _ => trivial) (fun _ _ h => h) (wp_forSum Untouched
    (fun parent rest u hu => cascadeParent_safe parent rest hu) ⟨hnodup, fun p hp => ?_⟩)
  obtain ⟨hm, hconf⟩ := hselected p hp
  exact usable_of_mem hm (not_low hconf)

/-! ## Every run -/

theorem reflection_safe (cfg : ReflectionConfig) (numberText : ℚ → JsString) (s : Db) :
    Safe service reflecting (Reflection.run cfg numberText) s := by
  simp only [Reflection.run]
  split
  · trivial
  have hstep : ∀ {α : Type} {o : Op} (_ : o.writesMetas = false) (k : Ans o → Script α) (t : Db),
      (∀ a u, Safe service reflecting (k a) u) → Safe service reflecting ((await o).bind k) t := by
    intro α o ho k t hk
    refine safe_bind (safe_uses (P := (· = o)) id ?_ (uses_perform rfl) t) hk
    rintro _ rfl u a v hi _ hx
    obtain ⟨hg, hi', _⟩ := meta_step .reflection ho hi hx
    exact ⟨hg, hi'⟩
  refine hstep rfl _ s fun profiles s₁ => ?_
  refine safe_bind (safe_forSum (fun profileId t => ?_) profiles s₁) fun total s₂ => ?_
  · refine safe_bind (generateD0_safe cfg numberText profileId t) fun generated u => ?_
    refine safe_bind (condenseDepths_safe cfg profileId (depths_pos cfg) u) fun condensed v => ?_
    split
    · refine safe_bind (safe_forSum (fun depth w => cascadeDepth_safe profileId depth w) (depths cfg) v) ?_
      exact fun _ _ => trivial
    · trivial
  · refine hstep rfl _ s₂ fun now s₃ => ?_
    exact hstep rfl _ s₃ fun _ _ => trivial

theorem consolidates_writesMetas (o : Op) (h : o.consolidates) : o.writesMetas = false := by
  cases o <;> first | rfl | cases h

theorem request_metaSafe (j : Job) (maxProfiles : Nat) (r : Request) (s : Db) :
    Safe service (metaSetting j) (r.program maxProfiles) s := by
  refine safe_uses id ?_ (uses_request maxProfiles r) s
  intro o ho s a t hi _ hx
  by_cases hw : o.writesMetas = false
  · obtain ⟨hg, hi', _⟩ := meta_step j hw hi hx
    exact ⟨hg, hi'⟩
  · cases o with
    | clone => exact meta_clone j hi hx
    | setConfidence => cases ho
    | linkSource => cases ho
    | linkMeta => cases ho
    | _ => exact (hw rfl).elim

def metaContract (cfg : Config) : Contract (world cfg) anyStep where
  inv s := Layered s.toTables
  rely := metaRely
  guar := metaGuar
  rely_refl j := (metaSetting j).rely_refl
  rely_trans {j} := (metaSetting j).rely_trans
  guar_refl j := (metaSetting j).guar_refl
  compat i j s t hij h := ⟨h.1, fun hj => h.2.2 fun hi => hij (hi.trans hj.symm)⟩
  init := ⟨nofun, nofun⟩
  env s e t hi _ he := by
    have hk := arrive_keeps he
    have hg := arrive_grows he
    refine ⟨layered_grows hg (fun e he => Or.inl (hk.metaParents ▸ he)) (fun e he => Or.inl (hk.metaSources ▸ he)) hi, ?_⟩
    exact fun _ => ⟨hg, fun _ m hm => Or.inl (hk.metas ▸ hm)⟩
  jobs j s _ _ := by
    cases j with
    | consolidation =>
      refine safe_uses id ?_ (uses_discard (uses_consolidation cfg.consolidation)) s
      intro o ho s a t hi _ hx
      obtain ⟨hg, hi', _⟩ := meta_step .consolidation (consolidates_writesMetas o ho) hi hx
      exact ⟨hg, hi'⟩
    | reflection => exact safe_bind (reflection_safe cfg.reflection cfg.numberText s) fun _ _ => trivial
    | request n r => exact request_metaSafe (.request n r) cfg.maxProfilesPerUser r s

end FlowHelm.Memory
