/-
  FlowHelm.Memory.Confidence — what a run makes of the confidences of `memory_meta`.

  A confirmation goes towards 0.95 and stops there, a contradiction decays down to 0.1. What
  is written is computed from a confidence read before, which only reflection writes, so that
  it still is the entry's; and only entries of at least 0.2 are read. So a contradiction never
  raises a confidence. A confirmation lowers one that is above 0.95, which no entry is unless
  `confidenceThreshold`, the least confidence of a new entry, is.

  - `le_confirm_iff` / `contradict_le`: when the two are monotone.
  - `confidenceContract`: every step of a run leaves, confirms or contradicts, and no entry is
    above 0.95 if the threshold is not.
  - `confidences_are_sound`: in every run.
  - `a_confirmation_lowers`: a run with the threshold 1.
-/
import FlowHelm.Lib.History
import FlowHelm.Memory.MetaDag
import Mathlib.Tactic.Linarith
import Mathlib.Algebra.Order.Field.Basic

namespace FlowHelm.Memory

open Js Script Prog Runs

/-! ## The two functions -/

theorem confirm_le_cap (c : ℚ) : confirmConfidence c ≤ 95 / 100 := min_le_left _ _

theorem le_confirm_iff {c : ℚ} : c ≤ confirmConfidence c ↔ c ≤ 95 / 100 := by
  constructor
  · intro hle
    exact hle.trans (confirm_le_cap c)
  · intro hcap
    refine le_min hcap ?_
    linarith

theorem contradict_le {c : ℚ} (h : 1 / 5 ≤ c) : contradictConfidence c ≤ c := by
  refine max_le ?_ ?_
  · linarith
  · linarith

theorem contradict_le_cap {c : ℚ} (h : c ≤ 95 / 100) : contradictConfidence c ≤ 95 / 100 := by
  refine max_le ?_ ?_
  · norm_num
  · linarith

/-- A write that is both is of no entry above 0.95. -/
theorem le_cap_of_eq {c : ℚ} (h : c ≤ 1) (heq : confirmConfidence c = contradictConfidence c) : c ≤ 95 / 100 := by
  by_contra hcap
  have hconfirm : confirmConfidence c = 95 / 100 := min_eq_left (by linarith)
  have hcontradict : contradictConfidence c ≤ 8 / 10 := max_le (by norm_num) (by linarith)
  linarith

/-- What a new entry gets. -/
theorem clamp_le_cap {floor cap c : ℚ} {confidence : JsNumber} (hfloor : floor ≤ 95 / 100) (hcap : cap ≤ 95 / 100)
    (h : confidence.clamp floor cap = some c) : c ≤ 95 / 100 :=
  (JsNumber.clamp_bounds h).2.trans (max_le hfloor hcap)

theorem confidenceFloor_le (entries : List Meta) : confidenceFloor entries ≤ 95 / 100 := min_le_left _ _

/-! ## Steps -/

/-- A confidence left, confirmed or contradicted, the last two of an entry that is not suppressed. -/
def Adjusts (c c' : ℚ) : Prop := c' = c ∨ (1 / 5 ≤ c ∧ (c' = confirmConfidence c ∨ c' = contradictConfidence c))

/-- What a step makes of the entries that are there before and after it. -/
def Adjusted (s t : Tables) : Prop :=
  ∀ m ∈ s.metas, ∀ n ∈ t.metas, n.id = m.id → Adjusts m.confidence n.confidence

/-- And if it does so soundly. -/
def SoundStep (s t : Tables) : Prop :=
  ∀ m ∈ s.metas, ∀ n ∈ t.metas, n.id = m.id → n.confidence = m.confidence ∨
    (n.confidence = confirmConfidence m.confidence ∧ m.confidence ≤ n.confidence) ∨
    (n.confidence = contradictConfidence m.confidence ∧ n.confidence ≤ m.confidence)

/-- No entry is above 0.95, unless new ones can be. -/
def Capped (cfg : ReflectionConfig) (t : Tables) : Prop :=
  cfg.confidenceThreshold ≤ 95 / 100 → ∀ m ∈ t.metas, m.confidence ≤ 95 / 100

theorem Leaves.confidence {s t : Db} (h : Leaves s.toTables t.toTables) {m n : Meta} (hm : m ∈ s.metas) (hn : n ∈ t.metas)
    (hid : n.id = m.id) : n.confidence = m.confidence := by
  rcases h n hn with hn | hfresh
  · rw [s.meta_unique hn hm hid]
  · have hdrawn := s.valid.metaDrawn m.id (List.mem_map_of_mem hm)
    omega

namespace Op

/-- Writes no confidence of an entry that is there. -/
def leavesConfidence : Op → Bool
  | .setConfidence .. => false
  | _ => true

/-- And none of a new one above 0.95, unless the threshold is. -/
def Caps (cfg : ReflectionConfig) : Op → Prop
  | .setConfidence .. => False
  | .insertMeta row => cfg.confidenceThreshold ≤ 95 / 100 → row.confidence ≤ 95 / 100
  | _ => True

end Op

theorem exec_leaves {o : Op} (ho : o.leavesConfidence) {s t : Db} {a : Ans o} (hx : service.exec o s a = some t) :
    Leaves s.toTables t.toTables := by
  obtain ⟨ha, ht⟩ := exec_spec hx
  by_cases hw : o.writesMetas = false
  · rw [ht]
    exact effect_leaves hw ha
  · cases o with
    | setConfidence => cases ho
    | linkSource =>
      rw [ht]
      exact fun m hm => Or.inl hm
    | linkMeta =>
      rw [ht]
      exact fun m hm => Or.inl hm
    | clone => exact clone_leaves hx
    | _ => exact (hw rfl).elim

/-- Where the confidence of an entry is from. -/
theorem confidence_origin {o : Op} (ho : o.leavesConfidence) {t : Tables} {a : Ans o} {m : Meta} (hm : m ∈ (effect o t a).metas) :
    (∃ m₀ ∈ t.metas, m.confidence = m₀.confidence) ∨ ∃ row, o = .insertMeta row ∧ m.confidence = row.confidence := by
  cases o with
  | setConfidence => cases ho
  | insertMeta row =>
    rcases List.mem_cons.mp hm with rfl | hm
    · exact Or.inr ⟨row, rfl, rfl⟩
    · exact Or.inl ⟨m, hm, rfl⟩
  | clone =>
    rcases List.mem_append.mp hm with hm | hm
    · obtain ⟨k, hk, rfl⟩ := List.mem_mapIdx.mp hm
      exact Or.inl ⟨_, (List.mem_filter.mp (List.getElem_mem hk)).1, rfl⟩
    · exact Or.inl ⟨m, hm, rfl⟩
  | deleteMetas => exact Or.inl ⟨m, (List.mem_filter.mp hm).1, rfl⟩
  | _ => exact Or.inl ⟨m, hm, rfl⟩

theorem caps_leavesConfidence {cfg : ReflectionConfig} {o : Op} (h : o.Caps cfg) : o.leavesConfidence := by
  cases o <;> first | rfl | exact h.elim

def confidenceGuar (j : Job) (s t : Db) : Prop :=
  s.Grows t.toTables ∧ Adjusted s.toTables t.toTables ∧ (j ≠ .reflection → Leaves s.toTables t.toTables)

theorem Leaves.guar {s t : Db} (j : Job) (hg : s.Grows t.toTables) (h : Leaves s.toTables t.toTables) : confidenceGuar j s t :=
  ⟨hg, fun _ hm _ hn hid => Or.inl (h.confidence hm hn hid), fun _ => h⟩

theorem caps_step {cfg : ReflectionConfig} (j : Job) {o : Op} (ho : o.Caps cfg) {s t : Db} {a : Ans o}
    (hi : Capped cfg s.toTables)
    (hx : service.exec o s a = some t) : confidenceGuar j s t ∧ Capped cfg t.toTables := by
  have hleaves := caps_leavesConfidence ho
  refine ⟨(exec_leaves hleaves hx).guar j (exec_grows hx), ?_⟩
  intro hthreshold m hm
  rw [(exec_spec hx).2] at hm
  rcases confidence_origin hleaves hm with ⟨m₀, hm₀, heq⟩ | ⟨row, rfl, heq⟩
  · rw [heq]
    exact hi hthreshold m₀ hm₀
  · rw [heq]
    exact ho hthreshold

/-- The entry `m` has been selected, and has its confidence still. -/
def Held (m : Meta) (t : Db) : Prop :=
  1 / 5 ≤ m.confidence ∧ m.id < t.nextId ∧ ∀ n ∈ t.metas, n.id = m.id → n.confidence = m.confidence

theorem held_of_mem {s : Db} {m : Meta} (hm : m ∈ s.metas) (h : 1 / 5 ≤ m.confidence) : Held m s := by
  refine ⟨h, s.valid.metaDrawn _ (List.mem_map_of_mem hm), ?_⟩
  intro n hn hid
  rw [s.meta_unique hn hm hid]

theorem Held.leaves {m : Meta} {s t : Db} (hg : s.Grows t.toTables) (hl : Leaves s.toTables t.toTables) (h : Held m s) :
    Held m t :=
  ⟨h.1, Leaves.row (P := fun n => n.confidence = m.confidence) hg hl h.2⟩

theorem set_metas {id : Nat} {c : ℚ} {s t : Db} (hx : service.exec (.setConfidence id c) s () = some t) :
    t.metas = s.metas.map fun m => if m.id = id then { m with confidence := c } else m := by
  rw [(exec_spec hx).2]
  rfl

/-- A row after the write: the one before it, written if it is the entry's. -/
theorem set_row {id : Nat} {c : ℚ} {s t : Db} (hx : service.exec (.setConfidence id c) s () = some t) {n : Meta}
    (hn : n ∈ t.metas) :
    n ∈ s.metas ∧ n.id ≠ id ∨ ∃ m ∈ s.metas, m.id = id ∧ n = { m with confidence := c } := by
  rw [set_metas hx] at hn
  obtain ⟨m, hm, rfl⟩ := List.mem_map.mp hn
  split
  · rename_i hid
    exact Or.inr ⟨m, hm, hid, rfl⟩
  · rename_i hid
    exact Or.inl ⟨hm, hid⟩

theorem held_write {cfg : ReflectionConfig} {m : Meta} {c : ℚ} {s t : Db} (h : Held m s)
    (hc : c = confirmConfidence m.confidence ∨ c = contradictConfidence m.confidence) (hi : Capped cfg s.toTables)
    (hx : service.exec (.setConfidence m.id c) s () = some t) :
    confidenceGuar .reflection s t ∧ Capped cfg t.toTables ∧ ∀ p : Meta, p.id ≠ m.id → Held p s → Held p t := by
  obtain ⟨hlow, hdrawn, hrow⟩ := h
  refine ⟨⟨exec_grows hx, ?_, fun h => (h rfl).elim⟩, ?_, ?_⟩
  · intro m₀ hm₀ n hn hid
    rcases set_row hx hn with ⟨hn, _⟩ | ⟨m₁, hm₁, hid₁, rfl⟩
    · exact Or.inl (congrArg (·.confidence) (s.meta_unique hn hm₀ hid))
    · obtain rfl := s.meta_unique hm₁ hm₀ hid
      rw [← hrow m₁ hm₁ hid₁] at hlow hc
      exact Or.inr ⟨hlow, hc⟩
  · intro hthreshold n hn
    rcases set_row hx hn with ⟨hn, _⟩ | ⟨m₁, hm₁, hid₁, rfl⟩
    · exact hi hthreshold n hn
    · have hcap := hi hthreshold m₁ hm₁
      rw [hrow m₁ hm₁ hid₁] at hcap
      rcases hc with rfl | rfl
      · exact confirm_le_cap _
      · exact contradict_le_cap hcap
  · intro p hne hp
    refine ⟨hp.1, lt_of_lt_of_le hp.2.1 (exec_grows hx).nextId, ?_⟩
    intro n hn hid
    rcases set_row hx hn with ⟨hn, _⟩ | ⟨m₁, hm₁, hid₁, rfl⟩
    · exact hp.2.2 n hn hid
    · exact (hne (hid.symm.trans hid₁)).elim

/-! ## Reflection -/

section Reflection

variable (cfg : ReflectionConfig)

theorem metaRely_refl (j : Job) (s : Db) : metaRely j s s := (metaSetting j).rely_refl s

theorem metaRely_trans (j : Job) {s t u : Db} (h1 : metaRely j s t) (h2 : metaRely j t u) : metaRely j s u :=
  (metaSetting j).rely_trans h1 h2

def confidenceSetting (j : Job) : Setting Op Ans Db where
  inv s := Capped cfg s.toTables
  rely := metaRely j
  guar := confidenceGuar j
  ok _ _ := True
  total := False
  rely_refl := metaRely_refl j
  rely_trans := @metaRely_trans j
  guar_refl s := (Leaves.refl s.toTables).guar j (.refl s.toTables)

variable {cfg}

theorem safe_caps (j : Job) {α : Type} {p : Script α} (hp : p.Uses (·.Caps cfg)) (s : Db) :
    Safe service (confidenceSetting cfg j) p s := by
  refine safe_uses id ?_ hp s
  intro o ho s a t hi _ hx
  exact caps_step j ho hi hx

theorem safe_statement {j : Job} {α : Type} {o : Op} (ho : o.Caps cfg) {k : Ans o → Script α} {s : Db}
    (hk : ∀ a t, Safe service (confidenceSetting cfg j) (k a) t) : Safe service (confidenceSetting cfg j) ((await o).bind k) s :=
  safe_bind (safe_caps j (uses_perform ho) s) hk

theorem caps_storeMeta {content : Json} {type : MetaMemoryType} {confidence : Option ℚ} {depth profileId : Nat}
    (h : ∀ c, confidence = some c → cfg.confidenceThreshold ≤ 95 / 100 → c ≤ 95 / 100) :
    (storeMeta content type confidence depth profileId).Uses (·.Caps cfg) := by
  refine uses_bind (uses_perform trivial) fun now => ?_
  split
  · exact uses_perform (h _ rfl)
  · trivial
  · trivial

variable (cfg)

theorem caps_condenseOne (type : MetaMemoryType) (childIds : List Nat) (profileId depth : Nat) {floor : ℚ}
    (hfloor : floor ≤ 95 / 100) (reflection : Json) :
    (condenseOne type childIds profileId depth floor reflection).Uses (·.Caps cfg) := by
  refine uses_bind (uses_reflectionContent reflection) fun content? => ?_
  split
  · trivial
  refine uses_bind (uses_numberOrHalf _) fun confidence => uses_bind (uses_perform trivial) fun _ => ?_
  refine uses_bind (caps_storeMeta fun c hc _ => clamp_le_cap hfloor le_rfl hc) fun metaId => ?_
  exact uses_bind (uses_forEach fun _ _ => uses_perform trivial) fun _ => trivial

theorem caps_condenseDepths (profileId : Nat) (ds : List Nat) : (condenseDepths cfg profileId ds).Uses (·.Caps cfg) := by
  induction ds with
  | nil => trivial
  | cons d ds ih =>
    refine uses_bind (uses_forSum (fun type => uses_bind (uses_perform trivial) fun uncondensed => ?_) allTypes) fun created => ?_
    · split
      · trivial
      refine uses_attempt (uses_bind (uses_perform trivial) fun result => ?_) fun _ => trivial
      refine uses_bind (uses_parseReflections result) fun reflections => uses_forSum (fun reflection => ?_) reflections
      exact caps_condenseOne cfg type _ profileId d (confidenceFloor_le uncondensed) reflection
    · split
      · trivial
      · exact uses_bind ih fun _ => trivial

theorem adjustNearest_sound (type : MetaMemoryType) (profileId depth : Nat) (s : Db) :
    Safe service (confidenceSetting cfg .reflection) (adjustNearest type profileId depth) s := by
  refine safe_adjustNearest id (F := Held) ?_ ?_ ?_ s
  · intro m s _ hm
    obtain ⟨hm, hconf⟩ := mem_active hm
    exact held_of_mem hm hconf
  · intro m s t hr hm
    exact hm.leaves hr.1 (hr.2 rfl)
  · intro m c s t hm hc hi hx
    obtain ⟨hg, hi', _⟩ := held_write hm hc hi hx
    exact ⟨hg, hi'⟩

theorem reflectOne_sound (type : MetaMemoryType) (sourceIds : List Nat) (profileId : Nat) (reflection : Json) (s : Db) :
    Safe service (confidenceSetting cfg .reflection) (reflectOne cfg type sourceIds profileId 0 reflection) s := by
  refine safe_bind (safe_caps _ (uses_reflectionContent reflection) s) fun content? s₁ => ?_
  split
  · trivial
  refine safe_bind (safe_caps _ (uses_numberOrHalf _) s₁) fun confidence s₁ => ?_
  refine safe_statement (by trivial) fun _ s₂ => ?_
  refine safe_bind (adjustNearest_sound cfg type profileId 0 s₂) fun duplicate s₃ => ?_
  split
  · trivial
  refine safe_caps _ (uses_bind (caps_storeMeta fun c hc hthreshold => ?_) fun metaId => ?_) s₃
  · exact clamp_le_cap hthreshold (by norm_num) hc
  · exact uses_bind (uses_forEach fun _ _ => uses_perform trivial) fun _ => trivial

theorem generateD0_sound (numberText : ℚ → JsString) (profileId : Nat) (s : Db) :
    Safe service (confidenceSetting cfg .reflection) (generateD0 cfg numberText profileId) s := by
  refine safe_statement (by trivial) fun stateRow s₁ => ?_
  refine safe_statement (by trivial) fun recentEntries s₂ => ?_
  split
  · trivial
  refine safe_forSum (fun type t => ?_) allTypes s₂
  refine safe_attempt ?_ fun _ _ => trivial
  refine safe_statement (by trivial) fun result u => ?_
  refine safe_bind (safe_caps _ (uses_parseReflections result) u) fun reflections v => ?_
  exact safe_forSum (fun reflection => reflectOne_sound cfg type _ profileId reflection) reflections v

/-- The parents still to be looked at: none of them written since they were selected. -/
def AllHeld (parents : List Meta) (t : Db) : Prop := (parents.map (·.id)).Nodup ∧ ∀ p ∈ parents, Held p t

theorem AllHeld.tail {parent : Meta} {rest : List Meta} {t : Db} (h : AllHeld (parent :: rest) t) : AllHeld rest t :=
  ⟨(List.nodup_cons.mp h.1).2, fun p hp => h.2 p (.tail _ hp)⟩

theorem cascadeParent_sound (parent : Meta) (rest : List Meta) {s : Db} (hs : AllHeld (parent :: rest) s) :
    wp service (confidenceSetting cfg .reflection) (cascadeParent parent) (fun _ => AllHeld rest) (fun _ _ => True) s := by
  refine wp_cascadeParent id ?_ (fun _ h => h.tail) ?_ hs
  · intro s t hr h
    exact ⟨h.1, fun p hp => (h.2 p hp).leaves hr.1 (hr.2 rfl)⟩
  · intro s t h hi hx
    obtain ⟨hg, hi', hother⟩ := held_write (h.2 parent (.head _)) (Or.inr rfl) hi hx
    refine ⟨hg, hi', h.tail.1, fun p hp => hother p (fun heq => ?_) (h.tail.2 p hp)⟩
    exact (List.nodup_cons.mp h.1).1 (List.mem_map.mpr ⟨p, hp, heq⟩)

theorem cascadeDepth_sound (profileId depth : Nat) (s : Db) :
    Safe service (confidenceSetting cfg .reflection) (cascadeDepth profileId depth) s := by
  refine wp_read (exec_reads fun _ _ => rfl) id (fun _ _ _ => trivial) ?_
  intro s₁ parents _ _ hx _
  obtain ⟨hnodup, hselected⟩ := parents_selected hx
  refine wp_mono (fun _ _ _ => trivial) (fun _ _ h => h) (wp_forSum AllHeld
    (fun parent rest u hu => cascadeParent_sound cfg parent rest hu) ⟨hnodup, fun p hp => ?_⟩)
  obtain ⟨hm, hconf⟩ := hselected p hp
  exact held_of_mem hm hconf

theorem reflection_sound (numberText : ℚ → JsString) (s : Db) :
    Safe service (confidenceSetting cfg .reflection) (Reflection.run cfg numberText) s := by
  simp only [Reflection.run]
  split
  · trivial
  refine safe_statement (by trivial) fun profiles s₁ => ?_
  refine safe_bind (safe_forSum (fun profileId t => ?_) profiles s₁) fun total s₂ => ?_
  · refine safe_bind (generateD0_sound cfg numberText profileId t) fun generated u => ?_
    refine safe_bind (safe_caps _ (caps_condenseDepths cfg profileId (depths cfg)) u) fun condensed v => ?_
    split
    · exact safe_bind (safe_forSum (fun depth w => cascadeDepth_sound cfg profileId depth w) (depths cfg) v) fun _ _ => trivial
    · trivial
  · exact safe_statement (by trivial) fun now s₃ => safe_statement (by trivial) fun _ _ => trivial

end Reflection

/-! ## Every run -/

theorem consolidates_caps (cfg : ReflectionConfig) (o : Op) (h : o.consolidates) : o.Caps cfg := by
  cases o <;> trivial

theorem requested_caps (cfg : ReflectionConfig) (o : Op) (h : o.requested) : o.Caps cfg := by
  cases o <;> trivial

def confidenceContract (cfg : Config) : Contract (world cfg) anyStep where
  inv s := Capped cfg.reflection s.toTables
  rely := metaRely
  guar := confidenceGuar
  rely_refl := metaRely_refl
  rely_trans := @metaRely_trans
  guar_refl j := (confidenceSetting cfg.reflection j).guar_refl
  compat i j s t hij h := ⟨h.1, fun hj => h.2.2 fun hi => hij (hi.trans hj.symm)⟩
  init _ := nofun
  env s e t hi _ he := by
    have hk := arrive_keeps he
    refine ⟨fun hthreshold m hm => hi hthreshold m (hk.metas ▸ hm), ?_⟩
    exact fun _ => ⟨arrive_grows he, fun _ m hm => Or.inl (hk.metas ▸ hm)⟩
  jobs j s _ _ := by
    cases j with
    | consolidation => exact safe_caps _ ((uses_discard (uses_consolidation cfg.consolidation)).mono (consolidates_caps _)) s
    | reflection => exact safe_bind (reflection_sound cfg.reflection cfg.numberText s) fun _ _ => trivial
    | request n r => exact safe_caps _ ((uses_request cfg.maxProfilesPerUser r).mono (requested_caps _)) s

theorem moves_adjust (cfg : Config) {s t : Db} (h : (confidenceContract cfg).Moves s t) : Adjusted s.toTables t.toTables := by
  rcases h with rfl | ⟨j, hg⟩ | ⟨e, _, he⟩
  · exact ((Leaves.refl _).guar .reflection (.refl _)).2.1
  · exact hg.2.1
  · have hk := arrive_keeps he
    have hleaves : Leaves s.toTables t.toTables := fun m hm => Or.inl (hk.metas ▸ hm)
    exact (hleaves.guar .reflection (arrive_grows he)).2.1

/-- A confirmation finds its entry at 0.95 or below. -/
def ConfirmsBelowCap (t : Tables) (d : Did Op Ans) : Prop :=
  ∀ x ∈ d.done, ∀ m ∈ t.metas, x.1 = .setConfidence m.id (confirmConfidence m.confidence) → m.confidence ≤ 95 / 100

instance (t : Tables) (d : Did Op Ans) : Decidable (ConfirmsBelowCap t d) :=
  inferInstanceAs (Decidable (∀ x ∈ d.done, _))

abbrev capCond : Cond Op Ans Db Job Arrival where
  start _ := True
  did s d := ConfirmsBelowCap s.toTables d
  env _ _ := True

/-- A confidence that has changed was written. -/
theorem changed_written {o : Op} {s t : Db} {a : Ans o} (hx : service.exec o s a = some t) {m n : Meta} (hm : m ∈ s.metas)
    (hn : n ∈ t.metas) (hid : n.id = m.id) (hne : n.confidence ≠ m.confidence) : o = .setConfidence m.id n.confidence := by
  by_cases ho : o.leavesConfidence
  · exact (hne ((exec_leaves ho hx).confidence hm hn hid)).elim
  · cases o with
    | setConfidence id c =>
      rcases set_row hx hn with ⟨hn, _⟩ | ⟨m₁, hm₁, hid₁, rfl⟩
      · rw [s.meta_unique hn hm hid] at hne
        exact (hne rfl).elim
      · rw [← hid₁, ← hid]
    | _ => exact (ho rfl).elim

theorem exec_sound_iff {o : Op} {s t : Db} {a : Ans o} (hx : service.exec o s a = some t)
    (hadj : Adjusted s.toTables t.toTables) :
    SoundStep s.toTables t.toTables ↔
      ∀ m ∈ s.metas, o = .setConfidence m.id (confirmConfidence m.confidence) → m.confidence ≤ 95 / 100 := by
  constructor
  · rintro hsound m hm rfl
    have hn : { m with confidence := confirmConfidence m.confidence } ∈ t.metas := by
      rw [set_metas hx]
      exact List.mem_map.mpr ⟨m, hm, if_pos rfl⟩
    rcases hsound m hm _ hn rfl with heq | ⟨_, hle⟩ | ⟨heq, _⟩
    · rw [← heq]
      exact confirm_le_cap _
    · exact le_confirm_iff.mp hle
    · exact le_cap_of_eq (s.valid.confidence m hm).2 heq
  · intro hcap m hm n hn hid
    rcases hadj m hm n hn hid with heq | ⟨hlow, heq | heq⟩
    · exact Or.inl heq
    · by_cases hsame : n.confidence = m.confidence
      · exact Or.inl hsame
      · have hwritten := changed_written hx hm hn hid hsame
        rw [heq] at hwritten
        have hle := hcap m hm hwritten
        exact Or.inr (Or.inl ⟨heq, heq ▸ le_confirm_iff.mpr hle⟩)
    · exact Or.inr (Or.inr ⟨heq, heq ▸ contradict_le hlow⟩)

theorem Leaves.sound {s t : Db} (h : Leaves s.toTables t.toTables) : SoundStep s.toTables t.toTables :=
  fun _ hm _ hn hid => Or.inl (h.confidence hm hn hid)

theorem step_sound_iff {cfg : Config} {x y : Conf Op Ans Db Job} {e : Event Op Ans Job Arrival}
    (hs : (world cfg).step x e = some y)
    (hadj : Adjusted x.db.toTables y.db.toTables) : SoundStep x.db.toTables y.db.toTables ↔ capCond.meets x e := by
  rcases Machine.step_cases hs with ⟨j, rfl, _, rfl⟩ | ⟨j, d, p, q, t, rfl, hp, ha, rfl⟩ | ⟨j, p, rfl, _, _, rfl⟩ |
    ⟨e, t, rfl, ht, rfl⟩ | ⟨rfl, rfl⟩
  · exact iff_of_true (Leaves.refl _).sound trivial
  · cases p with
    | ret a => exact (advance_done rfl ha).elim
    | throw e => exact (advance_done rfl ha).elim
    | op o k err =>
      rcases advance_op ha with ⟨a, rfl, hx, _⟩ | ⟨rfl, rfl, _⟩ | ⟨a, rfl, hx, _⟩
      · rw [exec_sound_iff hx hadj]
        simp [Cond.meets, ConfirmsBelowCap, Did.done]
      · refine iff_of_true (Leaves.refl _).sound ?_
        simp [Cond.meets, ConfirmsBelowCap, Did.done]
      · rw [exec_sound_iff hx hadj]
        simp [Cond.meets, ConfirmsBelowCap, Did.done]
  · exact iff_of_true (Leaves.refl _).sound trivial
  · have hleaves : Leaves x.db.toTables t.toTables := fun m hm => Or.inl ((arrive_keeps ht).metas ▸ hm)
    exact iff_of_true hleaves.sound trivial
  · exact iff_of_true (Leaves.refl _).sound trivial

/-- No confidence is above 0.95, so no confirmation finds one. -/
theorem capped_confirms {cfg : ReflectionConfig} (hthreshold : cfg.confidenceThreshold ≤ 95 / 100) {x : Conf Op Ans Db Job}
    (h : Capped cfg x.db.toTables) (e : Event Op Ans Job Arrival) : capCond.meets x e := by
  cases e with
  | step j d => exact fun _ _ m hm _ => h hthreshold m hm
  | start j => trivial
  | finish j => trivial
  | env e => trivial
  | crash => trivial

/-- The event, if it can happen, is sound. -/
def SoundAt (cfg : Config) (x : Conf Op Ans Db Job) (e : Event Op Ans Job Arrival) : Prop :=
  ∀ y, (world cfg).step x e = some y → SoundStep x.db.toTables y.db.toTables

/-- Of every run: the confidences it ends with are from 0 to 1, and its events are sound if and
    only if no confirmation finds an entry above 0.95, as none does below that threshold. -/
theorem confidences_are_sound (cfg : Config) {es : List (Event Op Ans Job Arrival)} {y : Conf Op Ans Db Job}
    (he : exec (world cfg).system (world cfg).system.init es = some y) :
    (∀ m ∈ y.db.metas, 0 ≤ m.confidence ∧ m.confidence ≤ 1) ∧
      (Meets (world cfg).system (SoundAt cfg) (world cfg).system.init es ↔
        Meets (world cfg).system capCond.meets (world cfg).system.init es) ∧
      (cfg.reflection.confidenceThreshold ≤ 95 / 100 →
        Meets (world cfg).system (SoundAt cfg) (world cfg).system.init es) := by
  have hinit : (confidenceContract cfg).Holds (world cfg).system.init := ⟨(confidenceContract cfg).init, nofun⟩
  have hstep : ∀ x e y, (confidenceContract cfg).Holds x → (world cfg).system.step x e = some y →
      ((SoundAt cfg x e ↔ capCond.meets x e) ∧ Capped cfg.reflection x.db.toTables) ∧ (confidenceContract cfg).Holds y := by
    intro x e y hx hs
    obtain ⟨hy, hmoves⟩ := (confidenceContract cfg).holds_step hx (anyStep_meets x e) hs
    have hiff := step_sound_iff hs (moves_adjust cfg hmoves)
    refine ⟨⟨⟨fun h => hiff.mp (h y hs), fun h z hz => ?_⟩, hx.1⟩, hy⟩
    obtain rfl := Option.some.inj (hs.symm.trans hz)
    exact hiff.mpr h
  have hall := meets_of_inv hstep hinit he
  have hcap : Meets (world cfg).system capCond.meets (world cfg).system.init es →
      Meets (world cfg).system (SoundAt cfg) (world cfg).system.init es :=
    fun h => (hall.and h).imp fun x e h => h.1.1.mpr h.2
  refine ⟨fun m hm => y.db.valid.confidence m hm, ⟨fun h => (hall.and h).imp fun x e h => h.1.1.mp h.2, hcap⟩, ?_⟩
  intro hthreshold
  exact hcap (hall.imp fun x e h => capped_confirms hthreshold h.2 e)

/-! ## Concrete runs -/

/-- A model whose one insight is, the second time, a duplicate of the first. -/
def insisting : Provider where
  text
    | .d0Prompts .insight => "[\x7b\"content\": \"x\"\x7d]"
    | _ => "[]"
  similarity := 9 / 10

/-- A reflection, two more entries, and a second one up to its first write. -/
def untilConfirmed : Moves :=
  twoEntries ++ wholeJob .reflection 40 ++ .event (.env .tick) :: request 3 (stored "c") ++ request 4 (stored "d") ++
    .event (.env .tick) :: .event (.start .reflection) :: List.replicate 7 (.next .reflection)

def confirmed (cfg : Config) : List (Event Op Ans Job Arrival) :=
  (world cfg).events (fun o s => insisting.answer o s.toTables) ⟨.empty, fun _ => none⟩ (untilConfirmed ++ [.next .reflection])

theorem a_confirmation_raises : ∃ y,
    exec (world smallConfig).system (world smallConfig).system.init (confirmed smallConfig) = some y ∧
    (∃ m ∈ y.db.metas, m.confidence = 55 / 100) ∧
    Meets (world smallConfig).system (SoundAt smallConfig) (world smallConfig).system.init (confirmed smallConfig) := by
  have hrun : (exec (world smallConfig).system (world smallConfig).system.init (confirmed smallConfig)).any
      (fun y => decide (∃ m ∈ y.db.metas, m.confidence = 55 / 100)) = true := by decide +kernel
  obtain ⟨y, hy, hm⟩ := (Option.any_eq_true _ _).mp hrun
  have hthreshold : smallConfig.reflection.confidenceThreshold ≤ 95 / 100 := by decide +kernel
  exact ⟨y, hy, of_decide_eq_true hm, (confidences_are_sound smallConfig hy).2.2 hthreshold⟩

/-- With the greatest threshold the schema admits. -/
def strictConfig : Config := { smallConfig with reflection := { smallConfig.reflection with confidenceThreshold := 1 } }

/-- The insight has the confidence 1, and 0.95 once it is confirmed. -/
theorem a_confirmation_lowers : ∃ x y m n, Reach (world strictConfig).system Free x ∧
    (world strictConfig).system.step x (.step .reflection (.ran (.setConfidence 3 (confirmConfidence 1)) ())) = some y ∧
    m ∈ x.db.metas ∧ n ∈ y.db.metas ∧ n.id = m.id ∧ m.confidence = 1 ∧ n.confidence = confirmConfidence m.confidence ∧
    n.confidence < m.confidence := by
  obtain ⟨x, hx, hp⟩ := reach_any (M := (world strictConfig).system) (C := Free)
    (P := fun x => ((world strictConfig).system.step x (.step .reflection (.ran (.setConfidence 3 (confirmConfidence 1)) ()))).any
      fun (y : Conf Op Ans Db Job) => decide (∃ m ∈ x.db.metas, ∃ n ∈ y.db.metas, n.id = m.id ∧ m.confidence = 1 ∧
        n.confidence = confirmConfidence m.confidence ∧ n.confidence < m.confidence))
    ((world strictConfig).events (fun o s => insisting.answer o s.toTables) ⟨.empty, fun _ => none⟩ untilConfirmed)
    (meets_free _ _) (by decide +kernel)
  obtain ⟨y, hy, hwritten⟩ := (Option.any_eq_true _ _).mp hp
  obtain ⟨m, hm, n, hn, hid, hone, hconfirm, hlt⟩ := of_decide_eq_true hwritten
  exact ⟨x, y, m, n, hx, hy, hm, hn, hid, hone, hconfirm, hlt⟩

end FlowHelm.Memory
