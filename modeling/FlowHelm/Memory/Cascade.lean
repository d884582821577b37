/-
  FlowHelm.Memory.Cascade — repeating `runContradictionCascade` comes to a fixed point.

  One pass goes up the depths; at each it decays the entries of at least 0.2 of whose
  children more than half are below 0.2. In a layered DAG the children are one depth down,
  so a pass is a sweep: `level` is what one depth does to the confidences, in whatever
  order its entries come, and `sweepTo` what the depths do one after the other. A
  confidence of at most 1 is below 0.2 after 8 decays.

  - `must_cascadeDepth` / `must_cascade`: a pass of the program is a sweep.
  - `sweepTo_eq`: a sweep judges each entry by what it has made of its children.
  - `decay_stops`: the 8 decays.
  - `cascade_converges`: the fixed point, after 8 passes for each depth.
  - `cascade_order_independent`: one pass ends with one state, in whatever order entries come.
-/
import FlowHelm.Lib.Sweeps
import Mathlib.Tactic.Linarith
import Mathlib.Algebra.Order.Field.Basic
import FlowHelm.Memory.Completion
import FlowHelm.Memory.MetaDag
import FlowHelm.Memory.World

namespace FlowHelm.Memory

open Js Script Prog Runs Sweeps

/-! ## Confidences -/

def Meta.withConfidence (m : Meta) (confidence : ℚ) : Meta := { m with confidence }

namespace Tables

variable (t : Tables)

/-- The tables with the confidences `σ` gives the entries. -/
def withConfidences (σ : Meta → ℚ) : Tables := { t with metas := t.metas.map fun m => m.withConfidence (σ m) }

/-- More than half of the children of `m` are below 0.2. -/
def Invalidated (σ : Meta → ℚ) (m : Meta) : Prop :=
  (t.children m.id).length < 2 * (t.children m.id).countP fun c => σ c < 1 / 5

instance (σ : Meta → ℚ) (m : Meta) : Decidable (t.Invalidated σ m) := inferInstanceAs (Decidable (_ < _))

variable {t}

theorem withConfidences_congr {σ τ : Meta → ℚ} (h : ∀ m ∈ t.metas, σ m = τ m) :
    t.withConfidences σ = t.withConfidences τ := by
  have hmap : t.metas.map (fun m => m.withConfidence (σ m)) = t.metas.map fun m => m.withConfidence (τ m) :=
    List.map_congr_left fun m hm => by rw [h m hm]
  rw [withConfidences, hmap]
  rfl

theorem children_withConfidences (σ : Meta → ℚ) (metaId : Nat) :
    (t.withConfidences σ).children metaId = (t.children metaId).map fun m => m.withConfidence (σ m) := by
  simp only [children, withConfidences, List.filter_map]
  rfl

/-- What `cascadeParent` counts. -/
theorem childCounts_withConfidences (σ : Meta → ℚ) (metaId : Nat) :
    ((t.withConfidences σ).children metaId).length = (t.children metaId).length ∧
      ((t.withConfidences σ).children metaId).countP (·.low) = (t.children metaId).countP fun c => σ c < 1 / 5 := by
  rw [children_withConfidences]
  exact ⟨List.length_map _, List.countP_map⟩

end Tables

/-- The test of `cascadeParent`. -/
theorem Tables.invalidated_iff (t : Tables) (σ : Meta → ℚ) (m : Meta) :
    (0 < (t.children m.id).length ∧ (1 / 2 : ℚ) < ((t.children m.id).countP fun c => σ c < 1 / 5 : ℕ) /
      ((t.children m.id).length : ℕ)) ↔ t.Invalidated σ m := by
  have hle := List.countP_le_length (p := fun c => decide (σ c < 1 / 5)) (l := t.children m.id)
  unfold Tables.Invalidated
  generalize ((t.children m.id).countP fun c => σ c < 1 / 5) = low at hle ⊢
  generalize (t.children m.id).length = total at hle ⊢
  by_cases hpos : 0 < total
  · have hq : (0 : ℚ) < total := Nat.cast_pos.mpr hpos
    rw [and_iff_right hpos, lt_div_iff₀ hq]
    constructor
    · intro h
      have : (total : ℚ) < 2 * low := by linarith
      exact_mod_cast this
    · intro h
      have : (total : ℚ) < 2 * low := by exact_mod_cast h
      linarith
  · constructor
    · intro h
      exact (hpos h.1).elim
    · intro h
      omega

/-- One step of an entry that is still above 0.2. -/
def decay (x : ℚ) : ℚ := if 1 / 5 ≤ x then contradictConfidence x else x

theorem decay_le {x : ℚ} (hx : x ≤ 1) : decay x ≤ 1 := by
  simp only [decay, contradictConfidence]
  split
  · exact max_le (by norm_num) (by linarith)
  · exact hx

theorem decay_le_self (x : ℚ) : decay x ≤ x := by
  unfold decay
  split
  · exact max_le (by linarith) (by linarith)
  · exact le_refl x

theorem decay_low {x : ℚ} (hx : x < 1 / 5) : decay x = x := if_neg (not_le.mpr hx)

theorem decay_fixed {x : ℚ} (h : decay x = x) : x < 1 / 5 := by
  by_contra hx
  rw [not_lt] at hx
  rw [decay, if_pos hx, contradictConfidence, max_eq_right (by linarith)] at h
  linarith

theorem decay_bound {x : ℚ} (hx : x ≤ 1) (n : Nat) : decay^[n] x < 1 / 5 ∨ decay^[n] x ≤ (8 / 10) ^ n := by
  induction n with
  | zero => exact Or.inr (by simpa using hx)
  | succ n ih =>
    rw [Function.iterate_succ_apply']
    by_cases hlow : decay^[n] x < 1 / 5
    · exact Or.inl (by rw [decay_low hlow]; exact hlow)
    · have hle := ih.resolve_left hlow
      rw [not_lt] at hlow
      rw [decay, if_pos hlow, contradictConfidence, max_eq_right (by linarith), pow_succ]
      exact Or.inr (mul_le_mul_of_nonneg_right hle (by norm_num))

theorem decay_stops {x : ℚ} (hx : x ≤ 1) : decay (decay^[8] x) = decay^[8] x := by
  refine decay_low ?_
  rcases decay_bound hx 8 with h | h
  · exact h
  · exact lt_of_le_of_lt h (by norm_num)

/-! ## Sweeps -/

/-- What one depth does to the confidences. -/
def level (t : Tables) (profileId depth : Nat) (σ : Meta → ℚ) (m : Meta) : ℚ :=
  if m ∈ t.metas ∧ m.profileId = profileId ∧ m.depth = depth ∧ t.Invalidated σ m then decay (σ m) else σ m

def sweepTo (t : Tables) (profileId k : Nat) (σ : Meta → ℚ) : Meta → ℚ :=
  (List.range' 1 k).foldl (fun τ depth => level t profileId depth τ) σ

/-- Decayed by a pass over the depths up to `k`, by the confidences it leaves. -/
def Due (t : Tables) (profileId k : Nat) (σ : Meta → ℚ) (m : Meta) : Prop :=
  m ∈ t.metas ∧ m.profileId = profileId ∧ 1 ≤ m.depth ∧ m.depth ≤ k ∧ t.Invalidated σ m

instance (t : Tables) (profileId k : Nat) (σ : Meta → ℚ) (m : Meta) : Decidable (Due t profileId k σ m) :=
  inferInstanceAs (Decidable (_ ∧ _))

theorem level_other {t : Tables} {profileId depth : Nat} {σ : Meta → ℚ} {m : Meta} (h : m.depth ≠ depth) :
    level t profileId depth σ m = σ m := if_neg fun hm => h hm.2.2.1

section LayeredEdges

variable {s : Db} (hl : LayeredEdges s.toTables)
include hl

theorem children_depth {m c : Meta} (hm : m ∈ s.metas) (hc : c ∈ s.children m.id) : m.depth = c.depth + 1 := by
  obtain ⟨hcm, hedge⟩ := List.mem_filter.mp hc
  exact (hl _ (List.contains_iff_mem.mp hedge) m hm c hcm rfl rfl).1

/-- Whether an entry is invalidated is decided one depth down. -/
theorem invalidated_congr {σ τ : Meta → ℚ} {m : Meta} (hm : m ∈ s.metas) (h : ∀ c, c.depth < m.depth → σ c = τ c) :
    s.Invalidated σ m ↔ s.Invalidated τ m := by
  have hcount : (s.children m.id).countP (fun c => σ c < 1 / 5) = (s.children m.id).countP fun c => τ c < 1 / 5 := by
    refine List.countP_congr fun c hc => ?_
    rw [h c (by have := children_depth hl hm hc; omega)]
  rw [Tables.Invalidated, hcount]
  rfl

theorem sweepTo_eq (profileId k : Nat) (σ : Meta → ℚ) (m : Meta) :
    sweepTo s.toTables profileId k σ m =
      if Due s.toTables profileId k (sweepTo s.toTables profileId k σ) m then decay (σ m) else σ m := by
  induction k with
  | zero => exact (if_neg fun h => by have := h.2.2.1; have := h.2.2.2.1; omega).symm
  | succ k ih =>
    have hstep : sweepTo s.toTables profileId (k + 1) σ =
        level s.toTables profileId (k + 1) (sweepTo s.toTables profileId k σ) := by
      rw [sweepTo, List.range'_1_concat, List.foldl_append, Nat.add_comm 1 k]
      rfl
    rw [hstep]
    generalize sweepTo s.toTables profileId k σ = τ at ih
    -- the depths up to `k` are as this depth found them
    have hsame : m ∈ s.metas → m.depth ≤ k + 1 →
        (s.Invalidated (level s.toTables profileId (k + 1) τ) m ↔ s.Invalidated τ m) :=
      fun hm hd => invalidated_congr hl hm fun c hc => level_other (by omega)
    by_cases hd : m.depth = k + 1
    · have hτ : τ m = σ m := ih.trans (if_neg fun h => by have := h.2.2.2.1; omega)
      simp only [level, Due, hd, hτ]
      refine if_congr ?_ rfl rfl
      constructor
      · rintro ⟨hm, hp, _, hi⟩
        exact ⟨hm, hp, by omega, le_refl _, (hsame hm (by omega)).mpr hi⟩
      · rintro ⟨hm, hp, _, _, hi⟩
        exact ⟨hm, hp, trivial, (hsame hm (by omega)).mp hi⟩
    · rw [level_other hd, ih]
      refine if_congr ?_ rfl rfl
      constructor
      · rintro ⟨hm, hp, h1, hk, hi⟩
        exact ⟨hm, hp, h1, by omega, (hsame hm (by omega)).mpr hi⟩
      · rintro ⟨hm, hp, h1, hk, hi⟩
        exact ⟨hm, hp, h1, by omega, (hsame hm (by omega)).mp hi⟩

end LayeredEdges

/-- A pass over a layered DAG. -/
def cascadeSweep (s : Db) (hl : LayeredEdges s.toTables) (profileId maxDepth : Nat) : Sweep Meta ℚ where
  rank m := m.depth
  height := maxDepth
  due := Due s.toTables profileId maxDepth
  next := decay
  run := sweepTo s.toTables profileId maxDepth
  due_lower h hdue := ⟨hdue.1, hdue.2.1, hdue.2.2.1, hdue.2.2.2.1, (invalidated_congr hl hdue.1 h).mp hdue.2.2.2.2⟩
  due_within h := ⟨h.2.2.1, h.2.2.2.1⟩
  run_due h := (sweepTo_eq hl ..).trans (if_pos h)
  run_idle h := (sweepTo_eq hl ..).trans (if_neg h)

/-! ## The program -/

theorem valid_setConfidence (t : Db) (metaId : Nat) {confidence : ℚ} (h : 0 ≤ confidence ∧ confidence ≤ 1) :
    (effect (.setConfidence metaId confidence) t.toTables ()).Valid := by
  have hids : (effect (.setConfidence metaId confidence) t.toTables ()).metaIds = t.metaIds := by
    simp only [effect, Tables.metaIds, List.map_map]
    refine List.map_congr_left fun m _ => ?_
    simp only [Function.comp_apply]
    split <;> rfl
  exact { t.valid with
    metaKey := hids ▸ t.valid.metaKey
    metaDrawn := fun i hi => t.valid.metaDrawn i (hids ▸ hi)
    metaProfile := by
      intro m hm
      obtain ⟨m₀, hm₀, rfl⟩ := List.mem_map.mp hm
      split <;> exact t.valid.metaProfile m₀ hm₀
    confidence := by
      intro m hm
      obtain ⟨m₀, hm₀, rfl⟩ := List.mem_map.mp hm
      split
      · exact h
      · exact t.valid.confidence m₀ hm₀
    metaSourceMeta := fun e he => hids ▸ t.valid.metaSourceMeta e he
    metaParentParent := fun e he => hids ▸ t.valid.metaParentParent e he
    metaParentChild := fun e he => hids ▸ t.valid.metaParentChild e he }

theorem contradictConfidence_mem {x : ℚ} (h : 0 ≤ x ∧ x ≤ 1) : 0 ≤ contradictConfidence x ∧ contradictConfidence x ≤ 1 :=
  ⟨le_max_of_le_left (by norm_num), max_le (by norm_num) (by linarith)⟩

/-- The confidences once the parents in `ids` alone are still to be looked at. -/
def partLevel (t : Tables) (profileId depth : Nat) (σ : Meta → ℚ) (ids : List Nat) (m : Meta) : ℚ :=
  if m.id ∈ ids then σ m else level t profileId depth σ m

/-- An entry that is not selected is one its depth leaves as it is. -/
theorem level_unselected {t : Tables} {profileId depth : Nat} {σ : Meta → ℚ} {m : Meta} (hm : m ∈ t.metas)
    (h : m.withConfidence (σ m) ∉ (t.withConfidences σ).parents profileId depth) : level t profileId depth σ m = σ m := by
  unfold level
  split
  · rename_i hc
    obtain ⟨_, hp, hd, hinv⟩ := hc
    refine decay_low (not_le.mp fun hconf => h ?_)
    refine List.mem_filter.mpr ⟨List.mem_map_of_mem (f := fun m => m.withConfidence (σ m)) hm, ?_⟩
    simp only [Bool.and_eq_true, beq_iff_eq, decide_eq_true_eq]
    refine ⟨⟨⟨hp, hd⟩, hconf⟩, ?_⟩
    have hle := List.countP_le_length (p := fun c => decide (σ c < 1 / 5)) (l := t.children m.id)
    unfold Tables.Invalidated at hinv
    obtain ⟨c, hc⟩ := List.exists_mem_of_length_pos (l := t.children m.id) (by omega)
    exact List.any_eq_true.mpr ⟨_, List.contains_iff_mem.mp (List.mem_filter.mp hc).2, beq_self_eq_true _⟩
  · rfl

theorem setConfidence_withConfidences (t : Tables) (τ : Meta → ℚ) (metaId : Nat) (confidence : ℚ) :
    effect (.setConfidence metaId confidence) (t.withConfidences τ) () =
      t.withConfidences fun m => if m.id = metaId then confidence else τ m := by
  have hmap : (t.metas.map fun m => m.withConfidence (τ m)).map (fun m => if m.id = metaId then { m with confidence } else m) =
      t.metas.map fun m => m.withConfidence (if m.id = metaId then confidence else τ m) := by
    rw [List.map_map]
    refine List.map_congr_left fun m _ => ?_
    simp only [Function.comp_apply, Meta.withConfidence]
    split <;> rfl
  simp only [effect, Tables.withConfidences, hmap]

section LayeredEdges

variable {s : Db} (hl : LayeredEdges s.toTables) {E : Exn Op → Db → Prop}
include hl

/-- The children of an entry are as they were before its depth. -/
theorem childCounts_partLevel (profileId : Nat) {depth : Nat} (σ : Meta → ℚ) (ids : List Nat) {m : Meta} (hm : m ∈ s.metas)
    (hd : m.depth = depth) :
    ((s.withConfidences (partLevel s.toTables profileId depth σ ids)).children m.id).length = (s.children m.id).length ∧
      ((s.withConfidences (partLevel s.toTables profileId depth σ ids)).children m.id).countP (·.low) =
        (s.children m.id).countP fun c => σ c < 1 / 5 := by
  have hcount := Tables.childCounts_withConfidences (t := s.toTables) (partLevel s.toTables profileId depth σ ids) m.id
  refine ⟨hcount.1, hcount.2.trans (List.countP_congr fun c hc => ?_)⟩
  have hcd := children_depth hl hm hc
  rw [partLevel, level_other (by omega), ite_self]

theorem must_cascadeParent {profileId depth : Nat} {σ : Meta → ℚ} {m : Meta} {rest : List Nat} (hm : m ∈ s.metas)
    (hp : m.profileId = profileId) (hd : m.depth = depth) (hconf : 1 / 5 ≤ σ m) (hnodup : m.id ∉ rest) {t : Db}
    (ht : t.toTables = s.withConfidences (partLevel s.toTables profileId depth σ (m.id :: rest))) :
    Must service (cascadeParent (m.withConfidence (σ m))) (fun _ u =>
      u.toTables = s.withConfidences (partLevel s.toTables profileId depth σ rest)) E t := by
  have hcount := childCounts_partLevel hl profileId σ (m.id :: rest) hm hd
  rw [← ht] at hcount
  refine must_read (fun _ _ => rfl) ?_
  rintro _ rfl
  show Must service (if 0 < (t.children m.id).length ∧ (1 / 2 : ℚ) < ((t.children m.id).countP (·.low) : ℕ) /
    ((t.children m.id).length : ℕ) then _ else _) _ E t
  rw [hcount.1, hcount.2]
  have hlevel : level s.toTables profileId depth σ m = if s.Invalidated σ m then contradictConfidence (σ m) else σ m := by
    simp only [level, hm, hp, hd, true_and, decay, if_pos hconf]
  have hrest : ∀ n ∈ s.metas, n.id ≠ m.id → partLevel s.toTables profileId depth σ (m.id :: rest) n =
      partLevel s.toTables profileId depth σ rest n := by
    intro n _ hne
    simp only [partLevel, List.mem_cons, hne, false_or]
  have hpart : partLevel s.toTables profileId depth σ rest m = level s.toTables profileId depth σ m := if_neg hnodup
  rw [if_congr (s.invalidated_iff σ m) rfl rfl]
  split
  · rename_i hinv
    rw [if_pos hinv] at hlevel
    have hrow : m.withConfidence (σ m) ∈ t.metas := by
      rw [ht]
      refine List.mem_map.mpr ⟨m, hm, ?_⟩
      rw [partLevel, if_pos (.head _)]
    refine must_write (fun _ _ => valid_setConfidence t m.id (contradictConfidence_mem (t.valid.confidence _ hrow))) ?_
    intro _ u _ hu
    show u.toTables = _
    rw [hu, ht, setConfidence_withConfidences]
    refine Tables.withConfidences_congr fun n hn => ?_
    split
    · rename_i hid
      rw [s.meta_unique hn hm hid, hpart, hlevel]
      rfl
    · rename_i hid
      exact hrest n hn hid
  · rename_i hinv
    rw [if_neg hinv] at hlevel
    refine ht.trans (Tables.withConfidences_congr fun n hn => ?_)
    by_cases hid : n.id = m.id
    · rw [s.meta_unique hn hm hid, hpart, hlevel, partLevel, if_pos (.head _)]
    · exact hrest n hn hid

theorem must_cascadeDepth {profileId depth : Nat} {σ : Meta → ℚ} {t : Db} (ht : t.toTables = s.withConfidences σ) :
    Must service (cascadeDepth profileId depth) (fun _ u =>
      u.toTables = s.withConfidences (level s.toTables profileId depth σ)) E t := by
  refine must_read (fun _ _ => rfl) fun parents ha => ?_
  have hperm := ha.1
  have hparent : ∀ p ∈ parents, ∃ m ∈ s.metas, p = m.withConfidence (σ m) ∧ m.profileId = profileId ∧ m.depth = depth ∧
      1 / 5 ≤ σ m := by
    intro p hp
    obtain ⟨hp, htest⟩ := List.mem_filter.mp (hperm.mem_iff.mp hp)
    rw [ht] at hp
    obtain ⟨m, hm, rfl⟩ := List.mem_map.mp hp
    simp only [Bool.and_eq_true, beq_iff_eq, decide_eq_true_eq] at htest
    exact ⟨m, hm, rfl, htest.1.1.1, htest.1.1.2, htest.1.2⟩
  have hnodup : (parents.map (·.id)).Nodup :=
    (hperm.map _).nodup_iff.mpr (t.valid.metaKey.sublist (List.filter_sublist.map _))
  have hstart : t.toTables = s.withConfidences (partLevel s.toTables profileId depth σ (parents.map (·.id))) := by
    refine ht.trans (Tables.withConfidences_congr fun m hm => ?_)
    rw [partLevel]
    split
    · rfl
    · rename_i hnot
      refine (level_unselected hm fun hsel => hnot ?_).symm
      rw [← ht] at hsel
      exact List.mem_map.mpr ⟨_, hperm.mem_iff.mpr hsel, rfl⟩
  refine wp_mono ?_ (fun _ _ h => h) (wp_forSum (fun rest (u : Db) => (rest.map (·.id)).Nodup ∧ (∀ p ∈ rest, p ∈ parents) ∧
    u.toTables = s.withConfidences (partLevel s.toTables profileId depth σ (rest.map (·.id)))) ?_
    ⟨hnodup, fun _ h => h, hstart⟩)
  · rintro _ u ⟨_, _, hu⟩
    refine hu.trans (Tables.withConfidences_congr fun m _ => ?_)
    exact if_neg List.not_mem_nil
  · rintro p rest u ⟨hnd, hsub, hu⟩
    obtain ⟨m, hm, rfl, hp, hd, hconf⟩ := hparent p (hsub p (.head _))
    obtain ⟨hnew, hrest⟩ := List.nodup_cons.mp hnd
    refine wp_mono ?_ (fun _ _ h => h) (must_cascadeParent hl hm hp hd hconf hnew hu)
    exact fun _ v hv => ⟨hrest, fun q hq => hsub q (.tail _ hq), hv⟩

/-- A pass of the program is a sweep. -/
theorem must_cascade (cfg : ReflectionConfig) (profileId : Nat) {σ : Meta → ℚ} {t : Db}
    (ht : t.toTables = s.withConfidences σ) :
    Must service (runContradictionCascade cfg profileId) (fun _ u =>
      u.toTables = s.withConfidences (sweepTo s.toTables profileId cfg.maxMetaDepth σ)) E t := by
  refine wp_mono ?_ (fun _ _ h => h) (wp_forSum (fun ds (u : Db) => ∃ τ, u.toTables = s.withConfidences τ ∧
    ds.foldl (fun τ depth => level s.toTables profileId depth τ) τ = sweepTo s.toTables profileId cfg.maxMetaDepth σ) ?_
    ⟨σ, ht, rfl⟩)
  · rintro _ u ⟨τ, hu, rfl⟩
    exact hu
  · rintro depth ds u ⟨τ, hu, hτ⟩
    refine wp_mono ?_ (fun _ _ h => h) (must_cascadeDepth hl hu)
    exact fun _ v hv => ⟨_, hv, hτ⟩

end LayeredEdges

/-! ## Repeated passes -/

/-- `n` passes from `s`, each left alone with the database, end at `t`. -/
def Cascades (cfg : ReflectionConfig) (profileId : Nat) : Nat → Db → Db → Prop
  | 0, s, t => t = s
  | n + 1, s, t => ∃ u, Cascades cfg profileId n s u ∧ ∃ tr k, (∀ d ∈ tr, d.isRan) ∧
    play service (runContradictionCascade cfg profileId) u tr = some (.ret k, t)

section LayeredEdges

variable {s : Db} (hl : LayeredEdges s.toTables) (cfg : ReflectionConfig) (profileId : Nat)
include hl

theorem cascades_sweep {σ : Meta → ℚ} {t u : Db} (ht : t.toTables = s.withConfidences σ) {n : Nat}
    (h : Cascades cfg profileId n t u) :
    u.toTables = s.withConfidences ((cascadeSweep s hl profileId cfg.maxMetaDepth).run^[n] σ) := by
  induction n generalizing u with
  | zero =>
    cases h
    exact ht
  | succ n ih =>
    obtain ⟨v, hv, tr, k, hran, hp⟩ := h
    rw [Function.iterate_succ_apply']
    exact must_play (E := fun _ _ => True) (must_cascade hl cfg profileId (ih hv)) hran hp

theorem cascades_exist {σ : Meta → ℚ} {t : Db} (ht : t.toTables = s.withConfidences σ) (n : Nat) :
    ∃ u, Cascades cfg profileId n t u := by
  induction n with
  | zero => exact ⟨t, rfl⟩
  | succ n ih =>
    obtain ⟨v, hv⟩ := ih
    have hmust := must_cascade hl cfg profileId (E := fun _ _ => False) (cascades_sweep hl cfg profileId ht hv)
    obtain ⟨tr, q, u, hran, hq, hp⟩ := (must_returns hmust).1
    obtain ⟨k, rfl, _⟩ := (must_returns hmust).2 tr q u hran hq hp
    exact ⟨u, v, hv, tr, k, hran, hp⟩

end LayeredEdges

/-- The confidences as they are stored. -/
def Tables.stored (t : Tables) (m : Meta) : ℚ := if m ∈ t.metas then m.confidence else 0

theorem Tables.withConfidences_stored (t : Tables) : t.withConfidences t.stored = t := by
  have hmap : t.metas.map (fun m => m.withConfidence (t.stored m)) = t.metas := by
    refine (List.map_congr_left fun m hm => ?_).trans (List.map_id _)
    rw [Tables.stored, if_pos hm]
    rfl
  rw [Tables.withConfidences, hmap]

theorem stored_le (s : Db) (m : Meta) : s.stored m ≤ 1 := by
  unfold Tables.stored
  split
  · rename_i hm
    exact (s.valid.confidence m hm).2
  · norm_num

/-- However large the DAG, after 8 passes for each depth another changes nothing, and no
    entry of at least 0.2 then has more than half of its children below 0.2. -/
theorem cascade_converges (cfg : ReflectionConfig) (profileId : Nat) {s : Db} (hl : LayeredEdges s.toTables) :
    (∀ n, ∃ t, Cascades cfg profileId n s t) ∧
      ∀ n t, 8 * cfg.maxMetaDepth ≤ n → Cascades cfg profileId n s t →
        (∀ k u, Cascades cfg profileId k t u → u = t) ∧
          ∀ m ∈ t.metas, m.profileId = profileId → 1 ≤ m.depth → m.depth ≤ cfg.maxMetaDepth → 1 / 5 ≤ m.confidence →
            2 * (t.children m.id).countP (·.low) ≤ (t.children m.id).length := by
  have hs : s.toTables = s.withConfidences s.stored := s.withConfidences_stored.symm
  refine ⟨cascades_exist hl cfg profileId hs, fun n t hn h => ?_⟩
  have ht := cascades_sweep hl cfg profileId hs h
  have hfix := (cascadeSweep s hl profileId cfg.maxMetaDepth).fixed (P := (· ≤ 1)) (fun _ => decay_le)
    (fun _ => decay_stops) (stored_le s) hn
  generalize (cascadeSweep s hl profileId cfg.maxMetaDepth).run^[n] s.stored = σ at ht hfix
  refine ⟨fun k u hu => Db.ext_tables ?_, fun m hm hp h1 hd hconf => ?_⟩
  · rw [cascades_sweep hl cfg profileId ht hu, Function.iterate_fixed hfix]
    exact ht.symm
  · by_contra hmore
    rw [ht] at hm
    obtain ⟨m₀, hm₀, rfl⟩ := List.mem_map.mp hm
    have hcount := Tables.childCounts_withConfidences (t := s.toTables) σ m₀.id
    rw [← ht] at hcount
    have hdue : Due s.toTables profileId cfg.maxMetaDepth σ m₀ := by
      refine ⟨hm₀, hp, h1, hd, ?_⟩
      unfold Tables.Invalidated
      rw [← hcount.1, ← hcount.2]
      exact not_le.mp hmore
    have hlow := decay_fixed ((cascadeSweep s hl profileId cfg.maxMetaDepth).stuck hfix hdue)
    exact absurd hconf (not_le.mpr hlow)

/-- An entry both of whose children are low. -/
def twoLowChildren : Db where
  toTables :=
    { Db.empty.toTables with
      profiles := [⟨0, "home", none, true, 0, 0⟩]
      metas := [⟨⟨[], .insight, 9 / 10, 1, 0, 0⟩, 1⟩, ⟨⟨[], .insight, 1 / 10, 0, 0, 0⟩, 2⟩, ⟨⟨[], .insight, 1 / 10, 0, 0, 0⟩, 3⟩]
      metaParents := [(1, 2), (1, 3)]
      nextId := 4 }
  valid := by decide +kernel

theorem an_invalidated_entry_settles : (∃ m ∈ twoLowChildren.metas, 1 / 5 ≤ m.confidence ∧ 1 ≤ m.depth ∧ m.depth ≤ 3 ∧
      (twoLowChildren.children m.id).length < 2 * (twoLowChildren.children m.id).countP (·.low)) ∧
    ∃ t, Cascades smallConfig.reflection 0 24 twoLowChildren t ∧ (∀ k u, Cascades smallConfig.reflection 0 k t u → u = t) ∧
      ∀ m ∈ t.metas, m.profileId = 0 → 1 ≤ m.depth → m.depth ≤ 3 → 1 / 5 ≤ m.confidence →
        2 * (t.children m.id).countP (·.low) ≤ (t.children m.id).length := by
  refine ⟨by decide +kernel, ?_⟩
  obtain ⟨hexist, hend⟩ := cascade_converges smallConfig.reflection 0 (s := twoLowChildren) (by decide)
  obtain ⟨t, ht⟩ := hexist 24
  exact ⟨t, ht, hend 24 t (by decide) ht⟩

/-! ## One pass -/

/-- The order in which each depth's parents come makes no difference to a pass: it ends with
    one state, where no confidence has risen and those of depth 0, and the suppressed ones,
    are as they were. -/
theorem cascade_order_independent (cfg : ReflectionConfig) (profileId : Nat) {s : Db} (hl : LayeredEdges s.toTables) :
    ∃ t, Cascades cfg profileId 1 s t ∧ (∀ u, Cascades cfg profileId 1 s u → u = t) ∧
      ∃ σ : Meta → ℚ, t.toTables = s.withConfidences σ ∧
        ∀ m ∈ s.metas, σ m ≤ m.confidence ∧ (m.depth = 0 ∨ m.confidence < 1 / 5 → σ m = m.confidence) := by
  have hs : s.toTables = s.withConfidences s.stored := s.withConfidences_stored.symm
  obtain ⟨t, ht⟩ := cascades_exist hl cfg profileId hs 1
  have hsweep := fun {u : Db} (hu : Cascades cfg profileId 1 s u) => cascades_sweep hl cfg profileId hs hu
  refine ⟨t, ht, fun u hu => Db.ext_tables ((hsweep hu).trans (hsweep ht).symm), _, hsweep ht, fun m hm => ?_⟩
  have hstored : s.stored m = m.confidence := if_pos hm
  rw [← hstored]
  show sweepTo s.toTables profileId cfg.maxMetaDepth s.stored m ≤ _ ∧
    (_ → sweepTo s.toTables profileId cfg.maxMetaDepth s.stored m = _)
  rw [sweepTo_eq hl]
  split
  · rename_i hdue
    refine ⟨decay_le_self _, ?_⟩
    rintro (h0 | hlow)
    · have h1 := hdue.2.2.1
      omega
    · exact decay_low hlow
  · exact ⟨le_refl _, fun _ => rfl⟩

theorem a_pass_over_two_low_children : ∃ t, Cascades smallConfig.reflection 0 1 twoLowChildren t ∧
    (∀ u, Cascades smallConfig.reflection 0 1 twoLowChildren u → u = t) ∧
      ∃ σ : Meta → ℚ, t.toTables = twoLowChildren.withConfidences σ ∧
        ∀ m ∈ twoLowChildren.metas, σ m ≤ m.confidence ∧ (m.depth = 0 ∨ m.confidence < 1 / 5 → σ m = m.confidence) :=
  cascade_order_independent smallConfig.reflection 0 (by decide)

end FlowHelm.Memory
