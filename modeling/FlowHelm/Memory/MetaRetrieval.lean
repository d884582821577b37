/-
  FlowHelm.Memory.MetaRetrieval — `queryMetaCascade` of memory.ts: the meta entries that a prompt
  is given, by depth.

  The entries of depth 2 and more are one group, then come those of depth 1 and 0. A group takes
  what the index finds nearest, drops what is below its gate and keeps the best by composite score;
  no line of it sorts by depth. The index is approximate: an answer is any of the rows selected,
  each once, up to the limit. Every ranking reads the clock; the tables stay as they are meanwhile.

  - `Contract`: no entry twice, the profile's own, confident, above the gate of its depth, within
    the slots, and the deepest first.
  - `contract_of_groups`: all but the last clause holds always.
  - `cascade_contract`: that one just where no strategic entry that comes into the slots is
    outranked by a shallower one.
  - `a_shallower_entry_first`: two entries in the wrong order.
-/
import FlowHelm.Lib.Ranking
import FlowHelm.Mcp.Tools

namespace FlowHelm.Memory.MetaRetrieval

open Mcp (metasFor rankByCompositeScore)
open Profiles (Embedding MetaRow)
open Ranking

structure MetaInjectionConfig where
  d2MinSimilarity : ℚ
  d1MinSimilarity : ℚ
  d0MinSimilarity : ℚ
  d2Slots : Nat
  d1Slots : Nat
  d0Slots : Nat

structure MetaQueryResult where
  entry : MetaRow
  similarity : ℚ
  compositeScore : ℚ

structure Manager where
  /-- `1 - (embedding <=> vector)`. -/
  similarity : Embedding → Embedding → ℚ
  /-- Of a similarity, a `last_accessed`, an importance and the time. -/
  compositeScore : ℚ → Nat → ℚ → Nat → ℚ
  candidateMultiplier : Nat

/-- What the database and the clock answer a call. -/
structure Answers (t : Profiles.Db) (profileId : Nat) where
  rows : (minDepth maxDepth limit : Nat) → List MetaRow
  selected : ∀ minDepth maxDepth limit,
    (rows minDepth maxDepth limit).Subperm (metasFor t.toTables profileId none minDepth maxDepth)
  limited : ∀ minDepth maxDepth limit, (rows minDepth maxDepth limit).length ≤ limit
  /-- `Date.now()` behind the query from a depth on. -/
  now : (minDepth : Nat) → Nat

variable (m : Manager) (cfg : MetaInjectionConfig) (vector : Embedding) {t : Profiles.Db} {profileId : Nat}
  (a : Answers t profileId)

/-- `SELECT COALESCE(MAX(depth), 0)`. -/
def maxDepth (t : Profiles.Db) (profileId : Nat) : Nat :=
  ((t.metas.filter fun r => r.profileId == profileId && decide (1 / 5 ≤ r.confidence)).map (·.depth)).max?.getD 0

/-! ## The cascade -/

/-- The rows above the gate. -/
def candidates (minDepth maxDepth limit : Nat) (minSimilarity : ℚ) : List MetaRow :=
  (a.rows minDepth maxDepth (limit * m.candidateMultiplier)).filter fun r =>
    minSimilarity ≤ m.similarity r.embedding vector

def score (now : Nat) (r : MetaRow) : ℚ :=
  m.compositeScore (m.similarity r.embedding vector) r.lastAccessed r.confidence now

def fetchMetaAtDepthRange (minDepth maxDepth limit : Nat) (minSimilarity : ℚ) : List MetaQueryResult :=
  (rankByCompositeScore (score m vector (a.now minDepth)) limit
    (candidates m vector a minDepth maxDepth limit minSimilarity)).map fun r =>
      ⟨r, m.similarity r.embedding vector, score m vector (a.now minDepth) r⟩

def queryMetaCascade : List MetaQueryResult :=
  let maxDepth := maxDepth t profileId
  (if 2 ≤ maxDepth ∧ 0 < cfg.d2Slots then
    fetchMetaAtDepthRange m vector a 2 maxDepth cfg.d2Slots cfg.d2MinSimilarity else []) ++
  (if 0 < cfg.d1Slots then fetchMetaAtDepthRange m vector a 1 1 cfg.d1Slots cfg.d1MinSimilarity else []) ++
  (if 0 < cfg.d0Slots then fetchMetaAtDepthRange m vector a 0 0 cfg.d0Slots cfg.d0MinSimilarity else [])

/-! ## What it promises -/

/-- The similarity gate of a depth. -/
def gate : (depth : Nat) → ℚ
  | 0 => cfg.d0MinSimilarity
  | 1 => cfg.d1MinSimilarity
  | _ => cfg.d2MinSimilarity

structure Contract (t : Profiles.Db) (profileId : Nat) (results : List MetaQueryResult) : Prop where
  once : (results.map (·.entry.id)).Nodup
  stored : ∀ r ∈ results, r.entry ∈ t.metas ∧ r.entry.profileId = profileId ∧ 1 / 5 ≤ r.entry.confidence
  gated : ∀ r ∈ results, gate cfg r.entry.depth ≤ m.similarity r.entry.embedding vector
  d2 : results.countP (2 ≤ ·.entry.depth) ≤ cfg.d2Slots
  d1 : results.countP (·.entry.depth = 1) ≤ cfg.d1Slots
  d0 : results.countP (·.entry.depth = 0) ≤ cfg.d0Slots
  deepestFirst : results.Pairwise fun r q => q.entry.depth ≤ r.entry.depth

/-- The strategic candidates, `d2+`. -/
def strategic : List MetaRow := candidates m vector a 2 (maxDepth t profileId) cfg.d2Slots cfg.d2MinSimilarity

/-- By descending score. -/
def ranked (r q : MetaRow) : Bool := score m vector (a.now 2) q ≤ score m vector (a.now 2) r

/-- A strategic candidate that comes into the slots is outranked by none that is shallower. -/
def DeeperRanks : Prop := ∀ p ∈ (strategic m cfg vector a).zipIdx, ∀ q ∈ (strategic m cfg vector a).zipIdx,
  Outranks (ranked m vector a) p q → rank (ranked m vector a) (strategic m cfg vector a) q < cfg.d2Slots →
    q.1.depth ≤ p.1.depth

instance : Decidable (DeeperRanks m cfg vector a) := inferInstanceAs (Decidable (∀ p ∈ _, ∀ q ∈ _, _ → _ → _))

/-! ## A group -/

section
variable {minDepth maxDepth limit : Nat} {minSimilarity : ℚ}

theorem entries_subperm : ((fetchMetaAtDepthRange m vector a minDepth maxDepth limit minSimilarity).map (·.entry)).Subperm
    (metasFor t.toTables profileId none minDepth maxDepth) := by
  have hentries : (fetchMetaAtDepthRange m vector a minDepth maxDepth limit minSimilarity).map (·.entry) =
      rankByCompositeScore (score m vector (a.now minDepth)) limit
        (candidates m vector a minDepth maxDepth limit minSimilarity) := by
    simp [fetchMetaAtDepthRange, Function.comp_def]
  rw [hentries]
  have hranked := (List.take_sublist limit _).subperm.trans (List.mergeSort_perm
    (candidates m vector a minDepth maxDepth limit minSimilarity)
    (fun r q => score m vector (a.now minDepth) q ≤ score m vector (a.now minDepth) r)).subperm
  exact hranked.trans (List.filter_sublist.subperm.trans (a.selected ..))

/-- What an entry of a group meets. -/
theorem mem_fetch {r : MetaQueryResult}
    (h : r ∈ fetchMetaAtDepthRange m vector a minDepth maxDepth limit minSimilarity) :
    r.entry ∈ metasFor t.toTables profileId none minDepth maxDepth ∧
      minSimilarity ≤ m.similarity r.entry.embedding vector := by
  refine ⟨(entries_subperm m vector a).subset (List.mem_map_of_mem h), ?_⟩
  obtain ⟨q, hq, rfl⟩ := List.mem_map.mp h
  have hcandidate := List.mem_mergeSort.mp (List.mem_of_mem_take hq)
  exact of_decide_eq_true (List.mem_filter.mp hcandidate).2

theorem mem_metasFor {r : MetaRow} (h : r ∈ metasFor t.toTables profileId none minDepth maxDepth) :
    r ∈ t.metas ∧ r.profileId = profileId ∧ 1 / 5 ≤ r.confidence ∧ minDepth ≤ r.depth ∧ r.depth ≤ maxDepth := by
  obtain ⟨hmem, hwhere⟩ := List.mem_filter.mp h
  simp only [Bool.and_eq_true, beq_iff_eq, decide_eq_true_eq] at hwhere
  obtain ⟨⟨⟨⟨hprofile, -⟩, hconfidence⟩, hmin⟩, hmax⟩ := hwhere
  exact ⟨hmem, hprofile, hconfidence, Int.ofNat_le.mp hmin, Int.ofNat_le.mp hmax⟩

/-- What a query answers, ranked and cut, is as the query says. -/
structure Group (t : Profiles.Db) (profileId minDepth maxDepth limit : Nat) (minSimilarity : ℚ)
    (l : List MetaQueryResult) : Prop where
  once : (l.map (·.entry.id)).Nodup
  stored : ∀ r ∈ l, r.entry ∈ t.metas ∧ r.entry.profileId = profileId ∧ 1 / 5 ≤ r.entry.confidence
  depth : ∀ r ∈ l, minDepth ≤ r.entry.depth ∧ r.entry.depth ≤ maxDepth
  gated : ∀ r ∈ l, minSimilarity ≤ m.similarity r.entry.embedding vector
  limited : l.length ≤ limit

theorem fetch_group : Group m vector t profileId minDepth maxDepth limit minSimilarity
    (fetchMetaAtDepthRange m vector a minDepth maxDepth limit minSimilarity) where
  once := by
    have hrows : ((fetchMetaAtDepthRange m vector a minDepth maxDepth limit minSimilarity).map (·.entry)).Subperm t.metas :=
      (entries_subperm m vector a).trans List.filter_sublist.subperm
    obtain ⟨rows, hperm, hsub⟩ := hrows
    have hids := (hperm.map (·.id)).nodup_iff.mp (t.valid.metaKey.sublist (hsub.map (·.id)))
    rw [List.map_map] at hids
    exact hids
  stored r hr :=
    have hrow := mem_metasFor (mem_fetch m vector a hr).1
    ⟨hrow.1, hrow.2.1, hrow.2.2.1⟩
  depth r hr := (mem_metasFor (mem_fetch m vector a hr).1).2.2.2
  gated r hr := (mem_fetch m vector a hr).2
  limited := by
    rw [fetchMetaAtDepthRange, List.length_map]
    exact List.length_take_le ..

/-- No slots, no entries. -/
theorem fetch_zero : fetchMetaAtDepthRange m vector a minDepth maxDepth 0 minSimilarity = [] := by
  rw [fetchMetaAtDepthRange, rankByCompositeScore, List.take_zero, List.map_nil]

/-- No depths, no entries. -/
theorem fetch_empty (h : maxDepth < minDepth) :
    fetchMetaAtDepthRange m vector a minDepth maxDepth limit minSimilarity = [] := by
  refine List.eq_nil_iff_forall_not_mem.mpr fun r hr => ?_
  have hdepth := (fetch_group m vector a).depth r hr
  omega

end

/-! ## The groups together -/

/-- The tests before the queries skip only what would answer nothing. -/
theorem queryMetaCascade_groups : queryMetaCascade m cfg vector a =
    fetchMetaAtDepthRange m vector a 2 (maxDepth t profileId) cfg.d2Slots cfg.d2MinSimilarity ++
      (fetchMetaAtDepthRange m vector a 1 1 cfg.d1Slots cfg.d1MinSimilarity ++
        fetchMetaAtDepthRange m vector a 0 0 cfg.d0Slots cfg.d0MinSimilarity) := by
  have hslots : ∀ (lo hi slots : Nat) (minSimilarity : ℚ),
      (if 0 < slots then fetchMetaAtDepthRange m vector a lo hi slots minSimilarity else []) =
        fetchMetaAtDepthRange m vector a lo hi slots minSimilarity := by
    intro lo hi slots minSimilarity
    split
    · rfl
    · rename_i hzero
      rw [Nat.eq_zero_of_not_pos hzero, fetch_zero]
  simp only [queryMetaCascade, hslots, List.append_assoc]
  split
  · rfl
  · rename_i hskip
    congr 1
    by_cases hdeep : 2 ≤ maxDepth t profileId
    · rw [Nat.eq_zero_of_not_pos fun hpos => hskip ⟨hdeep, hpos⟩, fetch_zero]
    · rw [fetch_empty m vector a (by omega)]

variable {m cfg vector a}

/-- Groups of other depths have other entries. -/
theorem Group.disjoint {lo hi lo' hi' n n' : Nat} {s s' : ℚ} {l l' : List MetaQueryResult}
    (h : Group m vector t profileId lo hi n s l) (h' : Group m vector t profileId lo' hi' n' s' l') (hlt : hi' < lo) :
    ∀ i ∈ l.map (·.entry.id), ∀ j ∈ l'.map (·.entry.id), i ≠ j := by
  rintro i hi j hj rfl
  obtain ⟨r, hr, rfl⟩ := List.mem_map.mp hi
  obtain ⟨q, hq, hid⟩ := List.mem_map.mp hj
  have hsame : q.entry = r.entry := List.inj_on_of_nodup_map t.valid.metaKey (h'.stored q hq).1 (h.stored r hr).1 hid
  have hdeep := (h.depth r hr).1
  have hshallow := (h'.depth q hq).2
  rw [hsame] at hshallow
  omega

theorem gate_strategic (cfg : MetaInjectionConfig) {depth : Nat} (h : 2 ≤ depth) :
    gate cfg depth = cfg.d2MinSimilarity := by
  obtain ⟨n, rfl⟩ := Nat.exists_eq_add_of_le' h
  rfl

/-- Of a group whose depths a slot is not for, it counts none. -/
theorem Group.countP_eq_zero {lo hi n : Nat} {s : ℚ} {l : List MetaQueryResult}
    (h : Group m vector t profileId lo hi n s l) {p : Nat → Bool} (hp : ∀ depth, lo ≤ depth → depth ≤ hi → p depth = false) :
    l.countP (fun r => p r.entry.depth) = 0 := by
  refine List.countP_eq_zero.mpr fun r hr hd => ?_
  rw [hp _ (h.depth r hr).1 (h.depth r hr).2] at hd
  cases hd

/-- The gate of a query is that of its depths. -/
theorem Group.above {lo hi n : Nat} {s : ℚ} {l : List MetaQueryResult} (h : Group m vector t profileId lo hi n s l)
    (hgate : ∀ depth, lo ≤ depth → depth ≤ hi → gate cfg depth = s) :
    ∀ r ∈ l, gate cfg r.entry.depth ≤ m.similarity r.entry.embedding vector := by
  intro r hr
  rw [hgate _ (h.depth r hr).1 (h.depth r hr).2]
  exact h.gated r hr

/-- A deeper group goes before. -/
theorem Group.before {lo hi lo' hi' n n' : Nat} {s s' : ℚ} {l l' : List MetaQueryResult}
    (h : Group m vector t profileId lo hi n s l) (h' : Group m vector t profileId lo' hi' n' s' l') (hle : hi' ≤ lo) :
    ∀ r ∈ l, ∀ q ∈ l', q.entry.depth ≤ r.entry.depth := by
  intro r hr q hq
  exact Nat.le_trans (h'.depth q hq).2 (Nat.le_trans hle (h.depth r hr).1)

/-- A group of one depth is in order. -/
theorem Group.pairwise {lo hi n : Nat} {s : ℚ} {l : List MetaQueryResult} (h : Group m vector t profileId lo hi n s l)
    (heq : hi ≤ lo) : l.Pairwise fun r q => q.entry.depth ≤ r.entry.depth :=
  List.pairwise_of_forall_mem_list (h.before h heq)

/-- The strategic entries are in order just where no deeper one is outranked. -/
theorem strategic_pairwise :
    (fetchMetaAtDepthRange m vector a 2 (maxDepth t profileId) cfg.d2Slots cfg.d2MinSimilarity).Pairwise
      (fun r q => q.entry.depth ≤ r.entry.depth) ↔ DeeperRanks m cfg vector a := by
  have htrans : ∀ r q p : MetaRow, ranked m vector a r q → ranked m vector a q p → ranked m vector a r p := by
    intro r q p hrq hqp
    exact decide_eq_true (le_trans (of_decide_eq_true hqp) (of_decide_eq_true hrq))
  have htotal : ∀ r q : MetaRow, ranked m vector a r q || ranked m vector a q r := by
    intro r q
    simp only [ranked, Bool.or_eq_true, decide_eq_true_eq]
    exact le_total _ _
  rw [fetchMetaAtDepthRange, List.pairwise_map]
  exact pairwise_best htrans htotal (R := fun r q : MetaRow => q.depth ≤ r.depth) _ _

/-- The three groups together keep every clause but the last; that one is about the deepest. -/
theorem contract_of_groups {deepest : Nat} {l₂ l₁ l₀ : List MetaQueryResult}
    (h₂ : Group m vector t profileId 2 deepest cfg.d2Slots cfg.d2MinSimilarity l₂)
    (h₁ : Group m vector t profileId 1 1 cfg.d1Slots cfg.d1MinSimilarity l₁)
    (h₀ : Group m vector t profileId 0 0 cfg.d0Slots cfg.d0MinSimilarity l₀) :
    Contract m cfg vector t profileId (l₂ ++ (l₁ ++ l₀)) ↔ l₂.Pairwise fun r q => q.entry.depth ≤ r.entry.depth := by
  refine ⟨fun h => (List.pairwise_append.mp h.deepestFirst).1, fun horder => ?_⟩
  constructor
  case once =>
    rw [List.map_append, List.map_append]
    refine List.nodup_append.mpr ⟨h₂.once, List.nodup_append.mpr ⟨h₁.once, h₀.once, h₁.disjoint h₀ (by decide)⟩, ?_⟩
    intro i hi j hj
    rcases List.mem_append.mp hj with hj | hj
    · exact h₂.disjoint h₁ (by decide) i hi j hj
    · exact h₂.disjoint h₀ (by decide) i hi j hj
  case stored => exact List.forall_mem_append.mpr ⟨h₂.stored, List.forall_mem_append.mpr ⟨h₁.stored, h₀.stored⟩⟩
  case gated =>
    have habove₂ := h₂.above fun depth hle _ => gate_strategic cfg hle
    have habove₁ := h₁.above fun depth hle hge => congrArg (gate cfg) (Nat.le_antisymm hge hle)
    have habove₀ := h₀.above fun depth _ hge => congrArg (gate cfg) (Nat.le_zero.mp hge)
    exact List.forall_mem_append.mpr ⟨habove₂, List.forall_mem_append.mpr ⟨habove₁, habove₀⟩⟩
  case d2 =>
    have hrest₁ := h₁.countP_eq_zero (p := fun depth => decide (2 ≤ depth)) fun depth _ hle => decide_eq_false (by omega)
    have hrest₀ := h₀.countP_eq_zero (p := fun depth => decide (2 ≤ depth)) fun depth _ hle => decide_eq_false (by omega)
    rw [List.countP_append, List.countP_append, hrest₁, hrest₀]
    exact Nat.le_trans List.countP_le_length h₂.limited
  case d1 =>
    have hrest₂ := h₂.countP_eq_zero (p := fun depth => decide (depth = 1)) fun depth hle _ => decide_eq_false (by omega)
    have hrest₀ := h₀.countP_eq_zero (p := fun depth => decide (depth = 1)) fun depth _ hle => decide_eq_false (by omega)
    rw [List.countP_append, List.countP_append, hrest₂, hrest₀, Nat.zero_add]
    exact Nat.le_trans List.countP_le_length h₁.limited
  case d0 =>
    have hrest₂ := h₂.countP_eq_zero (p := fun depth => decide (depth = 0)) fun depth hle _ => decide_eq_false (by omega)
    have hrest₁ := h₁.countP_eq_zero (p := fun depth => decide (depth = 0)) fun depth hle _ => decide_eq_false (by omega)
    rw [List.countP_append, List.countP_append, hrest₂, hrest₁, Nat.zero_add, Nat.zero_add]
    exact Nat.le_trans List.countP_le_length h₀.limited
  case deepestFirst =>
    have hshallow : (l₁ ++ l₀).Pairwise fun r q => q.entry.depth ≤ r.entry.depth :=
      List.pairwise_append.mpr ⟨h₁.pairwise (by decide), h₀.pairwise (by decide), h₁.before h₀ (by decide)⟩
    refine List.pairwise_append.mpr ⟨horder, hshallow, fun r hr => List.forall_mem_append.mpr ⟨?_, ?_⟩⟩
    · exact h₂.before h₁ (by decide) r hr
    · exact h₂.before h₀ (by decide) r hr

/-- A cascade keeps its contract just where no strategic candidate that comes into the slots is
    outranked by a shallower one. -/
theorem cascade_contract (m : Manager) (cfg : MetaInjectionConfig) (vector : Embedding) {t : Profiles.Db} {profileId : Nat}
    (a : Answers t profileId) :
    Contract m cfg vector t profileId (queryMetaCascade m cfg vector a) ↔ DeeperRanks m cfg vector a := by
  rw [queryMetaCascade_groups, contract_of_groups (fetch_group m vector a) (fetch_group m vector a) (fetch_group m vector a)]
  exact strategic_pairwise

/-! ## Two strategic entries -/

/-- A database that finds the entries in the order of its table. -/
def inOrder (t : Profiles.Db) (profileId now : Nat) : Answers t profileId where
  rows minDepth maxDepth limit := (metasFor t.toTables profileId none minDepth maxDepth).take limit
  selected _ _ _ := (List.take_sublist ..).subperm
  limited _ _ _ := List.length_take_le ..
  now _ := now

/-- The entry of depth 2 is the nearer one. -/
def nearer : Profiles.Db where
  profiles := [⟨0, "default", none, true, 1, 1⟩]
  chats := []
  sessions := []
  messages := []
  identities := []
  personalities := []
  semantics := []
  metas := [⟨0, "Prefers short answers", [9 / 10], .insight, 4 / 5, 2, 0, 1, 1, 1⟩,
    ⟨1, "Plans the week on Sundays", [1 / 2], .insight, 4 / 5, 3, 0, 1, 1, 1⟩]
  externals := []
  messageSources := []
  parentSources := []
  metaSources := []
  metaParents := []
  valid := by decide +kernel

/-- The default weights, of entries that are read at once. -/
def manager : Manager where
  similarity embedding _ := embedding.headD 0
  compositeScore similarity _ importance _ := 1 / 2 * similarity + 3 / 10 + 1 / 5 * importance
  candidateMultiplier := 3

def DEFAULT_META_INJECTION : MetaInjectionConfig := ⟨3 / 10, 2 / 5, 1 / 2, 2, 2, 1⟩

/-- An entry of depth 2 comes before one of depth 3. -/
theorem a_shallower_entry_first :
    ¬Contract manager DEFAULT_META_INJECTION [1] nearer 0
      (queryMetaCascade manager DEFAULT_META_INJECTION [1] (inOrder nearer 0 1)) := by
  intro h
  have horder := h.deepestFirst
  rw [queryMetaCascade_groups] at horder
  exact absurd (strategic_pairwise.mp (List.pairwise_append.mp horder).1) (by decide +kernel)

end FlowHelm.Memory.MetaRetrieval
