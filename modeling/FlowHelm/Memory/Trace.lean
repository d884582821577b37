/-
  FlowHelm.Memory.Trace — `expandMetaMemory` and `traceMetaToSources` of memory.ts.

  An entry of depth 0 is expanded to its T2 sources, any other to its children, and a
  trace expands children until it comes to sources. The recursion is bounded by `fuel`
  here; the DAG being layered, an entry of depth d needs no more than d + 1 calls inside
  one another, and no entry above depth 0 has sources of its own to be missed.

  - `dedupe_spec`: every id is kept once, at its first place.
  - `must_trace`: what a trace in a layered DAG returns.
  - `meta_dag_is_layered`: the DAG is layered in every run, and so every trace comes to its end.
-/
import Mathlib.Logic.Relation
import FlowHelm.Memory.Completion
import FlowHelm.Memory.MetaDag

namespace FlowHelm.Memory

open Js Script Prog Runs

inductive Expansion where
  | nothing
  | sourceSemantics (entries : List Semantic)
  | childMetas (entries : List Meta)

def expandMetaMemory (metaId : Nat) : Script Expansion := do
  match ← await (.metaDepth metaId) with
  | none => return .nothing
  | some depth =>
    if depth = 0 then do
      let sourceRows ← await (.sourcesOf metaId)
      return .sourceSemantics sourceRows
    else do
      let childRows ← await (.childrenOf metaId)
      return .childMetas childRows

/-- `allSources.filter` with the ids seen so far. -/
def dedupe (seen : List Nat) : List Semantic → List Semantic
  | [] => []
  | s :: rest => if s.id ∈ seen then dedupe seen rest else s :: dedupe (s.id :: seen) rest

/-- `fuel` bounds the calls inside one another. -/
def traceMetaToSources : Nat → Nat → Script (List Semantic)
  | 0, _ => Prog.throw (.error "out of fuel")
  | fuel + 1, metaId => do
    match ← expandMetaMemory metaId with
    | .sourceSemantics entries => return entries
    | .childMetas entries => do
      let allSources ← forConcat entries fun child => traceMetaToSources fuel child.id
      return dedupe [] allSources
    | .nothing => return []

/-! ## Duplicates -/

theorem dedupe_spec (seen : List Nat) (rows : List Semantic) :
    ((dedupe seen rows).map (·.id)).Nodup ∧ (∀ r ∈ dedupe seen rows, r ∈ rows ∧ r.id ∉ seen) ∧
      ∀ r ∈ rows, r.id ∈ seen ∨ ∃ q ∈ dedupe seen rows, q.id = r.id := by
  induction rows generalizing seen with
  | nil => exact ⟨.nil, nofun, nofun⟩
  | cons s rest ih =>
    simp only [dedupe]
    split
    · rename_i hseen
      obtain ⟨hnodup, hsub, hcover⟩ := ih seen
      refine ⟨hnodup, fun r hr => ⟨.tail _ (hsub r hr).1, (hsub r hr).2⟩, ?_⟩
      exact List.forall_mem_cons.mpr ⟨Or.inl hseen, hcover⟩
    · rename_i hseen
      obtain ⟨hnodup, hsub, hcover⟩ := ih (s.id :: seen)
      refine ⟨List.nodup_cons.mpr ⟨?_, hnodup⟩, List.forall_mem_cons.mpr ⟨⟨.head _, hseen⟩, ?_⟩,
        List.forall_mem_cons.mpr ⟨Or.inr ⟨s, .head _, rfl⟩, ?_⟩⟩
      · intro hmem
        obtain ⟨r, hr, hid⟩ := List.mem_map.mp hmem
        exact (hsub r hr).2 (hid ▸ .head _)
      · exact fun r hr => ⟨.tail _ (hsub r hr).1, fun h => (hsub r hr).2 (.tail _ h)⟩
      · intro r hr
        rcases hcover r hr with hid | ⟨q, hq, hid⟩
        · rcases List.mem_cons.mp hid with hid | hid
          · exact Or.inr ⟨s, .head _, hid.symm⟩
          · exact Or.inl hid
        · exact Or.inr ⟨q, .tail _ hq, hid⟩

/-! ## Traces -/

/-- The edges, from parent to child. -/
def Tables.edge (t : Tables) (a b : Nat) : Prop := (a, b) ∈ t.metaParents

/-- `r` is a T2 entry that can be reached from the entry `metaId` through the DAG. -/
def Tables.Leads (t : Tables) (metaId : Nat) (r : Semantic) : Prop :=
  r ∈ t.semantic ∧ ∃ d, Relation.ReflTransGen t.edge metaId d ∧ (d, r.id) ∈ t.metaSources

theorem mem_children {s : Db} {metaId : Nat} {c : Meta} : c ∈ s.children metaId ↔ c ∈ s.metas ∧ s.edge metaId c.id := by
  simp [Tables.children, Tables.edge]

/-- An entry of depth 0 leads to its own sources. -/
theorem leads_sources {s : Db} (hl : Layered s.toTables) {m : Meta} (hm : m ∈ s.metas) (hd : m.depth = 0) (r : Semantic) :
    s.Leads m.id r ↔ r ∈ s.sources m.id := by
  rw [Tables.sources, List.mem_filter, List.contains_iff_mem]
  refine ⟨?_, fun ⟨hr, hsource⟩ => ⟨hr, m.id, .refl, hsource⟩⟩
  rintro ⟨hr, d, hpath, hsource⟩
  rcases Relation.ReflTransGen.cases_head hpath with rfl | ⟨b, hedge, _⟩
  · exact ⟨hr, hsource⟩
  · obtain ⟨c, hc, hid⟩ := List.mem_map.mp (s.valid.metaParentChild _ hedge)
    have := (hl.edges _ hedge m hm c hc rfl hid).1
    omega

/-- Any other leads to what its children lead to. -/
theorem leads_children {s : Db} (hl : Layered s.toTables) {m : Meta} (hm : m ∈ s.metas) (hd : m.depth ≠ 0) (r : Semantic) :
    s.Leads m.id r ↔ ∃ c ∈ s.children m.id, s.Leads c.id r := by
  constructor
  · rintro ⟨hr, d, hpath, hsource⟩
    rcases Relation.ReflTransGen.cases_head hpath with rfl | ⟨b, hedge, hrest⟩
    · exact (hd (hl.sources _ hsource m hm rfl)).elim
    · obtain ⟨c, hc, rfl⟩ := List.mem_map.mp (s.valid.metaParentChild _ hedge)
      exact ⟨c, mem_children.mpr ⟨hc, hedge⟩, hr, d, hrest, hsource⟩
  · rintro ⟨c, hc, hr, d, hpath, hsource⟩
    exact ⟨hr, d, .head (mem_children.mp hc).2 hpath, hsource⟩

theorem find_meta {s : Db} {m : Meta} (hm : m ∈ s.metas) : s.metas.find? (·.id == m.id) = some m := by
  cases hf : s.metas.find? (·.id == m.id) with
  | none =>
    have := List.find?_eq_none.mp hf m hm
    simp at this
  | some n => rw [s.meta_unique (List.mem_of_find?_eq_some hf) hm (by simpa using List.find?_some hf)]

/-- Left alone, a trace with fuel for the depth of its entry returns what the entry leads to. -/
theorem must_trace {s : Db} (hl : Layered s.toTables) (fuel : Nat) {m : Meta} (hm : m ∈ s.metas) (hf : m.depth < fuel) :
    Must service (traceMetaToSources fuel m.id) (fun rows t => t = s ∧ (rows.map (·.id)).Nodup ∧
      ∀ r, r ∈ rows ↔ s.Leads m.id r) (fun _ _ => False) s := by
  induction fuel generalizing m with
  | zero => omega
  | succ fuel ih =>
    refine wp_bind (must_read (fun _ _ => rfl) ?_)
    rintro depth rfl
    rw [find_meta hm]
    simp only [Option.map_some]
    split
    · rename_i hd
      refine must_read (fun _ _ => rfl) fun rows ha => ?_
      refine ⟨rfl, ?_, fun r => ?_⟩
      · exact (ha.1.map _).nodup_iff.mpr (s.valid.semanticKey.sublist (List.filter_sublist.map _))
      · rw [ha.1.mem_iff, leads_sources hl hm hd]
    · rename_i hd
      refine must_read (fun _ _ => rfl) fun children ha => ?_
      have hmem : ∀ c, c ∈ children ↔ c ∈ s.children m.id := fun c => ha.1.mem_iff
      refine wp_bind (wp_mono ?_ (fun _ _ h => h) (wp_forConcat (· = s) (fun c r => s.Leads c.id r) ?_ rfl))
      · rintro all t ⟨rfl, hall⟩
        obtain ⟨hnodup, hsub, hcover⟩ := dedupe_spec [] all
        refine ⟨rfl, hnodup, fun r => ?_⟩
        rw [leads_children hl hm hd, ← exists_congr fun c => and_congr_left fun _ => hmem c, ← hall]
        refine ⟨fun hr => (hsub r hr).1, fun hr => ?_⟩
        -- the entry kept under the id is the same row
        obtain ⟨q, hq, hid⟩ := (hcover r hr).resolve_left (List.not_mem_nil)
        have hrow : ∀ p ∈ all, p ∈ t.semantic := by
          intro p hp
          obtain ⟨_, _, hleads⟩ := (hall p).mp hp
          exact hleads.1
        rw [← t.semantic_unique (hrow q (hsub q hq).1) (hrow r hr) hid]
        exact hq
      · rintro c hc _ rfl
        obtain ⟨hcm, hedge⟩ := mem_children.mp ((hmem c).mp hc)
        have hdepth := (hl.edges _ hedge m hm c hcm rfl rfl).1
        refine wp_mono ?_ (fun _ _ h => h) (ih hcm (by omega))
        rintro rows t ⟨rfl, _, hrows⟩
        exact ⟨rfl, hrows⟩

/-! ## Every run -/

/-- In every state the edges are layered, and the trace of every entry comes to its end and
    returns each T2 entry it leads to once. -/
theorem meta_dag_is_layered (cfg : Config) {x : Conf Op Ans Db Job} (h : Reach (world cfg).system Free x) :
    Layered x.db.toTables ∧ ∀ m ∈ x.db.metas, ∀ fuel, m.depth < fuel →
      Returns service (traceMetaToSources fuel m.id) (fun rows t => t = x.db ∧ (rows.map (·.id)).Nodup ∧
        ∀ r, r ∈ rows ↔ x.db.Leads m.id r) x.db := by
  have hl : Layered x.db.toTables := (metaContract cfg).safe (h.mono fun y e _ => anyStep_meets y e)
  exact ⟨hl, fun m hm fuel hf => must_returns (must_trace hl fuel hm hf)⟩

theorem a_condensed_entry_is_traced : ∃ x m, Reach (world smallConfig).system Free x ∧ m ∈ x.db.metas ∧ m.depth = 1 ∧
    x.db.metaParents.length = 2 ∧ Returns service (traceMetaToSources 2 m.id) (fun rows t => t = x.db ∧
      (rows.map (·.id)).Nodup ∧ ∀ r, r ∈ rows ↔ x.db.Leads m.id r) x.db := by
  obtain ⟨x, hx, hp⟩ := reach_any (M := (world smallConfig).system) (C := Free)
    (P := fun x => decide (x.db.metaParents.length = 2 ∧ ∃ m ∈ x.db.metas, m.depth = 1))
    (playedBy musing (twoEntries ++ wholeJob .reflection 60)) (meets_free _ _) (by decide +kernel)
  obtain ⟨htwo, m, hm, hd⟩ := of_decide_eq_true hp
  exact ⟨x, m, hx, hm, hd, htwo, (meta_dag_is_layered smallConfig hx).2 m hm 2 (by omega)⟩

end FlowHelm.Memory
