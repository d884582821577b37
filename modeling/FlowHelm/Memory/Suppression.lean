/-
  FlowHelm.Memory.Suppression — an entry below 0.2 is left alone for good.

  The three statements that write a confidence or choose a child first select entries of
  at least 0.2, and only reflection, which runs once at a time, writes confidences: what it
  has selected is still above 0.2 when it is written or linked.

  - `suppressed_step`: what one step of any job leaves of a suppressed entry.
  - `suppressed_stays`: what any path leaves of it.
-/
import FlowHelm.Memory.MetaDag

namespace FlowHelm.Memory

open Js Script Prog Runs

/-- Nothing of the entry `m` has changed, if it is still there, and it has no parent but those in `edges`. -/
structure Undisturbed (m : Meta) (edges : List (Nat × Nat)) (t : Tables) : Prop where
  drawn : m.id < t.nextId
  row : ∀ n ∈ t.metas, n.id = m.id → n = m
  parents : ∀ e ∈ t.metaParents, e.2 = m.id → e ∈ edges

theorem Undisturbed.not_spared {m : Meta} {edges : List (Nat × Nat)} {t : Tables} (hlow : m.low = true)
    (h : Undisturbed m edges t) : ¬Spared t m.id := by
  rintro (hfresh | ⟨n, hn, hid, hn'⟩)
  · exact Nat.not_lt.mpr hfresh h.drawn
  · rw [h.row n hn hid, hlow] at hn'
    cases hn'

theorem suppressed_step {m : Meta} {edges : List (Nat × Nat)} {s t : Tables} (hlow : m.low = true) (hg : s.Grows t)
    (hs : Spares s t) (h : Undisturbed m edges s) : Undisturbed m edges t := by
  refine ⟨lt_of_lt_of_le h.drawn hg.nextId, ?_, ?_⟩
  · intro n hn hid
    rcases hs.rows n hn with hn | hspared
    · exact h.row n hn hid
    · exact (h.not_spared hlow (hid ▸ hspared)).elim
  · intro e he hid
    rcases hs.edges e he with he | hspared
    · exact h.parents e he hid
    · exact (h.not_spared hlow (hid ▸ hspared)).elim

/-- Every step of the machine spares suppressed entries. -/
theorem moves_spare (cfg : Config) {s t : Db} (h : (metaContract cfg).Moves s t) :
    s.Grows t.toTables ∧ Spares s.toTables t.toTables := by
  rcases h with rfl | ⟨j, hg⟩ | ⟨e, _, he⟩
  · exact ⟨.refl _, .refl _⟩
  · exact ⟨hg.1, hg.2.1⟩
  · have hk := arrive_keeps he
    refine ⟨arrive_grows he, ⟨fun m hm => Or.inl (hk.metas ▸ hm), fun e he => Or.inl (hk.metaParents ▸ he)⟩⟩

/-- On any path from a reachable state, an entry that was below 0.2 keeps its row, gets no
    further parent, and is not among the entries a condensation selects. -/
theorem suppressed_stays (cfg : Config) {x y : Conf Op Ans Db Job} (hx : Reach (world cfg).system Free x)
    (hp : Path (world cfg).system x y) {m : Meta} (hm : m ∈ x.db.metas) (hlow : m.confidence < 1 / 5) :
    (∀ n ∈ y.db.metas, n.id = m.id → n = m) ∧ (∀ e ∈ y.db.metaParents, e.2 = m.id → e ∈ x.db.metaParents) ∧
      ∀ profileId type depth, ∀ c ∈ y.db.uncondensedActive profileId type depth, c.id ≠ m.id := by
  have hlow' : m.low = true := decide_eq_true hlow
  have hstart : Undisturbed m x.db.metaParents x.db.toTables :=
    ⟨x.db.valid.metaDrawn _ (List.mem_map_of_mem hm), fun n hn hid => x.db.meta_unique hn hm hid, fun _ he _ => he⟩
  have hend : Undisturbed m x.db.metaParents y.db.toTables := by
    refine (metaContract cfg).path (P := fun t => Undisturbed m x.db.metaParents t.toTables) ?_ anyStep_meets
      ((metaContract cfg).holds (hx.mono fun z e _ => anyStep_meets z e)) hp hstart
    intro s t hmove h
    obtain ⟨hg, hs⟩ := moves_spare cfg hmove
    exact suppressed_step hlow' hg hs h
  refine ⟨hend.row, hend.parents, ?_⟩
  intro profileId type depth c hc hid
  obtain ⟨hcm, hp⟩ := List.mem_filter.mp (List.mem_filter.mp hc).1
  rw [hend.row c hcm hid] at hp
  simp only [Bool.and_eq_true, decide_eq_true_eq] at hp
  exact absurd hlow (not_lt.mpr hp.2)

/-- Two contradictions take the entry below 0.2, a third reflection leaves it there. -/
def twoContradictions : Moves :=
  twoEntries ++ wholeJob .reflection 40 ++ .event (.env .tick) :: request 3 (stored "c") ++ request 4 (stored "d") ++
    wholeJob .reflection 40

theorem a_suppressed_entry_stays : ∃ x y m, Reach (world smallConfig).system Free x ∧ Path (world smallConfig).system x y ∧
    m ∈ x.db.metas ∧ m.confidence = 24 / 125 ∧ y.db.metas.length = x.db.metas.length + 1 ∧
    ∀ n ∈ y.db.metas, n.id = m.id → n = m := by
  obtain ⟨x, hx, hp⟩ := reach_any (M := (world smallConfig).system) (C := Free)
    (P := fun x => decide (∃ m ∈ x.db.metas, m.confidence = 24 / 125) &&
      (exec (world smallConfig).system x (continuedBy doubting x (.event (.env .tick) :: request 5 (stored "e") ++
        request 6 (stored "f") ++ wholeJob .reflection 40))).any fun y => y.db.metas.length == x.db.metas.length + 1)
    (playedBy doubting twoContradictions) (meets_free _ _) (by decide +kernel)
  obtain ⟨hstart, hend⟩ := (Bool.and_eq_true ..).mp hp
  obtain ⟨m, hm, hconf⟩ := of_decide_eq_true hstart
  obtain ⟨y, hy, hlen⟩ := (Option.any_eq_true _ _).mp hend
  have hlow : m.confidence < 1 / 5 := by rw [hconf]; decide +kernel
  exact ⟨x, y, m, hx, ⟨_, hy⟩, hm, hconf, beq_iff_eq.mp hlen, (suppressed_stays smallConfig hx ⟨_, hy⟩ hm hlow).1⟩

end FlowHelm.Memory
