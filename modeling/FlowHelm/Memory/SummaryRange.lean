/-
  FlowHelm.Memory.SummaryRange — whether the time range of a summary covers what it was
  made from.

  A d0 summary takes the timestamps of the first and the last message of its chunk. A d1
  summary takes `earliest_at` of the first of its children and `latest_at` of the last, in
  the order of `earliest_at`: the last to begin is not always the last to end, and a NULL
  range, as a fact of the type `summary` has, comes last and counts as 0.

  - `chunk_spans`: the range of a d0 summary covers the times of its messages.
  - `condensed_spans_iff`: when the range of a condensation covers all of its children's.
  - `ranges_nest`: every run in which the last child of each condensation ends last keeps
    the ranges nested.
  - `an_earlier_session_ends_later`, `a_fact_has_no_range`: runs in which it does not.
-/
import FlowHelm.Memory.Footprint

namespace FlowHelm.Memory

open Js Script Prog Runs

/-! ## Ranges -/

/-- `earliest_at` and `latest_at`. -/
abbrev TimeRange := Option Nat × Option Nat

def SemanticColumns.range (r : SemanticColumns) : TimeRange := (r.earliestAt, r.latestAt)

def Working.range (m : Working) : TimeRange := (some m.timestamp, some m.timestamp)

/-- The inner range is within the outer one, as far as it has ends. -/
def Spans (outer inner : TimeRange) : Prop :=
  (∀ e ∈ inner.1, ∃ a ∈ outer.1, a ≤ e) ∧ ∀ l ∈ inner.2, ∃ b ∈ outer.2, l ≤ b

/-- What `condenseSummaries` takes from its children. -/
def condensedRange (d0Summaries : List Semantic) : TimeRange :=
  (d0Summaries.head?.map (columnNumber ·.earliestAt), d0Summaries.getLast?.map (columnNumber ·.latestAt))

/-- None ends after the last one, NULL being 0. -/
def LastEndsLast (d0Summaries : List Semantic) : Prop :=
  ∀ last ∈ d0Summaries.getLast?, ∀ r ∈ d0Summaries, ∀ l ∈ r.latestAt, l ≤ columnNumber last.latestAt

theorem head_begins_first {d0Summaries : List Semantic} {first r : Semantic} (h : d0Summaries.Pairwise fun a b => byEarliest a b)
    (hfirst : d0Summaries.head? = some first) (hr : r ∈ d0Summaries) {e : Nat} (he : r.earliestAt = some e) :
    columnNumber first.earliestAt ≤ e := by
  cases d0Summaries with
  | nil => cases hfirst
  | cons a rest =>
    obtain rfl := Option.some.inj hfirst
    rcases List.mem_cons.mp hr with rfl | hr
    · simp [columnNumber, he]
    · have hle := (List.pairwise_cons.mp h).1 r hr
      rw [byEarliest, he] at hle
      cases hearliest : a.earliestAt with
      | none =>
        rw [hearliest] at hle
        cases hle
      | some e' =>
        rw [hearliest] at hle
        exact of_decide_eq_true hle

/-- The range of a condensation covers those of its children if and only if the last ends last. -/
theorem condensed_spans_iff {d0Summaries : List Semantic} (h : d0Summaries.Pairwise fun a b => byEarliest a b) :
    (∀ r ∈ d0Summaries, Spans (condensedRange d0Summaries) r.range) ↔ LastEndsLast d0Summaries := by
  constructor
  · intro hall last hlast r hr l hl
    obtain ⟨b, hb, hle⟩ := (hall r hr).2 l hl
    rw [condensedRange, Option.mem_def.mp hlast] at hb
    obtain rfl := Option.some.inj hb
    exact hle
  · intro hlast r hr
    have hne : d0Summaries ≠ [] := List.ne_nil_of_mem hr
    refine ⟨fun e he => ?_, fun l hl => ?_⟩
    · have hhead : d0Summaries.head? = some (d0Summaries.head hne) := List.head?_eq_some_head hne
      exact ⟨_, by simp [condensedRange, hhead], head_begins_first h hhead hr he⟩
    · have hend : d0Summaries.getLast? = some (d0Summaries.getLast hne) := List.getLast?_eq_some_getLast hne
      exact ⟨_, by simp [condensedRange, hend], hlast _ hend r hr l hl⟩

/-- What `consolidateSession` takes from a chunk. -/
def chunkRange (chunk : List Working) : TimeRange := (chunk.head?.map (·.timestamp), chunk.getLast?.map (·.timestamp))

theorem chunk_spans {chunk : List Working} (h : chunk.Pairwise fun a b => byTimestamp a b) {m : Working} (hm : m ∈ chunk) :
    Spans (chunkRange chunk) m.range := by
  have hne : chunk ≠ [] := List.ne_nil_of_mem hm
  have hfirst : (chunk.head hne).timestamp ≤ m.timestamp := by
    cases chunk with
    | nil => cases hm
    | cons a rest =>
      rcases List.mem_cons.mp hm with rfl | hm
      · exact le_refl _
      · exact of_decide_eq_true ((List.pairwise_cons.mp h).1 m hm)
  have hlast : m.timestamp ≤ (chunk.getLast hne).timestamp := by
    have hparts := List.dropLast_append_getLast hne
    rw [← hparts] at h hm
    rcases List.mem_append.mp hm with hm | hm
    · exact of_decide_eq_true ((List.pairwise_append.mp h).2.2 m hm _ (by simp))
    · rw [List.mem_singleton.mp hm]
  refine ⟨fun e he => ?_, fun l hl => ?_⟩
  · obtain rfl := Option.some.inj he
    exact ⟨_, by simp [chunkRange, List.head?_eq_some_head hne], hfirst⟩
  · obtain rfl := Option.some.inj hl
    exact ⟨_, by simp [chunkRange, List.getLast?_eq_some_getLast hne], hlast⟩

/-- A chunk keeps the order of the messages. -/
theorem chunkArray_sublist {α : Type} (arr : List α) (size : Nat) : ∀ chunk ∈ chunkArray arr size, List.Sublist chunk arr := by
  intro chunk hc
  obtain ⟨i, -, rfl⟩ := mem_chunkArray hc
  exact (List.take_sublist _ _).trans (List.drop_sublist _ _)

/-! ## The tables -/

/-- A summary's range covers its children's, and its messages' timestamps. -/
structure Nested (t : Tables) : Prop where
  summaries : ∀ e ∈ t.parentSources, ∀ p ∈ t.semantic, ∀ c ∈ t.semantic, p.id = e.1 → c.id = e.2 → Spans p.range c.range
  messages : ∀ e ∈ t.messageSources, ∀ r ∈ t.semantic, ∀ m ∈ t.working, r.id = e.1 → m.key = e.2 → Spans r.range m.range

/-- The row `id`, as long as there is one, has the range. -/
def Ranged (t : Tables) (range : TimeRange) (id : Nat) : Prop := id < t.nextId ∧ ∀ r ∈ t.semantic, r.id = id → r.range = range

/-- There is a message of the key, said at that time. -/
structure Timed (t : Tables) (range : TimeRange) (key : MessageKey) : Prop where
  there : key ∈ t.messageKeys
  range : ∀ m ∈ t.working, m.key = key → m.range = range

/-- Rows keep their ranges and messages their times. -/
structure Lasts (s t : Tables) : Prop where
  grows : s.Grows t
  keys : ∀ k ∈ s.messageKeys, k ∈ t.messageKeys
  times : ∀ m ∈ t.working, m.key ∈ s.messageKeys → ∃ m₀ ∈ s.working, m₀.key = m.key ∧ m₀.range = m.range

theorem Lasts.refl (s : Tables) : Lasts s s := ⟨.refl s, fun _ h => h, fun m hm _ => ⟨m, hm, rfl, rfl⟩⟩

theorem Lasts.trans {s t u : Tables} (h1 : Lasts s t) (h2 : Lasts t u) : Lasts s u := by
  refine ⟨h1.grows.trans h2.grows, fun k hk => h2.keys k (h1.keys k hk), ?_⟩
  intro m hm hkey
  obtain ⟨m₁, hm₁, hkey₁, hrange₁⟩ := h2.times m hm (h1.keys _ hkey)
  obtain ⟨m₀, hm₀, hkey₀, hrange₀⟩ := h1.times m₁ hm₁ (hkey₁ ▸ hkey)
  exact ⟨m₀, hm₀, hkey₀.trans hkey₁, hrange₀.trans hrange₁⟩

theorem Ranged.lasts {s t : Tables} {range : TimeRange} {id : Nat} (hl : Lasts s t) (h : Ranged s range id) : Ranged t range id :=
  hl.grows.row h

theorem Timed.lasts {s t : Tables} {range : TimeRange} {key : MessageKey} (hl : Lasts s t) (h : Timed s range key) :
    Timed t range key := by
  refine ⟨hl.keys key h.there, ?_⟩
  intro m hm hkey
  obtain ⟨m₀, hm₀, hkey₀, hrange⟩ := hl.times m hm (hkey ▸ h.there)
  rw [← hrange]
  exact h.range m₀ hm₀ (hkey₀.trans hkey)

theorem ranged_of_mem {s : Db} {r : Semantic} (hr : r ∈ s.semantic) : Ranged s.toTables r.range r.id := by
  refine ⟨s.valid.semanticDrawn _ (List.mem_map_of_mem hr), ?_⟩
  intro q hq hid
  rw [s.semantic_unique hq hr hid]

theorem timed_of_mem {s : Db} {m : Working} (hm : m ∈ s.working) : Timed s.toTables m.range m.key := by
  refine ⟨List.mem_map_of_mem hm, ?_⟩
  intro n hn hkey
  rw [List.inj_on_of_nodup_map s.valid.workingKey hn hm hkey]

/-- Old edges, and new ones between known ends. -/
theorem nested_lasts {s t : Db} (hl : Lasts s.toTables t.toTables)
    (hsummaries : ∀ e ∈ t.parentSources, e ∈ s.parentSources ∨ ∃ outer inner, Spans outer inner ∧
      Ranged t.toTables outer e.1 ∧ Ranged t.toTables inner e.2)
    (hmessages : ∀ e ∈ t.messageSources, e ∈ s.messageSources ∨ ∃ outer inner, Spans outer inner ∧
      Ranged t.toTables outer e.1 ∧ Timed t.toTables inner e.2)
    (h : Nested s.toTables) : Nested t.toTables := by
  have hold : ∀ id ∈ s.semanticIds, ∃ r₀ ∈ s.semantic, r₀.id = id ∧ Ranged t.toTables r₀.range id := by
    intro id hid
    obtain ⟨r₀, hr₀, rfl⟩ := List.mem_map.mp hid
    exact ⟨r₀, hr₀, rfl, (ranged_of_mem hr₀).lasts hl⟩
  constructor
  · intro e he p hp c hc hpe hce
    rcases hsummaries e he with he | ⟨outer, inner, hspans, h1, h2⟩
    · obtain ⟨p₀, hp₀, hpid, hpr⟩ := hold e.1 (s.valid.parentSourceParent e he)
      obtain ⟨c₀, hc₀, hcid, hcr⟩ := hold e.2 (s.valid.parentSourceChild e he)
      rw [hpr.2 p hp hpe, hcr.2 c hc hce]
      exact h.summaries e he p₀ hp₀ c₀ hc₀ hpid hcid
    · rw [h1.2 p hp hpe, h2.2 c hc hce]
      exact hspans
  · intro e he r hr m hm hre hme
    rcases hmessages e he with he | ⟨outer, inner, hspans, h1, h2⟩
    · obtain ⟨r₀, hr₀, hrid, hrr⟩ := hold e.1 (s.valid.messageSourceSummary e he)
      obtain ⟨m₀, hm₀, hkey⟩ := List.mem_map.mp (s.valid.messageSourceMessage e he)
      have hm' := (timed_of_mem hm₀).lasts hl
      rw [hrr.2 r hr hre, hm'.range m hm (hme.trans hkey.symm)]
      exact h.messages e he r₀ hr₀ m₀ hm₀ hrid hkey
    · rw [h1.2 r hr hre, h2.range m hm hme]
      exact hspans

/-! ## Single statements -/

theorem effect_working (o : Op) (t : Tables) (a : Ans o) : (effect o t a).working = t.working := by
  cases o <;> rfl

theorem exec_lasts {o : Op} {s t : Db} {a : Ans o} (hx : service.exec o s a = some t) : Lasts s.toTables t.toTables := by
  have hworking : t.working = s.working := by rw [(exec_spec hx).2, effect_working]
  refine ⟨exec_grows hx, ?_, ?_⟩
  · intro k hk
    rw [Tables.messageKeys, hworking]
    exact hk
  · intro m hm _
    exact ⟨m, hworking ▸ hm, rfl, rfl⟩

def Op.linksRanges : Op → Bool
  | .linkSummary .. => true
  | .linkMessage .. => true
  | .clone .. => true
  | _ => false

theorem effect_links {o : Op} (ho : o.linksRanges = false) (t : Tables) (a : Ans o) :
    (∀ e ∈ (effect o t a).parentSources, e ∈ t.parentSources) ∧ ∀ e ∈ (effect o t a).messageSources, e ∈ t.messageSources := by
  cases o with
  | linkSummary => cases ho
  | linkMessage => cases ho
  | clone => cases ho
  | deleteSummaryParents => exact ⟨fun _ h => (List.mem_filter.mp h).1, fun _ h => h⟩
  | deleteSummaryMessages => exact ⟨fun _ h => h, fun _ h => (List.mem_filter.mp h).1⟩
  | deleteSemantics => exact ⟨fun _ h => (List.mem_filter.mp h).1, fun _ h => (List.mem_filter.mp h).1⟩
  | deleteSemantic => exact ⟨fun _ h => (List.mem_filter.mp h).1, fun _ h => (List.mem_filter.mp h).1⟩
  | _ => exact ⟨fun _ h => h, fun _ h => h⟩

theorem nested_step {o : Op} (ho : o.linksRanges = false) {s t : Db} {a : Ans o} (h : Nested s.toTables)
    (hx : service.exec o s a = some t) : Nested t.toTables := by
  obtain ⟨hparents, hmessages⟩ := effect_links ho s.toTables a
  rw [← (exec_spec hx).2] at hparents hmessages
  exact nested_lasts (exec_lasts hx) (fun e he => Or.inl (hparents e he)) (fun e he => Or.inl (hmessages e he)) h

theorem nested_linkSummary {parentId childId : Nat} {outer inner : TimeRange} {s t : Db} (hspans : Spans outer inner)
    (hp : Ranged s.toTables outer parentId) (hc : Ranged s.toTables inner childId) (h : Nested s.toTables)
    (hx : service.exec (.linkSummary parentId childId) s () = some t) : Nested t.toTables := by
  have hl := exec_lasts hx
  have ht := (exec_spec hx).2
  refine nested_lasts hl ?_ ?_ h
  · intro e he
    rw [ht] at he
    rcases List.mem_cons.mp he with rfl | he
    · exact Or.inr ⟨outer, inner, hspans, hp.lasts hl, hc.lasts hl⟩
    · exact Or.inl he
  · intro e he
    rw [ht] at he
    exact Or.inl he

theorem nested_linkMessage {summaryId : Nat} {key : MessageKey} {rest : List MessageKey} {outer inner : TimeRange} {s t : Db}
    (hspans : Spans outer inner) (hr : Ranged s.toTables outer summaryId) (hm : Timed s.toTables inner key)
    (h : Nested s.toTables) (hx : service.exec (.linkMessage summaryId key rest) s () = some t) : Nested t.toTables := by
  have hl := exec_lasts hx
  have ht := (exec_spec hx).2
  refine nested_lasts hl ?_ ?_ h
  · intro e he
    rw [ht] at he
    exact Or.inl he
  · intro e he
    rw [ht] at he
    rcases List.mem_cons.mp he with rfl | he
    · exact Or.inr ⟨outer, inner, hspans, hr.lasts hl, hm.lasts hl⟩
    · exact Or.inl he

/-- The copy of a row has its range. -/
theorem clone_ranged {s t : Db} {sourceId now id y : Nat} {profile : Profile} (hp : profile.id = s.nextId)
    (ht : t.toTables = s.clone sourceId profile now)
    (h : copied ((s.semantic.filter (·.profileId == sourceId)).map (·.id)) (profile.id + 1) id = some y) :
    ∃ r ∈ s.semantic, r.id = id ∧ Ranged t.toTables r.range y := by
  obtain ⟨k, hk, rfl, hid⟩ := copied_some h
  rw [List.length_map] at hk
  rw [List.getElem_map] at hid
  refine ⟨_, (List.mem_filter.mp (List.getElem_mem hk)).1, hid, ?_, ?_⟩
  · rw [ht]
    show _ < profile.id + 1 + (s.semantic.filter (·.profileId == sourceId)).length + _
    omega
  · intro r hr hrid
    rw [ht] at hr
    rcases List.mem_append.mp hr with hr | hr
    · obtain ⟨k', hk', rfl⟩ := List.mem_mapIdx.mp hr
      have hkk : k' = k := Nat.add_left_cancel hrid
      subst hkk
      rfl
    · have := s.valid.semanticDrawn r.id (List.mem_map_of_mem hr)
      omega

theorem nested_clone {sourceId now : Nat} {name : String} {description : Option String} {s t : Db} {profile : Profile}
    (h : Nested s.toTables) (hx : service.exec (.clone sourceId name description now) s profile = some t) :
    Nested t.toTables := by
  obtain ⟨ha, ht⟩ := exec_spec hx
  have hl := exec_lasts hx
  have hp : profile.id = s.nextId := by rw [ha]
  refine nested_lasts hl ?_ ?_ h
  · intro e he
    rw [ht] at he
    rcases List.mem_append.mp he with he | he
    · obtain ⟨e₀, he₀, hmap⟩ := List.mem_filterMap.mp he
      obtain ⟨h1, h2⟩ := remap_some hmap
      obtain ⟨p, hpm, hpe, hp'⟩ := clone_ranged hp ht h1
      obtain ⟨c, hcm, hce, hc'⟩ := clone_ranged hp ht h2
      exact Or.inr ⟨_, _, h.summaries e₀ he₀ p hpm c hcm hpe hce, hp', hc'⟩
    · exact Or.inl he
  · intro e he
    rw [ht] at he
    rcases List.mem_append.mp he with he | he
    · obtain ⟨e₀, he₀, hmap⟩ := List.mem_filterMap.mp he
      obtain ⟨y, hy, rfl⟩ := Option.map_eq_some_iff.mp hmap
      obtain ⟨r, hrm, hre, hr'⟩ := clone_ranged hp ht hy
      obtain ⟨m, hm, hkey⟩ := List.mem_map.mp (s.valid.messageSourceMessage e₀ he₀)
      have hm' := (timed_of_mem hm).lasts hl
      rw [hkey] at hm'
      exact Or.inr ⟨_, _, h.messages e₀ he₀ r hrm m hm hre hkey, hr', hm'⟩
    · exact Or.inl he

theorem working_lasts {s t : Tables} (h : t.working = s.working) : (∀ k ∈ s.messageKeys, k ∈ t.messageKeys) ∧
    ∀ m ∈ t.working, m.key ∈ s.messageKeys → ∃ m₀ ∈ s.working, m₀.key = m.key ∧ m₀.range = m.range := by
  rw [Tables.messageKeys, Tables.messageKeys, h]
  exact ⟨fun _ hk => hk, fun m hm _ => ⟨m, hm, rfl, rfl⟩⟩

/-- No message arrives twice, and none changes its time. -/
theorem Arrival.effect_times (t : Tables) (e : Arrival) : (∀ k ∈ t.messageKeys, k ∈ (e.effect t).messageKeys) ∧
    ∀ m ∈ (e.effect t).working, m.key ∈ t.messageKeys → ∃ m₀ ∈ t.working, m₀.key = m.key ∧ m₀.range = m.range := by
  cases e with
  | upsertChat chatId profileId =>
    apply working_lasts
    simp only [Arrival.effect]
    split <;> rfl
  | storeMessage message =>
    simp only [Arrival.effect]
    split
    · exact working_lasts rfl
    · rename_i hnew
      refine ⟨fun k hk => List.mem_cons_of_mem _ hk, ?_⟩
      intro m hm hkey
      rcases List.mem_cons.mp hm with rfl | hm
      · exact absurd hkey hnew
      · exact ⟨m, hm, rfl, rfl⟩
  | startSession chatId => exact working_lasts rfl
  | endSession sessionId => exact working_lasts rfl
  | backfillSessionId key sessionId =>
    have hsame : ∀ m : Working,
        (if m.key = key ∧ m.sessionId = none then { m with sessionId := some sessionId } else m).key = m.key ∧
        (if m.key = key ∧ m.sessionId = none then { m with sessionId := some sessionId } else m).range = m.range := by
      intro m
      split <;> exact ⟨rfl, rfl⟩
    constructor
    · intro k hk
      obtain ⟨m, hm, rfl⟩ := List.mem_map.mp hk
      exact List.mem_map.mpr ⟨_, List.mem_map_of_mem hm, (hsame m).1⟩
    · intro m hm _
      obtain ⟨m₀, hm₀, rfl⟩ := List.mem_map.mp hm
      exact ⟨m₀, hm₀, (hsame m₀).1.symm, (hsame m₀).2.symm⟩
  | tick => exact working_lasts rfl

theorem arrive_lasts {s t : Db} {e : Arrival} (h : arrive s e = some t) : Lasts s.toTables t.toTables := by
  have htimes := e.effect_times s.toTables
  rw [← Db.commit_some h] at htimes
  exact ⟨arrive_grows h, htimes.1, htimes.2⟩

/-! ## Consolidation -/

/-- The children a condensation has selected. -/
def condensation : Did Op Ans → Option (List Semantic)
  | .ran (.uncondensedSummaries ..) rows => some rows
  | _ => none

/-- Where a condensation finds enough d0 summaries, the last to begin is the last to end. -/
def CondensesToLast (cfg : ConsolidationConfig) (d : Did Op Ans) : Prop :=
  ∀ rows ∈ condensation d, cfg.consolidationThreshold ≤ rows.length → LastEndsLast rows

def rangeSetting (cfg : ConsolidationConfig) : Setting Op Ans Db where
  inv s := Nested s.toTables
  rely s t := Lasts s.toTables t.toTables
  guar s t := Lasts s.toTables t.toTables
  ok _ := CondensesToLast cfg
  total := False
  rely_refl s := .refl s.toTables
  rely_trans h1 h2 := h1.trans h2
  guar_refl s := .refl s.toTables

/-- A program that links no row to another. -/
theorem nested_uses (cfg : ConsolidationConfig) {α : Type} {p : Script α} {P : Op → Prop} (hp : p.Uses P)
    (hP : ∀ o, P o → o.linksRanges = false) (s : Db) : Safe service (rangeSetting cfg) p s := by
  refine safe_uses id ?_ hp s
  intro o ho s a t hi _ hx
  exact ⟨exec_lasts hx, nested_step (hP o ho) hi hx⟩

theorem ranged_insert {row : SemanticColumns} {s t : Db} {id : Nat} (hx : service.exec (.insertSemantic row) s id = some t) :
    Ranged t.toTables row.range id := ranged_of_mem (mem_insertSemantic hx)

theorem linkMessages_nested (cfg : ConsolidationConfig) {summaryId : Nat} {outer : TimeRange} {chunk : List Working} {s : Db}
    (hr : Ranged s.toTables outer summaryId) (hm : ∀ m ∈ chunk, Timed s.toTables m.range m.key ∧ Spans outer m.range) :
    Safe service (rangeSetting cfg) (linkMessages summaryId chunk) s := by
  induction chunk generalizing s with
  | nil => trivial
  | cons msg rest ih =>
    refine wp_perform id (fun _ _ _ => trivial) ?_
    intro s₁ a t hl hi hx _
    obtain ⟨hmsg, hspans⟩ := hm msg (.head _)
    have hl' := hl.trans (exec_lasts hx)
    refine ⟨exec_lasts hx, nested_linkMessage hspans (hr.lasts hl) (hmsg.lasts hl) hi hx, fun _ => ?_⟩
    exact ih (hr.lasts hl') fun m hmem => ⟨(hm m (.tail _ hmem)).1.lasts hl', (hm m (.tail _ hmem)).2⟩

theorem extracts_linksRanges (o : Op) (h : o.extracts) : o.linksRanges = false := by
  cases o <;> first | rfl | cases h

theorem consolidateChunk_nested (cfg : ConsolidationConfig) (sessionId profileId : Nat) {chunk : List Working} {s : Db}
    (hsorted : chunk.Pairwise fun a b => byTimestamp a b) (hm : ∀ m ∈ chunk, Timed s.toTables m.range m.key) :
    Safe service (rangeSetting cfg) (consolidateChunk cfg sessionId profileId chunk) s := by
  refine wp_read (exec_reads fun _ _ => rfl) id (fun _ _ _ => trivial) ?_
  intro s₁ summary hl₁ _ _ _
  refine wp_read (exec_reads fun _ _ => rfl) id (fun _ _ _ => trivial) ?_
  intro s₂ _ hl₂ _ _ _
  refine wp_read (exec_reads fun _ _ => rfl) id (fun _ _ _ => trivial) ?_
  intro s₃ now hl₃ _ _ _
  refine wp_perform id (fun _ _ _ => trivial) ?_
  intro s₄ summaryId t hl₄ hi hx _
  have hl := ((hl₁.trans hl₂).trans (hl₃.trans hl₄)).trans (exec_lasts hx)
  refine ⟨exec_lasts hx, nested_step rfl hi hx, fun _ => ?_⟩
  refine safe_bind (linkMessages_nested cfg (ranged_insert hx) fun m hmem => ?_) fun _ u => ?_
  · exact ⟨(hm m hmem).lasts hl, chunk_spans hsorted hmem⟩
  · exact nested_uses cfg (uses_extractFacts _ sessionId profileId) extracts_linksRanges u

/-- What lasts holds at the end of a safe program too. -/
theorem wp_lasting (cfg : ConsolidationConfig) {A : Db → Prop} (hA : ∀ s t : Db, Lasts s.toTables t.toTables → A s → A t)
    {α : Type} {p : Script α} {s : Db} (h : Safe service (rangeSetting cfg) p s) (hs : A s) :
    wp service (rangeSetting cfg) p (fun _ => A) (fun _ _ => True) s :=
  wp_mono (fun _ _ h => h.2) (fun _ _ _ => trivial) (wp_frame hA hA h hs)

theorem consolidateSession_nested (cfg : ConsolidationConfig) (sessionId : Nat) (chatId : String) (s : Db) :
    Safe service (rangeSetting cfg) (consolidateSession cfg sessionId chatId) s := by
  refine wp_read (exec_reads fun _ _ => rfl) id (fun _ _ _ => trivial) ?_
  intro s₁ messages _ _ hx _
  obtain ⟨hperm, hsorted⟩ := (exec_spec hx).1
  split
  · trivial
  have hm : ∀ m ∈ messages, Timed s₁.toTables m.range m.key := by
    intro m hmem
    exact timed_of_mem (List.mem_filter.mp (hperm.mem_iff.mp hmem)).1
  have hlasting : ∀ s t : Db, Lasts s.toTables t.toTables → (∀ m ∈ messages, Timed s.toTables m.range m.key) →
      ∀ m ∈ messages, Timed t.toTables m.range m.key := fun _ _ hl h m hmem => (h m hmem).lasts hl
  have hprofile : Safe service (rangeSetting cfg) (getProfileIdForChat chatId) s₁ :=
    nested_uses cfg (uses_getProfileIdForChat (fun _ => rfl) chatId) (fun _ ho => ho) s₁
  refine wp_bind (wp_mono ?_ (fun _ _ _ => trivial) (wp_lasting cfg hlasting hprofile hm))
  intro profileId t ht
  -- the loop: what is left are chunks of the messages, which keep their times
  refine wp_mono (fun _ _ _ => trivial) (fun _ _ h => h) (wp_forEach (fun rest (u : Db) =>
    (∀ chunk ∈ rest, List.Sublist chunk messages) ∧ ∀ m ∈ messages, Timed u.toTables m.range m.key) ?_ ?_)
  · intro chunk rest u hu
    obtain ⟨hsub, hu⟩ := hu
    have hchunk := hsub chunk (.head _)
    have hsafe := consolidateChunk_nested cfg sessionId profileId (hsorted.sublist hchunk)
      fun m hmem => hu m (hchunk.subset hmem)
    exact wp_mono (fun _ _ h => ⟨fun chunk hc => hsub chunk (.tail _ hc), h⟩) (fun _ _ h => h)
      (wp_lasting cfg hlasting hsafe hu)
  · exact ⟨chunkArray_sublist messages cfg.chunkSize, ht⟩

theorem condenseSummaries_nested (cfg : ConsolidationConfig) (chatId : String) (s : Db) :
    Safe service (rangeSetting cfg) (condenseSummaries cfg chatId) s := by
  refine safe_condenseSummaries id cfg chatId
    (C := fun rows _ c s => Ranged s.toTables c.range c.id ∧ Spans (condensedRange rows) c.range)
    (P := fun rows _ id s => Ranged s.toTables (condensedRange rows) id) ?_ ?_ ?_ ?_ ?_ s
  · exact nested_uses cfg (uses_getProfileIdForChat (fun _ => rfl) chatId) (fun _ ho => ho)
  · intro rows profileId s hok hanswer hmany c hc
    obtain ⟨hperm, hsorted⟩ := hanswer
    have hspans := (condensed_spans_iff hsorted).mpr (hok rows rfl hmany)
    exact ⟨ranged_of_mem (List.mem_filter.mp (hperm.mem_iff.mp hc)).1, hspans c hc⟩
  · intro rows profileId s t hl
    have hlasts : Lasts s.toTables t.toTables := hl.elim id id
    exact ⟨fun c hc => ⟨hc.1.lasts hlasts, hc.2⟩, fun id hp => hp.lasts hlasts⟩
  · intro rows profileId row id s t _ hearliest hlatest hi hx
    have hrange : row.range = condensedRange rows := Prod.ext hearliest hlatest
    refine ⟨exec_lasts hx, nested_step rfl hi hx, ?_⟩
    rw [← hrange]
    exact ranged_insert hx
  · intro rows profileId id c s t hp hc hi hx
    exact ⟨exec_lasts hx, nested_linkSummary hc.2 hp hc.1 hi hx⟩

theorem consolidation_nested (cfg : ConsolidationConfig) (s : Db) :
    Safe service (rangeSetting cfg) (Consolidation.run cfg) s := by
  refine safe_consolidation id cfg ?_ (consolidateSession_nested cfg) ?_ s
  · intro now s t hi hx
    exact ⟨exec_lasts hx, nested_step rfl hi hx⟩
  · intro u
    exact safe_read (exec_reads fun _ _ => rfl) id fun candidates v =>
      safe_forEach (fun candidate w => condenseSummaries_nested cfg candidate.chatId w) candidates v

/-! ## Every run -/

theorem request_nested (cfg : ConsolidationConfig) (maxProfiles : Nat) (r : Request) (s : Db) :
    Safe service (rangeSetting cfg) (r.program maxProfiles) s := by
  refine safe_uses id ?_ (uses_request maxProfiles r) s
  intro o ho s a t hi _ hx
  refine ⟨exec_lasts hx, ?_⟩
  by_cases hl : o.linksRanges = false
  · exact nested_step hl hi hx
  · cases o with
    | clone sourceId name description now => exact nested_clone hi hx
    | linkSummary => cases ho
    | linkMessage => cases ho
    | _ => exact (hl rfl).elim

theorem reflects_linksRanges (o : Op) (h : o.reflects) : o.linksRanges = false := by
  cases o <;> first | rfl | cases h

abbrev rangeCond (cfg : Config) : Cond Op Ans Db Job Arrival where
  start _ := True
  did _ := CondensesToLast cfg.consolidation
  env _ _ := True

def rangeContract (cfg : Config) : Contract (world cfg) (rangeCond cfg) where
  inv s := Nested s.toTables
  rely _ s t := Lasts s.toTables t.toTables
  guar _ s t := Lasts s.toTables t.toTables
  rely_refl _ s := .refl s.toTables
  rely_trans h1 h2 := h1.trans h2
  guar_refl _ s := .refl s.toTables
  compat _ _ _ _ _ h := h
  init := ⟨nofun, nofun⟩
  env s e t hi _ he := by
    have hk := arrive_keeps he
    have hl := arrive_lasts he
    refine ⟨nested_lasts hl (fun e he => Or.inl (hk.parentSources ▸ he)) (fun e he => Or.inl (hk.messageSources ▸ he)) hi, ?_⟩
    exact fun _ => hl
  jobs j s _ _ := by
    cases j with
    | consolidation => exact safe_bind (consolidation_nested cfg.consolidation s) fun _ _ => trivial
    | reflection =>
      exact nested_uses cfg.consolidation (uses_discard (uses_reflection cfg.reflection cfg.numberText)) reflects_linksRanges s
    | request n r => exact request_nested cfg.consolidation cfg.maxProfilesPerUser r s

/-- In every run in which no child of a condensation ends after the last to begin. -/
theorem ranges_nest (cfg : Config) {x : Conf Op Ans Db Job} (h : Reach (world cfg).system (rangeCond cfg).meets x) :
    Nested x.db.toTables :=
  (rangeContract cfg).safe h

/-! ## Concrete runs -/

instance (d0Summaries : List Semantic) : Decidable (LastEndsLast d0Summaries) :=
  inferInstanceAs (Decidable (∀ last ∈ d0Summaries.getLast?, ∀ r ∈ d0Summaries, ∀ l ∈ r.latestAt, _))

instance (cfg : ConsolidationConfig) (d : Did Op Ans) : Decidable (CondensesToLast cfg d) :=
  inferInstanceAs (Decidable (∀ rows ∈ condensation d, _))

theorem a_condensation_nests : ∃ x, Reach (world smallConfig).system (rangeCond smallConfig).meets x ∧
    x.db.parentSources = [(5, 4), (5, 3)] ∧ Nested x.db.toTables := by
  obtain ⟨x, hx, hp⟩ := reach_any (M := (world smallConfig).system) (C := (rangeCond smallConfig).meets)
    (P := fun x => decide (x.db.parentSources = [(5, 4), (5, 3)])) (played (threeMessages ++ wholeJob .consolidation 40))
    (by decide +kernel) (by decide +kernel)
  exact ⟨x, hx, of_decide_eq_true hp, ranges_nest smallConfig hx⟩

/-- A second session of the chat (3), with a message before those of the first and one after. -/
def longSession : Moves :=
  threeMessages ++ [.event (.env (.startSession "tg:1")), .event (.env (.storeMessage (said "d" 0 3))),
    .event (.env (.storeMessage (said "e" 9 3))), .event (.env (.endSession 3))]

/-- Some child ends after its parent. -/
def endsLate (t : Tables) : Bool :=
  t.parentSources.any fun e => t.semantic.any fun p => t.semantic.any fun c => p.id == e.1 && c.id == e.2 &&
    c.latestAt.any fun l => p.latestAt.all (· < l)

theorem not_nested {t : Tables} (h : endsLate t = true) : ¬Nested t := by
  intro hn
  simp only [endsLate, List.any_eq_true, Bool.and_eq_true, beq_iff_eq] at h
  obtain ⟨e, he, p, hp, c, hc, ⟨hpe, hce⟩, hl⟩ := h
  obtain ⟨l, hl, hlate⟩ := (Option.any_eq_true _ _).mp hl
  obtain ⟨b, hb, hle⟩ := (hn.summaries e he p hp c hc hpe hce).2 l hl
  have hb : p.latestAt = some b := hb
  rw [hb] at hlate
  have hlt : b < l := of_decide_eq_true hlate
  omega

/-- The children end at 9, 2 and 3, and their parent at 3. -/
theorem an_earlier_session_ends_later : ∃ x, Reach (world smallConfig).system Free x ∧ ¬Nested x.db.toTables := by
  obtain ⟨x, hx, hp⟩ := reach_any (M := (world smallConfig).system) (C := Free)
    (P := fun x => endsLate x.db.toTables) (played (longSession ++ wholeJob .consolidation 60)) (meets_free _ _)
    (by decide +kernel)
  exact ⟨x, hx, not_nested hp⟩

/-- A model that finds a fact of the type `summary` in each chunk. -/
def summing : Provider where
  text
    | .factExtraction => "[\x7b\"content\": \"x\", \"type\": \"summary\"\x7d]"
    | _ => "[]"
  similarity := 0

/-- The facts are children without a range, and their parent ends at 0. -/
theorem a_fact_has_no_range : ∃ x, Reach (world smallConfig).system Free x ∧ ¬Nested x.db.toTables := by
  obtain ⟨x, hx, hp⟩ := reach_any (M := (world smallConfig).system) (C := Free)
    (P := fun x => endsLate x.db.toTables) (playedBy summing (threeMessages ++ wholeJob .consolidation 60)) (meets_free _ _)
    (by decide +kernel)
  exact ⟨x, hx, not_nested hp⟩

end FlowHelm.Memory
