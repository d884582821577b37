/-
  FlowHelm.Memory.Partition — each message is the source of at most one d0 summary.

  Consolidation selects messages that have no source row, and links them one by one; the
  rows of one run are the only ones being added (`running`), so what it has still to link
  stays unlinked until it does. What goes wrong on the way leaves some messages unlinked,
  for a later run to select.

  - `linkMessages_partitioned`: one chunk, the rest of the session staying unlinked.
  - `partitioned`: the invariant, over every run without a clone.
  - `messages_are_partitioned`: it, and what a run in which nothing fails leaves.
-/
import FlowHelm.Memory.Completion

namespace FlowHelm.Memory

open Js Script Prog Runs

/-- No message has two source rows. -/
def LinkedOnce (t : Tables) : Prop := ∀ a ∈ t.messageSources, ∀ b ∈ t.messageSources, a.2 = b.2 → a = b

structure Partitioned (t : Tables) : Prop where
  once : LinkedOnce t
  summaries : ∀ e ∈ t.messageSources, ∀ r ∈ t.semantic, r.id = e.1 → r.IsD0Summary

/-- Source rows are only removed. -/
def Unlinks (s t : Tables) : Prop := ∀ e ∈ t.messageSources, e ∈ s.messageSources

/-- None of the messages has a source row. -/
def Unlinked (t : Tables) (keys : List MessageKey) : Prop := ∀ e ∈ t.messageSources, e.2 ∉ keys

/-- The row `id`, as long as there is one, is a d0 summary. -/
def Summary (t : Tables) (id : Nat) : Prop := id < t.nextId ∧ ∀ r ∈ t.semantic, r.id = id → r.IsD0Summary

theorem Unlinked.mono {s t : Tables} {keys : List MessageKey} (hu : Unlinks s t) (h : Unlinked s keys) : Unlinked t keys :=
  fun e he => h e (hu e he)

theorem Summary.grows {s t : Tables} {id : Nat} (hg : s.Grows t) (h : Summary s id) : Summary t id := hg.row h

/-- New rows are not the summaries of old source rows. -/
theorem partitioned_grows {s t : Db} (hg : s.Grows t.toTables) (hu : Unlinks s.toTables t.toTables)
    (h : Partitioned s.toTables) : Partitioned t.toTables := by
  refine ⟨fun a ha b hb => h.once a (hu a ha) b (hu b hb), ?_⟩
  intro e he r hr hid
  have hold := s.valid.messageSourceSummary e (hu e he)
  rcases hg.semantic r hr with hr | hr
  · exact h.summaries e (hu e he) r hr hid
  · have := s.valid.semanticDrawn _ hold
    omega

def Op.linksMessages : Op → Bool
  | .linkMessage .. => true
  | .clone .. => true
  | _ => false

theorem effect_messageSources {o : Op} (ho : o.linksMessages = false) (t : Tables) (a : Ans o) :
    Unlinks t (effect o t a) := by
  cases o with
  | linkMessage => cases ho
  | clone => cases ho
  | deleteSummaryMessages => exact fun _ h => (List.mem_filter.mp h).1
  | deleteSemantics => exact fun _ h => (List.mem_filter.mp h).1
  | deleteSemantic => exact fun _ h => (List.mem_filter.mp h).1
  | _ => exact fun _ h => h

theorem exec_unlinks {o : Op} (ho : o.linksMessages = false) {s t : Db} {a : Ans o} (hx : service.exec o s a = some t) :
    Unlinks s.toTables t.toTables := by
  rw [(exec_spec hx).2]
  exact effect_messageSources ho s.toTables a

/-! ## The contract -/

/-- The transaction of `cloneProfile`, come to its end. -/
def clones : Did Op Ans → Bool
  | .ran (.clone ..) _ => true
  | .lost (.clone ..) _ => true
  | _ => false

def partitionRely (j : Job) (s t : Db) : Prop := s.Grows t.toTables ∧ (j = .consolidation → Unlinks s.toTables t.toTables)

def partitionGuar (j : Job) (s t : Db) : Prop := s.Grows t.toTables ∧ (j ≠ .consolidation → Unlinks s.toTables t.toTables)

def partitionSetting (j : Job) : Setting Op Ans Db where
  inv s := Partitioned s.toTables
  rely := partitionRely j
  guar := partitionGuar j
  ok _ d := clones d = false
  total := False
  rely_refl s := ⟨.refl s.toTables, fun _ _ h => h⟩
  rely_trans h1 h2 := ⟨h1.1.trans h2.1, fun hj e he => h1.2 hj e (h2.2 hj e he)⟩
  guar_refl s := ⟨.refl s.toTables, fun _ _ h => h⟩

/-- A statement that links no message, in any job. -/
theorem partitioned_step (j : Job) {o : Op} (ho : o.linksMessages = false) {s t : Db} {a : Ans o}
    (h : Partitioned s.toTables) (hx : service.exec o s a = some t) : partitionGuar j s t ∧ Partitioned t.toTables := by
  have hu := exec_unlinks ho hx
  exact ⟨⟨exec_grows hx, fun _ => hu⟩, partitioned_grows (exec_grows hx) hu h⟩

theorem partitioned_uses (j : Job) {α : Type} {p : Script α} {P : Op → Prop} (hp : p.Uses P)
    (hP : ∀ o, P o → o.linksMessages = false) (s : Db) : Safe service (partitionSetting j) p s :=
  safe_uses id (fun o ho _ _ _ hi _ hx => partitioned_step j (hP o ho) hi hx) hp s

/-! ## Consolidation -/

/-- A program of consolidation that links no message leaves the others unlinked. -/
theorem wp_unlinked {α : Type} {p : Script α} {P : Op → Prop} (hp : p.Uses P) (hP : ∀ o, P o → o.linksMessages = false)
    {keys : List MessageKey} {s : Db} (hs : Unlinked s.toTables keys) :
    wp service (partitionSetting .consolidation) p (fun _ t => Unlinked t.toTables keys)
      (fun _ t => Unlinked t.toTables keys) s := by
  have hkeep : ∀ u v : Db, partitionRely .consolidation u v → Unlinked u.toTables keys → Unlinked v.toTables keys :=
    fun _ _ hr h => h.mono (hr.2 rfl)
  refine wp_uses id hkeep ?_ hp hs
  intro o ho s a t hi hA _ hx
  obtain ⟨hg, hi'⟩ := partitioned_step .consolidation (hP o ho) hi hx
  exact ⟨hg, hi', hA.mono (exec_unlinks (hP o ho) hx)⟩

/-- The source row of a message that has none. -/
theorem partitioned_link {s t : Db} {summaryId : Nat} {key : MessageKey} {rest : List MessageKey}
    (h : Partitioned s.toTables) (hsum : Summary s.toTables summaryId) (hkey : Unlinked s.toTables [key])
    (hx : service.exec (.linkMessage summaryId key rest) s () = some t) : Partitioned t.toTables := by
  have ht := (exec_spec hx).2
  have hsources : t.messageSources = (summaryId, key) :: s.messageSources := by rw [ht]; rfl
  have hrows : t.semantic = s.semantic := by rw [ht]; rfl
  refine ⟨?_, ?_⟩
  · intro a ha b hb hab
    rw [hsources] at ha hb
    rcases List.mem_cons.mp ha with rfl | ha <;> rcases List.mem_cons.mp hb with rfl | hb
    · rfl
    · exact (hkey b hb (by simp [← hab])).elim
    · exact (hkey a ha (by simp [hab])).elim
    · exact h.once a ha b hb hab
  · intro e he r hr hid
    rw [hsources] at he
    rw [hrows] at hr
    rcases List.mem_cons.mp he with rfl | he
    · exact hsum.2 r hr hid
    · exact h.summaries e he r hr hid

theorem linkMessages_partitioned {summaryId : Nat} {chunk : List Working} {later : List MessageKey} {s : Db}
    (hsum : Summary s.toTables summaryId) (hfree : Unlinked s.toTables (chunk.map Working.key ++ later))
    (hd : (chunk.map Working.key ++ later).Nodup) :
    wp service (partitionSetting .consolidation) (linkMessages summaryId chunk)
      (fun _ t => Unlinked t.toTables later) (fun _ _ => True) s := by
  induction chunk generalizing s with
  | nil => exact hfree
  | cons msg rest ih =>
    obtain ⟨hmsg, hrest⟩ := List.nodup_cons.mp hd
    refine wp_perform id (fun _ _ _ => trivial) ?_
    rintro s₁ _ t ⟨hg, hu⟩ hi hx _
    have hfree₁ := hfree.mono (hu rfl)
    have hkey : Unlinked s₁.toTables [msg.key] := by
      intro e he hmem
      exact hfree₁ e he (List.mem_singleton.mp hmem ▸ .head _)
    have hsum₁ := hsum.grows hg
    refine ⟨⟨exec_grows hx, fun h => (h rfl).elim⟩, partitioned_link hi hsum₁ hkey hx, fun _ => ?_⟩
    refine ih (hsum₁.grows (exec_grows hx)) ?_ hrest
    intro e he hmem
    rw [(exec_spec hx).2] at he
    rcases List.mem_cons.mp he with rfl | he
    · exact hmsg hmem
    · exact hfree₁ e he (.tail _ hmem)

theorem extracts_linksMessages (o : Op) (h : o.extracts) : o.linksMessages = false := by
  cases o <;> first | rfl | cases h

theorem consolidateChunk_partitioned (cfg : ConsolidationConfig) (sessionId profileId : Nat) {chunk : List Working}
    {later : List MessageKey} {s : Db} (hfree : Unlinked s.toTables (chunk.map Working.key ++ later))
    (hd : (chunk.map Working.key ++ later).Nodup) :
    wp service (partitionSetting .consolidation) (consolidateChunk cfg sessionId profileId chunk)
      (fun _ t => Unlinked t.toTables later) (fun _ _ => True) s := by
  refine wp_read (exec_reads fun _ _ => rfl) id (fun _ _ _ => trivial) ?_
  intro s₁ summary hr₁ _ _ _
  refine wp_read (exec_reads fun _ _ => rfl) id (fun _ _ _ => trivial) ?_
  intro s₂ _ hr₂ _ _ _
  refine wp_read (exec_reads fun _ _ => rfl) id (fun _ _ _ => trivial) ?_
  intro s₃ now hr₃ _ _ _
  refine wp_perform id (fun _ _ _ => trivial) ?_
  intro s₄ summaryId t hr₄ hi hx _
  have hfree₄ := (((hfree.mono (hr₁.2 rfl)).mono (hr₂.2 rfl)).mono (hr₃.2 rfl)).mono (hr₄.2 rfl)
  obtain ⟨hg, hi'⟩ := partitioned_step .consolidation rfl hi hx
  refine ⟨hg, hi', fun _ => ?_⟩
  have hsum : Summary t.toTables summaryId := by
    have hmem := mem_insertSemantic hx
    refine ⟨t.valid.semanticDrawn _ (List.mem_map_of_mem hmem), fun r hr hid => ?_⟩
    rw [t.semantic_unique hr hmem hid]
    exact ⟨rfl, rfl⟩
  refine wp_bind (wp_mono ?_ (fun _ _ h => h)
    (linkMessages_partitioned hsum (hfree₄.mono (exec_unlinks rfl hx)) hd))
  intro _ u hu
  exact wp_mono (fun _ _ h => h) (fun _ _ _ => trivial)
    (wp_unlinked (uses_extractFacts _ sessionId profileId) extracts_linksMessages hu)

theorem consolidateSession_partitioned (cfg : ConsolidationConfig) (sessionId : Nat) (chatId : String) (s : Db) :
    Safe service (partitionSetting .consolidation) (consolidateSession cfg sessionId chatId) s := by
  refine wp_read (exec_reads fun _ _ => rfl) id (fun _ _ _ => trivial) ?_
  intro s₁ messages _ _ hx _
  have hperm := (exec_spec hx).1.1
  split
  · trivial
  have hfree : Unlinked s₁.toTables (messages.map Working.key) := by
    intro e he hmem
    obtain ⟨m, hm, hkey⟩ := List.mem_map.mp hmem
    have hun := (List.mem_filter.mp (hperm.mem_iff.mp hm)).2
    have hlinked : s₁.linked m := List.any_eq_true.mpr ⟨e, he, by simp [hkey]⟩
    simp [hlinked] at hun
  have hd : (messages.map Working.key).Nodup :=
    (hperm.map _).nodup_iff.mpr (s₁.valid.workingKey.sublist (List.filter_sublist.map _))
  refine wp_bind (wp_mono ?_ (fun _ _ _ => trivial)
    (wp_unlinked (uses_getProfileIdForChat (fun _ => rfl) chatId) (fun _ ho => ho) hfree))
  intro profileId t ht
  refine wp_mono (fun _ _ _ => trivial) (fun _ _ h => h) (wp_forEach (fun rest (u : Db) =>
    Unlinked u.toTables (rest.flatten.map Working.key) ∧ (rest.flatten.map Working.key).Nodup) ?_ ?_)
  · rintro chunk rest u ⟨hu, hnd⟩
    rw [List.flatten_cons, List.map_append] at hu hnd
    exact wp_mono (fun _ _ h => ⟨h, hnd.of_append_right⟩) (fun _ _ h => h)
      (consolidateChunk_partitioned cfg sessionId profileId hu hnd)
  · rw [chunkArray_flatten messages cfg.chunk_pos]
    exact ⟨ht, hd⟩

theorem condenses_linksMessages (o : Op) (h : o.condenses) : o.linksMessages = false := by
  cases o <;> first | rfl | cases h

theorem consolidation_partitioned (cfg : ConsolidationConfig) (s : Db) :
    Safe service (partitionSetting .consolidation) (Consolidation.run cfg) s := by
  refine safe_consolidation id cfg ?_ (consolidateSession_partitioned cfg) ?_ s
  · intro now s t hi hx
    exact partitioned_step .consolidation rfl hi hx
  · exact partitioned_uses .consolidation (uses_condenseIfReady cfg) condenses_linksMessages

/-! ## Every run -/

abbrev noClones : Cond Op Ans Db Job Arrival where
  start _ := True
  did _ d := clones d = false
  env _ _ := True

theorem request_partitioned (j : Job) (maxProfiles : Nat) (r : Request) (s : Db) :
    Safe service (partitionSetting j) (r.program maxProfiles) s := by
  refine safe_uses id ?_ (uses_request maxProfiles r) s
  intro o ho s a t hi hok hx
  by_cases hl : o.linksMessages = false
  · exact partitioned_step j hl hi hx
  · cases o with
    | clone => rcases hok with h | h <;> cases h
    | linkMessage => cases ho
    | _ => exact (hl rfl).elim

theorem reflects_linksMessages (o : Op) (h : o.reflects) : o.linksMessages = false := by
  cases o <;> first | rfl | cases h

def partitionContract (cfg : Config) : Contract (world cfg) noClones where
  inv s := Partitioned s.toTables
  rely := partitionRely
  guar := partitionGuar
  rely_refl j := (partitionSetting j).rely_refl
  rely_trans {j} := (partitionSetting j).rely_trans
  guar_refl j := (partitionSetting j).guar_refl
  compat i j s t hij h := ⟨h.1, fun hj => h.2 fun hi => hij (hi.trans hj.symm)⟩
  init := ⟨nofun, nofun⟩
  env s e t hi _ he := by
    have hk := arrive_keeps he
    have hg := arrive_grows he
    have hu : Unlinks s.toTables t.toTables := fun e he => hk.messageSources ▸ he
    exact ⟨partitioned_grows hg hu hi, fun _ => ⟨hg, fun _ => hu⟩⟩
  jobs j s _ _ := by
    cases j with
    | consolidation => exact safe_bind (consolidation_partitioned cfg.consolidation s) fun _ _ => trivial
    | reflection =>
      exact partitioned_uses .reflection (uses_discard (uses_reflection cfg.reflection cfg.numberText))
        reflects_linksMessages s
    | request n r => exact request_partitioned (.request n r) cfg.maxProfilesPerUser r s

theorem partitioned (cfg : Config) {x : Conf Op Ans Db Job} (h : Reach (world cfg).system noClones.meets x) :
    Partitioned x.db.toTables :=
  (partitionContract cfg).safe h

theorem consolidates_clones {d : Did Op Ans} (h : d.op.consolidates) : clones d = false := by
  cases d with
  | refused o => rfl
  | ran o a => cases o <;> first | rfl | cases h
  | lost o a => cases o <;> first | rfl | cases h

theorem partitioned_play (cfg : ConsolidationConfig) {s t : Db} {q : Script Nat} {tr : List (Did Op Ans)}
    (h : Partitioned s.toTables) (hp : play service (Consolidation.run cfg) s tr = some (q, t)) :
    Partitioned t.toTables := by
  have hok : ∀ d ∈ tr, ∀ u, (partitionSetting .consolidation).ok u d := fun d hd _ =>
    consolidates_clones (play_uses (uses_consolidation cfg) hp d hd)
  exact (wp_play (consolidation_partitioned cfg s) h hok hp).1

/-- The message is a source of one d0 summary and of nothing else. -/
def LinkedToOne (t : Tables) (m : Working) : Prop :=
  ∃ r ∈ t.semantic, r.IsD0Summary ∧ (r.id, m.key) ∈ t.messageSources ∧
    ∀ e ∈ t.messageSources, e.2 = m.key → e.1 = r.id

theorem linkedToOne {t : Db} (h : Partitioned t.toTables) {m : Working} (hm : t.linked m) : LinkedToOne t.toTables m := by
  obtain ⟨e, he, hk⟩ := List.any_eq_true.mp hm
  have hk : e.2 = m.key := beq_iff_eq.mp hk
  obtain ⟨r, hr, hid⟩ := List.mem_map.mp (t.valid.messageSourceSummary e he)
  have heq : e = (r.id, m.key) := by rw [hid, ← hk]
  refine ⟨r, hr, h.summaries e he r hr hid, heq ▸ he, fun e' he' hk' => ?_⟩
  rw [h.once e' he' e he (hk'.trans hk.symm), hid]

/-- In every state, and after a run from there in which nothing fails. -/
theorem messages_are_partitioned (cfg : Config) {x : Conf Op Ans Db Job}
    (h : Reach (world cfg).system noClones.meets x) :
    LinkedOnce x.db.toTables ∧ Returns service (Consolidation.run cfg.consolidation) (fun _ t =>
      ∀ session ∈ selectedSessions cfg.consolidation x.db.toTables, ∀ m ∈ x.db.working,
        m.sessionId = some session.id → LinkedToOne t.toTables m) x.db := by
  have hpart := partitioned cfg h
  obtain ⟨hends, hall⟩ := must_returns (must_run cfg.consolidation x.db)
  refine ⟨hpart.once, hends, fun tr q t hran hq hp => ?_⟩
  obtain ⟨n, hn, _, hl⟩ := hall tr q t hran hq hp
  have hpart' := partitioned_play cfg.consolidation hpart hp
  exact ⟨n, hn, fun session hs m hm hsession => linkedToOne hpart' (hl session hs m hm hsession)⟩

theorem a_run_links_three_messages : ∃ x tr n t, Reach (world smallConfig).system noClones.meets x ∧
    x.db.messageSources = [] ∧ x.db.working.length = 3 ∧
    play service (Consolidation.run smallConfig.consolidation) x.db tr = some (.ret n, t) ∧
    ∀ m ∈ x.db.working, LinkedToOne t.toTables m := by
  obtain ⟨x, hx, hp⟩ := reach_any (M := (world smallConfig).system) (C := noClones.meets)
    (P := fun x => decide (x.db.messageSources = [] ∧ x.db.working.length = 3 ∧ ∀ m ∈ x.db.working,
      m.sessionId ∈ (selectedSessions smallConfig.consolidation x.db.toTables).map fun (session : Session) => some session.id))
    (played threeMessages) (by decide) (by decide)
  obtain ⟨hnone, hthree, hall⟩ := of_decide_eq_true hp
  obtain ⟨_, ⟨tr, q, t, hran, hq, hplay⟩, hall'⟩ := messages_are_partitioned smallConfig hx
  obtain ⟨n, rfl, hl⟩ := hall' tr q t hran hq hplay
  refine ⟨x, tr, n, t, hx, hnone, hthree, hplay, fun m hm => ?_⟩
  obtain ⟨session, hs, hid⟩ := List.mem_map.mp (hall m hm)
  exact hl session hs m hm hid.symm

end FlowHelm.Memory
