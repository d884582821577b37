/-
  FlowHelm.Memory.Provenance — whether the sources of a generated entry were in the text
  it was made from.

  A generation formats the rows it has selected, joins the lines, cuts the text to its
  budget and sends it; the new entries are linked to all the rows. So a source is one of
  the rows selected last, and the text sent last is theirs, but a row whose line ends
  beyond the budget was not sent whole, or not at all.

  - `shown_sent`: which lines the cut leaves.
  - `sources_were_sent`: every link any job makes, in every run.
  - `an_entry_not_sent_is_linked`: a source of which nothing was sent.
-/
import FlowHelm.Lib.History
import FlowHelm.Memory.Footprint

namespace FlowHelm.Memory

open Js Script Prog Runs

abbrev Past := List (Done Op Ans)

/-- The rows a generation has selected, by id and line, and how much of their text it sends. -/
structure Selection where
  rows : List (Nat × JsString)
  budget : Nat

namespace Selection

variable (sel : Selection)

def ids : List Nat := sel.rows.map (·.1)

def lines : List JsString := sel.rows.map (·.2)

/-- What is sent of the rows. -/
def sent : JsString := (entriesText sel.lines).take sel.budget

/-- The text up to the end of line `k`. -/
def through (k : Nat) : JsString := entriesText (sel.lines.take (k + 1))

/-- Line `k` is in `text`, whole and in its place. -/
def Shown (k : Nat) (text : JsString) : Prop := sel.through k <+: text

theorem shown_sent (k : Nat) : sel.Shown k sel.sent ↔ (sel.through k).length ≤ sel.budget := by
  unfold Shown sent
  rw [List.prefix_take_iff]
  exact and_iff_right (join_take _ sel.lines (k + 1))

end Selection

theorem truncateToTokens_eq (text : JsString) (maxTokens : Nat) :
    truncateToTokens text maxTokens = text.take (maxTokens * 4) := by
  unfold truncateToTokens
  simp only
  split
  · rename_i h
    exact (List.take_of_length_le h).symm
  · rfl

/-! ## What an operation says of it -/

section Past

variable (cfg : ReflectionConfig) (numberText : ℚ → JsString)

/-- T2 entries, for an entry of depth 0. -/
def ofEntries (rows : List Semantic) : Selection where
  rows := rows.map fun e => (e.id, entryLine numberText e)
  budget := cfg.maxInputTokens * 4

/-- Entries of one depth, for an entry of the next. -/
def ofMetas (depth : Nat) (rows : List Meta) : Selection where
  rows := rows.map fun m => (m.id, metaLine m)
  budget := metaMaxTokens cfg (depth + 1) * 4 * 4

theorem ofEntries_eq (rows : List Semantic) : (ofEntries cfg numberText rows).ids = rows.map (·.id) ∧
    (ofEntries cfg numberText rows).sent =
      truncateToTokens (entriesText (rows.map (entryLine numberText))) cfg.maxInputTokens := by
  rw [truncateToTokens_eq, Selection.ids, Selection.sent, Selection.lines, ofEntries, List.map_map, List.map_map]
  exact ⟨rfl, rfl⟩

theorem ofMetas_eq (depth : Nat) (rows : List Meta) : (ofMetas cfg depth rows).ids = rows.map (·.id) ∧
    (ofMetas cfg depth rows).sent =
      truncateToTokens (entriesText (rows.map metaLine)) (metaMaxTokens cfg (depth + 1) * 4) := by
  rw [truncateToTokens_eq, Selection.ids, Selection.sent, Selection.lines, ofMetas, List.map_map, List.map_map]
  exact ⟨rfl, rfl⟩

def selects : Done Op Ans → Option Selection
  | ⟨.recentEntries .., rows⟩ => some (ofEntries cfg numberText rows)
  | ⟨.uncondensedMetas _ _ depth, rows⟩ => some (ofMetas cfg depth rows)
  | _ => none

/-- The text given to the provider. -/
def sends : Done Op Ans → Option JsString
  | ⟨.summarize content .., _⟩ => some content
  | _ => none

/-- The entry linked to as a source. -/
def sourceLinked : Done Op Ans → Option Nat
  | ⟨.linkSource _ semanticId, _⟩ => some semanticId
  | ⟨.linkMeta _ childId, _⟩ => some childId
  | _ => none

def selected (past : Past) : Option Selection := past.findSome? (selects cfg numberText)

def lastSent (past : Past) : Option JsString := past.findSome? sends

/-- What was selected last is what was sent last. -/
def Sent (sel : Selection) (past : Past) : Prop :=
  selected cfg numberText past = some sel ∧ lastSent past = some sel.sent

/-- A source is linked only from rows selected and sent. -/
def FromSelection (past : Past) (x : Done Op Ans) : Prop :=
  ∀ id, sourceLinked x = some id → ∃ sel, Sent cfg numberText sel past ∧ id ∈ sel.ids

/-! ## The job -/

abbrev selecting : Setting Op Ans Past := following (FromSelection cfg numberText)

variable {cfg numberText}

/-- An operation that links nothing. -/
theorem selected_other {o : Op} (ho : ∀ a, sourceLinked ⟨o, a⟩ = none) (past : Past) (a : Ans o) :
    FromSelection cfg numberText past ⟨o, a⟩ := by
  intro id h
  rw [ho a] at h
  cases h

/-- The statements of `reflectOne` and `condenseOne`. -/
def LinksTo (ids : List Nat) (o : Op) : Prop := o.reflectsOn ids ∨ o.condensesOn ids

theorem linksTo_step {sel : Selection} {o : Op} (ho : LinksTo sel.ids o) {past : Past} (h : Sent cfg numberText sel past)
    (a : Ans o) : FromSelection cfg numberText past ⟨o, a⟩ ∧ Sent cfg numberText sel (⟨o, a⟩ :: past) := by
  cases o with
  | linkSource metaId semanticId =>
    refine ⟨fun id hid => ⟨sel, h, ?_⟩, h⟩
    cases hid
    rcases ho with ho | ho
    · exact List.contains_iff_mem.mp ho
    · cases ho
  | linkMeta parentId childId =>
    refine ⟨fun id hid => ⟨sel, h, ?_⟩, h⟩
    cases hid
    rcases ho with ho | ho
    · cases ho
    · exact List.contains_iff_mem.mp ho
  | embed text => exact ⟨selected_other (fun _ => rfl) past a, h⟩
  | now => exact ⟨selected_other (fun _ => rfl) past a, h⟩
  | nearestMeta profileId type depth => exact ⟨selected_other (fun _ => rfl) past a, h⟩
  | similarity metaId => exact ⟨selected_other (fun _ => rfl) past a, h⟩
  | setConfidence metaId confidence => exact ⟨selected_other (fun _ => rfl) past a, h⟩
  | insertMeta row => exact ⟨selected_other (fun _ => rfl) past a, h⟩
  | _ => rcases ho with ho | ho <;> cases ho

/-- A prompt over the rows selected, whose answer is stored entry by entry. -/
theorem wp_prompt {sel : Selection} {past : Past} (h : selected cfg numberText past = some sel) {maxTokens : Nat}
    {prompt : Prompt} {store : Json → Script Nat} (hstore : ∀ reflection, (store reflection).Uses (LinksTo sel.ids)) :
    wp recording (selecting cfg numberText)
      (Prog.attempt
        (do
          let result ← await (.summarize sel.sent maxTokens prompt)
          let reflections ← parseReflections result
          forSum reflections store)
        fun _ => return 0)
      (fun _ t => selected cfg numberText t = some sel) (fun _ t => selected cfg numberText t = some sel) past := by
  refine wp_attempt (wp_record (selected_other (fun _ => rfl) past) (fun f => ⟨h, fun _ => h⟩) fun result => ?_)
  have huses : ((parseReflections result).bind fun reflections => forSum reflections store).Uses (LinksTo sel.ids) :=
    uses_bind (uses_parseReflections result) fun reflections => uses_forSum hstore reflections
  refine wp_mono (fun _ _ hsent => hsent.1) (fun _ _ hsent => hsent.1)
    (wp_uses (A := Sent cfg numberText sel) id ?_ ?_ huses ⟨h, rfl⟩)
  · intro s t hst hs
    cases hst
    exact hs
  · intro o ho s a t hi hs _ ht
    cases ht
    obtain ⟨hsel, hsent⟩ := linksTo_step ho hs a
    exact ⟨trivial, ⟨hsel, hi⟩, hsent⟩

variable (cfg numberText)

theorem generateD0_selects (profileId : Nat) (past : Past) :
    Safe recording (selecting cfg numberText) (generateD0 cfg numberText profileId) past := by
  refine safe_record (selected_other (fun _ => rfl) past) fun stateRow => ?_
  refine safe_record (selected_other (fun _ => rfl) _) fun recentEntries => ?_
  split
  · trivial
  · obtain ⟨hids, hsent⟩ := ofEntries_eq cfg numberText recentEntries
    simp only [← hids, ← hsent]
    refine wp_mono (fun _ _ _ => trivial) (fun _ _ _ => trivial)
      (wp_forSum (E := fun _ t => selected cfg numberText t = some (ofEntries cfg numberText recentEntries))
        (fun _ t => selected cfg numberText t = some (ofEntries cfg numberText recentEntries)) ?_ rfl)
    intro type _ t ht
    exact wp_prompt ht fun reflection =>
      (uses_reflectOne cfg type _ profileId 0 reflection).mono fun _ ho => Or.inl ho

theorem condenseMetaType_selects (type : MetaMemoryType) (sourceDepth profileId : Nat) (past : Past) :
    Safe recording (selecting cfg numberText) (condenseMetaType cfg type sourceDepth (sourceDepth + 1) profileId) past := by
  refine safe_record (selected_other (fun _ => rfl) past) fun uncondensed => ?_
  split
  · trivial
  · obtain ⟨hids, hsent⟩ := ofMetas_eq cfg sourceDepth uncondensed
    simp only [← hids, ← hsent]
    have hsel : selected cfg numberText (⟨.uncondensedMetas profileId type sourceDepth, uncondensed⟩ :: past) =
        some (ofMetas cfg sourceDepth uncondensed) := rfl
    refine wp_mono (fun _ _ _ => trivial) (fun _ _ _ => trivial) (wp_prompt hsel fun reflection => ?_)
    exact (uses_condenseOne type _ profileId _ _ reflection).mono fun _ ho => Or.inr ho

theorem condenseDepths_selects (profileId : Nat) {ds : List Nat} (hds : ∀ d ∈ ds, 1 ≤ d) (past : Past) :
    Safe recording (selecting cfg numberText) (condenseDepths cfg profileId ds) past := by
  induction ds generalizing past with
  | nil => trivial
  | cons d ds ih =>
    obtain ⟨sourceDepth, rfl⟩ := Nat.exists_eq_add_of_le' (hds d (.head _))
    refine safe_bind (safe_forSum (fun type t => ?_) allTypes past) fun created t => ?_
    · exact condenseMetaType_selects cfg numberText type sourceDepth profileId t
    split
    · trivial
    · exact safe_bind (ih (fun d hd => hds d (.tail _ hd)) t) fun _ _ => trivial

/-- A program none of whose operations links a source. -/
theorem safe_unlinked {P : Op → Prop} (hP : ∀ o, P o → ∀ a, sourceLinked ⟨o, a⟩ = none) {α : Type} {p : Script α}
    (hp : p.Uses P) (past : Past) : Safe recording (selecting cfg numberText) p past := by
  refine safe_uses id ?_ hp past
  intro o ho s a t hi _ ht
  cases ht
  exact ⟨trivial, selected_other (hP o ho) s a, hi⟩

theorem reflection_selects (past : Past) :
    Safe recording (selecting cfg numberText) (Reflection.run cfg numberText) past := by
  unfold Reflection.run
  split
  · trivial
  refine safe_record (selected_other (fun _ => rfl) past) fun profiles => ?_
  refine safe_bind (safe_forSum (fun profileId t => ?_) profiles _) fun total u => ?_
  · refine safe_bind (generateD0_selects cfg numberText profileId t) fun generated u => ?_
    refine safe_bind (condenseDepths_selects cfg numberText profileId (depths_pos cfg) u) fun condensed v => ?_
    have hcascade : ∀ o : Op, o.cascades = true → ∀ a, sourceLinked ⟨o, a⟩ = none := by
      intro o ho a
      cases o <;> first | rfl | cases ho
    split
    · refine safe_bind (safe_unlinked cfg numberText hcascade (uses_runContradictionCascade cfg profileId) v) ?_
      exact fun _ _ => trivial
    · trivial
  · refine safe_record (selected_other (fun _ => rfl) u) fun now => ?_
    exact safe_record (selected_other (fun _ => rfl) _) fun _ => trivial

end Past

/-! ## Every run -/

theorem job_selects (cfg : Config) (j : Job) :
    Safe recording (selecting cfg.reflection cfg.numberText) (j.program cfg) [] := by
  cases j with
  | consolidation =>
    refine safe_unlinked _ _ (fun o ho a => ?_) (uses_discard (uses_consolidation cfg.consolidation)) []
    cases o <;> first | rfl | cases ho
  | reflection => exact safe_bind (reflection_selects cfg.reflection cfg.numberText []) fun _ _ => trivial
  | request number r =>
    refine safe_unlinked _ _ (fun o ho a => ?_) (uses_request cfg.maxProfilesPerUser r) []
    cases o <;> first | rfl | cases ho

/-- A source is one of the entries selected for the text that was sent last, and its line is
    in that text just if it ends within the budget. -/
theorem sources_were_sent (cfg : Config) {es : List (Event Op Ans Job Arrival)} {j : Job} {d : Did Op Ans}
    {y : Conf Op Ans Db Job} (he : exec (world cfg).system (world cfg).system.init (es ++ [.step j d]) = some y)
    {x : Done Op Ans} (hx : x ∈ d.done) {id : Nat} (hid : sourceLinked x = some id) :
    ∃ sel text, selected cfg.reflection cfg.numberText (history j es) = some sel ∧ lastSent (history j es) = some text ∧
      id ∈ sel.ids ∧ ∀ k, sel.ids[k]? = some id → (sel.Shown k text ↔ (sel.through k).length ≤ sel.budget) := by
  obtain ⟨sel, ⟨hsel, hsent⟩, hmem⟩ := history_step (job_selects cfg j) he x hx id hid
  exact ⟨sel, sel.sent, hsel, hsent, hmem, fun k _ => sel.shown_sent k⟩

/-! ## Concrete runs -/

/-- The start of a reflection run, up to its first link. -/
def untilLinked (stored : Moves) : List (Event Op Ans Job Arrival) :=
  playedBy musing (stored ++ .event (.start .reflection) :: List.replicate 8 (.next .reflection))

theorem a_short_entry_is_sent : ∃ y text k, ∃ sel : Selection,
    exec (world smallConfig).system (world smallConfig).system.init
      (untilLinked twoEntries ++ [.step .reflection (.ran (.linkSource 3 2) ())]) = some y ∧
    selected smallConfig.reflection smallConfig.numberText (history .reflection (untilLinked twoEntries)) = some sel ∧
    lastSent (history .reflection (untilLinked twoEntries)) = some text ∧ sel.ids[k]? = some 2 ∧ sel.Shown k text := by
  have hrun : (exec (world smallConfig).system (world smallConfig).system.init
      (untilLinked twoEntries ++ [.step .reflection (.ran (.linkSource 3 2) ())])).isSome = true := by decide +kernel
  obtain ⟨y, hy⟩ := Option.isSome_iff_exists.mp hrun
  obtain ⟨sel, text, hsel, hsent, _, hshown⟩ := sources_were_sent smallConfig hy (.head _) rfl
  have hfits : (selected smallConfig.reflection smallConfig.numberText (history .reflection (untilLinked twoEntries))).any
      (fun sel => decide (sel.ids[0]? = some 2 ∧ (sel.through 0).length ≤ sel.budget)) = true := by decide +kernel
  rw [hsel] at hfits
  obtain ⟨hfirst, hle⟩ := of_decide_eq_true hfits
  exact ⟨y, text, 0, sel, hy, hsel, hsent, hfirst, (hshown 0 hfirst).mpr hle⟩

/-- "b", and after it an entry as long as the budget. -/
def aLongEntry : Moves :=
  request 0 (.createProfile "home" none) ++ .event (.env .tick) :: request 1 (stored "b") ++ .event (.env .tick) ::
    request 2 (.storeSemanticMemory ⟨List.replicate 4000 97, .fact, none, none, none, 0⟩) ++ [.event (.env .tick)]

/-- The run up to the link to "b", the later entry being the first line. -/
def untilCut : List (Event Op Ans Job Arrival) :=
  untilLinked aLongEntry ++ [.step .reflection (.ran (.linkSource 3 2) ())]

theorem an_entry_not_sent_is_linked : ∃ y text r,
    exec (world smallConfig).system (world smallConfig).system.init
      (untilCut ++ [.step .reflection (.ran (.linkSource 3 1) ())]) = some y ∧
    lastSent (history .reflection untilCut) = some text ∧ r ∈ y.db.semantic ∧ r.id = 1 ∧ (3, 1) ∈ y.db.metaSources ∧
    ¬r.content <:+: text := by
  have hrun : (exec (world smallConfig).system (world smallConfig).system.init
      (untilCut ++ [.step .reflection (.ran (.linkSource 3 1) ())])).any
      (fun y => decide ((∃ r ∈ y.db.semantic, r.id = 1 ∧ r.content = [98]) ∧ (3, 1) ∈ y.db.metaSources)) = true := by
    decide +kernel
  have hsent : (lastSent (history .reflection untilCut)).any (fun text => decide (98 ∉ text)) = true := by decide +kernel
  obtain ⟨y, hy, hlinked⟩ := (Option.any_eq_true _ _).mp hrun
  obtain ⟨text, htext, hnot⟩ := (Option.any_eq_true _ _).mp hsent
  obtain ⟨⟨r, hr, hid, hcontent⟩, hedge⟩ := of_decide_eq_true hlinked
  refine ⟨y, text, r, hy, htext, hr, hid, hedge, fun hin => ?_⟩
  rw [hcontent] at hin
  exact of_decide_eq_true hnot (hin.subset (.head _))

end FlowHelm.Memory
