/-
  FlowHelm.Memory.Footprint — which statements each part of the programs can come to, so
  that a property another statement could break need not be proved of it.

  - `uses_consolidateSession` / `uses_condenseIfReady`: the two halves of consolidation.
  - `uses_generateD0` / `uses_condenseDepths` / `uses_runContradictionCascade`: the phases
    of reflection.
  - `uses_request`: the requests; `uses_consolidation` / `uses_reflection`: whole jobs.
  - `safe_consolidation` / `safe_condenseSummaries`: what makes a consolidation run safe.
  - `safe_adjustNearest` / `wp_cascadeParent`: the two programs that write a confidence.
-/
import FlowHelm.Memory.World

namespace FlowHelm.Memory

open Js Script Prog

namespace Op

/-- Statements of `extractFacts`: what it inserts is a summary of no messages. -/
def extracts : Op → Bool
  | .summarize .. | .embed _ | .now => true
  | .insertSemantic row => row.chunk.isEmpty
  | _ => false

/-- Statements of `consolidateSession`. -/
def summarizes : Op → Bool
  | .summarize .. | .embed _ | .now | .chatProfile _ | .unlinkedMessages _ | .insertSemantic _ | .linkMessage .. => true
  | _ => false

/-- Statements of `condenseIfReady`. -/
def condenses : Op → Bool
  | .summarize .. | .embed _ | .now | .chatProfile _ | .condensationCandidates _ | .uncondensedSummaries ..
  | .insertSemantic _ | .linkSummary .. => true
  | _ => false

/-- Statements of a consolidation run. -/
def consolidates (o : Op) : Bool :=
  o.summarizes || o.condenses || o matches .countUnconsolidated || o matches .sessionsToConsolidate ||
    o matches .setLastConsolidation _

/-- Statements of `adjustNearest`. -/
def adjusts : Op → Bool
  | .nearestMeta .. | .similarity _ | .setConfidence .. => true
  | _ => false

/-- Statements of `reflectOne`, which links to the entries `sourceIds`. -/
def reflectsOn (sourceIds : List Nat) : Op → Bool
  | .embed _ | .now | .nearestMeta .. | .similarity _ | .setConfidence .. | .insertMeta _ => true
  | .linkSource _ sourceId => sourceIds.contains sourceId
  | _ => false

/-- Statements of `generateD0`. -/
def generates : Op → Bool
  | .summarize .. | .embed _ | .now | .lastReflectionAt | .recentEntries .. | .nearestMeta .. | .similarity _
  | .setConfidence .. | .insertMeta _ | .linkSource .. => true
  | _ => false

/-- Statements of `condenseOne`, which links to the entries `childIds`. -/
def condensesOn (childIds : List Nat) : Op → Bool
  | .embed _ | .now | .insertMeta _ => true
  | .linkMeta _ childId => childIds.contains childId
  | _ => false

/-- Statements of `condenseMeta`. -/
def condensesMeta : Op → Bool
  | .summarize .. | .embed _ | .now | .uncondensedMetas .. | .insertMeta _ | .linkMeta .. => true
  | _ => false

/-- Statements of `runContradictionCascade`. -/
def cascades : Op → Bool
  | .parentMetas .. | .childCounts _ | .setConfidence .. => true
  | _ => false

/-- Statements of a reflection run. -/
def reflects (o : Op) : Bool :=
  o.generates || o.condensesMeta || o.cascades || o matches .profileIds || o matches .setLastReflection _

/-- Statements of the requests. -/
def requested : Op → Bool
  | .now | .embed _ | .getProfile _ | .countProfiles | .insertProfile .. | .makeDefault .. | .setChatProfile .. | .clone ..
  | .countChats _ | .chatProfile _ | .insertSemantic _ | .deleteMetaSourcesByMeta _ | .deleteMetaSourcesBySemantic _
  | .deleteSummaryParents _ | .deleteSummaryMessages _ | .deleteMetas _ | .deleteSemantics _ | .deleteProfileRow _
  | .deleteSemantic _ => true
  | _ => false

theorem adjusts_reflectsOn (sourceIds : List Nat) (o : Op) (h : o.adjusts) : o.reflectsOn sourceIds := by
  cases o <;> first | rfl | cases h

theorem extracts_summarizes (o : Op) (h : o.extracts) : o.summarizes := by
  cases o <;> first | rfl | cases h

theorem summarizes_consolidates (o : Op) (h : o.summarizes) : o.consolidates := by simp [consolidates, h]

theorem condenses_consolidates (o : Op) (h : o.condenses) : o.consolidates := by simp [consolidates, h]

theorem reflectsOn_generates (sourceIds : List Nat) (o : Op) (h : o.reflectsOn sourceIds) : o.generates := by
  cases o <;> first | rfl | cases h

theorem condensesOn_condensesMeta (childIds : List Nat) (o : Op) (h : o.condensesOn childIds) : o.condensesMeta := by
  cases o <;> first | rfl | cases h

theorem generates_reflects (o : Op) (h : o.generates) : o.reflects := by simp [reflects, h]

theorem condensesMeta_reflects (o : Op) (h : o.condensesMeta) : o.reflects := by simp [reflects, h]

theorem cascades_reflects (o : Op) (h : o.cascades) : o.reflects := by simp [reflects, h]

end Op

theorem uses_await {P : Op → Bool} {o : Op} (h : P o = true) : (await o).Uses fun o => P o := uses_perform h

theorem uses_numberOrHalf {P : Op → Prop} (value : Option Json) : (numberOrHalf value).Uses P := by
  unfold numberOrHalf
  split <;> trivial

/-! ## Consolidation -/

theorem uses_getProfileIdForChat {P : Op → Prop} (hP : ∀ c, P (.chatProfile c)) (chatId : String) :
    (getProfileIdForChat chatId).Uses P := by
  refine uses_bind (uses_perform (hP chatId)) fun row => ?_
  cases row with
  | none => trivial
  | some profileId => trivial

theorem uses_linkMessages (summaryId : Nat) (chunk : List Working) :
    (linkMessages summaryId chunk).Uses (·.summarizes) := by
  induction chunk with
  | nil => trivial
  | cons msg rest ih => exact uses_bind (uses_await rfl) fun _ => ih

theorem uses_storeFact (sessionId profileId now : Nat) (fact : Json) :
    (storeFact sessionId profileId now fact).Uses (·.extracts) := by
  simp only [storeFact]
  split
  · trivial
  split
  · refine uses_bind (uses_numberOrHalf _) fun importance => uses_bind (uses_await rfl) fun _ => ?_
    split
    · rename_i row hrow
      obtain ⟨-, -, -, -, -, -, hchunk⟩ := factColumns_spec hrow
      exact uses_bind (uses_await (List.isEmpty_iff.mpr hchunk)) fun _ => trivial
    · trivial
  · trivial

theorem uses_extractFacts (formatted : JsString) (sessionId profileId : Nat) :
    (extractFacts formatted sessionId profileId).Uses (·.extracts) := by
  refine uses_attempt (uses_bind (uses_await rfl) fun result => ?_) fun _ => trivial
  split
  · trivial
  · exact uses_bind (uses_await rfl) fun now => uses_forEach fun fact _ => uses_storeFact sessionId profileId now fact
  · trivial

theorem uses_consolidateChunk (cfg : ConsolidationConfig) (sessionId profileId : Nat) (chunk : List Working) :
    (consolidateChunk cfg sessionId profileId chunk).Uses (·.summarizes) := by
  refine uses_bind (uses_await rfl) fun summary => ?_
  refine uses_bind (uses_await rfl) fun _ => ?_
  refine uses_bind (uses_await rfl) fun now => ?_
  refine uses_bind (uses_await rfl) fun summaryId => ?_
  exact uses_bind (uses_linkMessages summaryId chunk) fun _ =>
    (uses_extractFacts _ sessionId profileId).mono Op.extracts_summarizes

theorem uses_consolidateSession (cfg : ConsolidationConfig) (sessionId : Nat) (chatId : String) :
    (consolidateSession cfg sessionId chatId).Uses (·.summarizes) := by
  refine uses_bind (uses_await rfl) fun messages => ?_
  split
  · trivial
  · exact uses_bind (uses_getProfileIdForChat (fun _ => rfl) chatId) fun profileId =>
      uses_forEach fun chunk _ => uses_consolidateChunk cfg sessionId profileId chunk

theorem uses_condenseSummaries (cfg : ConsolidationConfig) (chatId : String) :
    (condenseSummaries cfg chatId).Uses (·.condenses) := by
  refine uses_bind (uses_getProfileIdForChat (fun _ => rfl) chatId) fun profileId => ?_
  refine uses_bind (uses_await rfl) fun d0Summaries => ?_
  split
  · trivial
  · refine uses_bind (uses_await rfl) fun condensed => ?_
    refine uses_bind (uses_await rfl) fun _ => ?_
    refine uses_bind (uses_await rfl) fun now => ?_
    refine uses_bind (uses_await rfl) fun parentId => ?_
    exact uses_forEach fun child _ => uses_await rfl

theorem uses_condenseIfReady (cfg : ConsolidationConfig) : (condenseIfReady cfg).Uses (·.condenses) :=
  uses_bind (uses_await rfl) fun _ => uses_forEach fun candidate _ => uses_condenseSummaries cfg candidate.chatId

theorem uses_consolidation (cfg : ConsolidationConfig) : (Consolidation.run cfg).Uses (·.consolidates) := by
  refine uses_bind (uses_await rfl) fun cnt => ?_
  split
  · trivial
  · refine uses_bind (uses_await rfl) fun sessions => ?_
    refine uses_bind ?_ fun _ => ?_
    · exact uses_forEach fun session _ =>
        (uses_consolidateSession cfg session.id session.chatId).mono Op.summarizes_consolidates
    · refine uses_bind (uses_await rfl) fun now => ?_
      refine uses_bind (uses_await rfl) fun _ => ?_
      exact uses_bind ((uses_condenseIfReady cfg).mono Op.condenses_consolidates) fun _ => trivial

/-- A condensation is safe if its INSERT and its links are. `C` is what is known of a child that
    has been selected, and `P` of the parent made of the children. -/
theorem safe_condenseSummaries {Γ : Setting Op Ans Db} (hnt : ¬Γ.total) (cfg : ConsolidationConfig) (chatId : String)
    {C : List Semantic → Nat → Semantic → Db → Prop} {P : List Semantic → Nat → Nat → Db → Prop}
    (hprofile : ∀ s, Safe service Γ (getProfileIdForChat chatId) s)
    (hselect : ∀ rows profileId s, Γ.ok s (.ran (.uncondensedSummaries chatId profileId) rows) →
      Ordered byEarliest (s.uncondensedOf chatId) rows → cfg.consolidationThreshold ≤ rows.length →
      ∀ c ∈ rows, C rows profileId c s)
    (hkeep : ∀ rows profileId s t, Γ.rely s t ∨ Γ.guar s t →
      (∀ c, C rows profileId c s → C rows profileId c t) ∧ ∀ id, P rows profileId id s → P rows profileId id t)
    (hinsert : ∀ rows profileId row id s t, row.profileId = profileId →
      row.earliestAt = rows.head?.map (columnNumber ·.earliestAt) → row.latestAt = rows.getLast?.map (columnNumber ·.latestAt) →
      Γ.inv s → service.exec (.insertSemantic row) s id = some t → Γ.guar s t ∧ Γ.inv t ∧ P rows profileId id t)
    (hlink : ∀ rows profileId id c s t, P rows profileId id s → C rows profileId c s → Γ.inv s →
      service.exec (.linkSummary id c.id) s () = some t → Γ.guar s t ∧ Γ.inv t) (s : Db) :
    Safe service Γ (condenseSummaries cfg chatId) s := by
  refine safe_bind (hprofile s) fun profileId s₀ => ?_
  refine wp_read (exec_reads fun _ _ => rfl) hnt (fun _ _ _ => trivial) ?_
  intro s₁ rows _ _ hx hok
  split
  · trivial
  rename_i hmany
  have hchildren := hselect rows profileId s₁ hok (exec_spec hx).1 (Nat.not_lt.mp hmany)
  refine wp_read (exec_reads fun _ _ => rfl) hnt (fun _ _ _ => trivial) ?_
  intro s₂ condensed hr₂ _ _ _
  refine wp_read (exec_reads fun _ _ => rfl) hnt (fun _ _ _ => trivial) ?_
  intro s₃ _ hr₃ _ _ _
  refine wp_read (exec_reads fun _ _ => rfl) hnt (fun _ _ _ => trivial) ?_
  intro s₄ now hr₄ _ _ _
  refine wp_perform hnt (fun _ _ _ => trivial) ?_
  intro s₅ parentId s₆ hr₅ hi hx _
  obtain ⟨hg, hi', hparent⟩ := hinsert rows profileId _ parentId s₅ s₆ rfl rfl rfl hi hx
  refine ⟨hg, hi', fun _ => ?_⟩
  have hrely := Γ.rely_trans (Γ.rely_trans hr₂ hr₃) (Γ.rely_trans hr₄ hr₅)
  -- the loop: the parent and every child still to be linked
  refine wp_mono (fun _ _ _ => trivial) (fun _ _ h => h) (wp_forEach
    (fun rest u => P rows profileId parentId u ∧ ∀ c ∈ rest, C rows profileId c u) ?_ ⟨hparent, fun c hc => ?_⟩)
  · intro child rest u hu u₁ hr hi₁
    have hkept := hkeep rows profileId u u₁ (Or.inl hr)
    have hp := hkept.2 parentId hu.1
    have hc := fun c hc => hkept.1 c (hu.2 c hc)
    refine ⟨fun h => (hnt h).elim, fun _ => trivial, ?_⟩
    intro _ u₂ hx₂
    obtain ⟨hg₂, hi₂⟩ := hlink rows profileId parentId child u₁ u₂ hp (hc child (.head _)) hi₁ hx₂
    have hkept₂ := hkeep rows profileId u₁ u₂ (Or.inr hg₂)
    exact ⟨fun _ => ⟨hg₂, hi₂, hkept₂.2 parentId hp, fun c hr => hkept₂.1 c (hc c (.tail _ hr))⟩, fun _ => ⟨hg₂, hi₂, trivial⟩⟩
  · exact (hkeep rows profileId s₅ s₆ (Or.inr hg)).1 c ((hkeep rows profileId s₁ s₅ (Or.inl hrely)).1 c (hchildren c hc))

/-- A run is safe if its sessions, its condensation and its own write are. -/
theorem safe_consolidation {Γ : Setting Op Ans Db} (hnt : ¬Γ.total) (cfg : ConsolidationConfig)
    (hset : ∀ now s t, Γ.inv s → service.exec (.setLastConsolidation now) s () = some t → Γ.guar s t ∧ Γ.inv t)
    (hsession : ∀ sessionId chatId s, Safe service Γ (consolidateSession cfg sessionId chatId) s)
    (hcondense : ∀ s, Safe service Γ (condenseIfReady cfg) s) (s : Db) : Safe service Γ (Consolidation.run cfg) s := by
  refine safe_read (exec_reads fun _ _ => rfl) hnt fun cnt s₁ => ?_
  split
  · trivial
  refine safe_read (exec_reads fun _ _ => rfl) hnt fun sessions s₂ => ?_
  refine safe_bind (safe_forEach (fun session u => hsession session.id session.chatId u) sessions s₂) fun _ s₃ => ?_
  refine safe_read (exec_reads fun _ _ => rfl) hnt fun now s₄ => ?_
  refine safe_bind (safe_uses (P := (· = .setLastConsolidation now)) hnt ?_ (uses_perform rfl) s₄) fun _ s₅ => ?_
  · rintro o rfl u _ v hi _ hx
    exact hset now u v hi hx
  · exact safe_bind (hcondense s₅) fun _ _ => trivial

/-! ## Reflection -/

theorem uses_parseReflections {P : Op → Prop} (result : String) : (parseReflections result).Uses P := by
  simp only [parseReflections]
  split <;> trivial

theorem uses_reflectionContent {P : Op → Prop} (reflection : Json) : (reflectionContent reflection).Uses P := by
  simp only [reflectionContent]
  split <;> trivial

theorem uses_storeMeta {P : Op → Bool} (hnow : P .now = true) (hP : ∀ row, P (.insertMeta row) = true)
    (content : Json) (type : MetaMemoryType) (confidence : Option ℚ) (depth profileId : Nat) :
    (storeMeta content type confidence depth profileId).Uses fun o => P o := by
  refine uses_bind (uses_await hnow) fun now => ?_
  split
  · exact uses_await (hP _)
  · trivial
  · trivial

theorem uses_adjustNearest (type : MetaMemoryType) (profileId depth : Nat) :
    (adjustNearest type profileId depth).Uses (·.adjusts) := by
  refine uses_bind (uses_await rfl) fun existing => ?_
  split
  · trivial
  · refine uses_bind (uses_await rfl) fun similarity => ?_
    split
    · exact uses_bind (uses_await rfl) fun _ => trivial
    split
    · exact uses_bind (uses_await rfl) fun _ => trivial
    · trivial

/-- The nearest entry is written, if at all, with what follows from the confidence read. `F` is
    what is known of an entry once it has been selected. -/
theorem safe_adjustNearest {Γ : Setting Op Ans Db} (hnt : ¬Γ.total) {type : MetaMemoryType} {profileId depth : Nat}
    {F : Meta → Db → Prop} (hselect : ∀ m s, Γ.inv s → m ∈ s.active profileId type depth → F m s)
    (hrely : ∀ m s t, Γ.rely s t → F m s → F m t)
    (hwrite : ∀ m c s t, F m s → (c = confirmConfidence m.confidence ∨ c = contradictConfidence m.confidence) → Γ.inv s →
      service.exec (.setConfidence m.id c) s () = some t → Γ.guar s t ∧ Γ.inv t) (s : Db) :
    Safe service Γ (adjustNearest type profileId depth) s := by
  refine wp_read (exec_reads fun _ _ => rfl) hnt (fun _ _ _ => trivial) ?_
  intro s₁ existing _ hi hx _
  cases existing with
  | none => trivial
  | some existing =>
    have hknown : F existing s₁ := hselect existing s₁ hi (exec_spec hx).1
    have hset : ∀ (c : ℚ) (b : Bool) (s₂ : Db), F existing s₂ →
        (c = confirmConfidence existing.confidence ∨ c = contradictConfidence existing.confidence) →
        Safe service Γ ((await (.setConfidence existing.id c)).bind fun _ => .ret b) s₂ := by
      intro c b s₂ hF hc
      refine wp_perform hnt (fun _ _ _ => trivial) ?_
      intro s₃ _ t hr hi hx _
      obtain ⟨hg, hi'⟩ := hwrite existing c s₃ t (hrely existing s₂ s₃ hr hF) hc hi hx
      exact ⟨hg, hi', fun _ => trivial⟩
    refine wp_read (exec_reads fun _ _ => rfl) hnt (fun _ _ _ => trivial) ?_
    intro s₂ similarity hr _ _ _
    have hknown₂ := hrely existing s₁ s₂ hr hknown
    split
    · exact hset _ _ s₂ hknown₂ (Or.inl rfl)
    split
    · exact hset _ _ s₂ hknown₂ (Or.inr rfl)
    · trivial

/-- A parent is left alone or decayed: `A` before it, `B` after it. -/
theorem wp_cascadeParent {Γ : Setting Op Ans Db} (hnt : ¬Γ.total) {parent : Meta} {A B : Db → Prop}
    (hrely : ∀ s t, Γ.rely s t → A s → A t) (hskip : ∀ s, A s → B s)
    (hwrite : ∀ s t, A s → Γ.inv s →
      service.exec (.setConfidence parent.id (contradictConfidence parent.confidence)) s () = some t →
      Γ.guar s t ∧ Γ.inv t ∧ B t) {s : Db} (hs : A s) :
    wp service Γ (cascadeParent parent) (fun _ => B) (fun _ _ => True) s := by
  refine wp_read (exec_reads fun _ _ => rfl) hnt (fun _ _ _ => trivial) ?_
  intro s₁ counts hr₁ _ _ _
  have hs₁ := hrely s s₁ hr₁ hs
  simp only
  split
  · refine wp_perform hnt (fun _ _ _ => trivial) ?_
    intro s₂ _ t hr₂ hi hx _
    obtain ⟨hg, hi', hB⟩ := hwrite s₂ t (hrely s₁ s₂ hr₂ hs₁) hi hx
    exact ⟨hg, hi', fun _ => hB⟩
  · exact hskip s₁ hs₁

theorem uses_reflectOne (cfg : ReflectionConfig) (type : MetaMemoryType) (sourceIds : List Nat) (profileId depth : Nat)
    (reflection : Json) : (reflectOne cfg type sourceIds profileId depth reflection).Uses (·.reflectsOn sourceIds) := by
  refine uses_bind (uses_reflectionContent reflection) fun content? => ?_
  split
  · trivial
  · refine uses_bind (uses_numberOrHalf _) fun confidence => uses_bind (uses_await rfl) fun _ => ?_
    refine uses_bind ((uses_adjustNearest type profileId depth).mono (Op.adjusts_reflectsOn sourceIds)) fun duplicate => ?_
    split
    · trivial
    · refine uses_bind (uses_storeMeta rfl (fun _ => rfl) _ type _ depth profileId) fun metaId => ?_
      exact uses_bind (uses_forEach fun sourceId hs => uses_await (List.contains_iff_mem.mpr hs)) fun _ => trivial

theorem uses_runReflection (cfg : ReflectionConfig) (type : MetaMemoryType) (prompt : Prompt) (content : JsString)
    (sourceIds : List Nat) (profileId depth : Nat) :
    (runReflection cfg type prompt content sourceIds profileId depth).Uses (·.generates) := by
  refine uses_attempt (uses_bind (uses_await rfl) fun result => ?_) fun _ => trivial
  refine uses_bind (uses_parseReflections result) fun reflections => uses_forSum (fun reflection => ?_) _
  exact (uses_reflectOne cfg type sourceIds profileId depth reflection).mono (Op.reflectsOn_generates sourceIds)

theorem uses_generateD0 (cfg : ReflectionConfig) (numberText : ℚ → JsString) (profileId : Nat) :
    (generateD0 cfg numberText profileId).Uses (·.generates) := by
  refine uses_bind (uses_await rfl) fun stateRow => ?_
  refine uses_bind (uses_await rfl) fun recentEntries => ?_
  split
  · trivial
  · exact uses_forSum (fun type => uses_runReflection cfg type _ _ _ profileId 0) _

theorem uses_condenseOne (type : MetaMemoryType) (childIds : List Nat) (profileId depth : Nat) (floor : ℚ)
    (reflection : Json) : (condenseOne type childIds profileId depth floor reflection).Uses (·.condensesOn childIds) := by
  refine uses_bind (uses_reflectionContent reflection) fun content? => ?_
  split
  · trivial
  · refine uses_bind (uses_numberOrHalf _) fun confidence => uses_bind (uses_await rfl) fun _ => ?_
    refine uses_bind (uses_storeMeta rfl (fun _ => rfl) _ type _ depth profileId) fun metaId => ?_
    exact uses_bind (uses_forEach fun childId hc => uses_await (List.contains_iff_mem.mpr hc)) fun _ => trivial

theorem uses_runCondensation (type : MetaMemoryType) (prompt : Prompt) (content : JsString) (childIds : List Nat)
    (profileId depth : Nat) (floor : ℚ) (maxTokens : Nat) :
    (runCondensation type prompt content childIds profileId depth floor maxTokens).Uses (·.condensesMeta) := by
  refine uses_attempt (uses_bind (uses_await rfl) fun result => ?_) fun _ => trivial
  refine uses_bind (uses_parseReflections result) fun reflections => uses_forSum (fun reflection => ?_) _
  exact (uses_condenseOne type childIds profileId depth floor reflection).mono (Op.condensesOn_condensesMeta childIds)

theorem uses_condenseMeta (cfg : ReflectionConfig) (sourceDepth targetDepth profileId : Nat) :
    (condenseMeta cfg sourceDepth targetDepth profileId).Uses (·.condensesMeta) := by
  refine uses_forSum (fun type => uses_bind (uses_await rfl) fun uncondensed => ?_) _
  split
  · trivial
  · exact uses_runCondensation type _ _ _ profileId targetDepth _ _

theorem uses_condenseDepths (cfg : ReflectionConfig) (profileId : Nat) (ds : List Nat) :
    (condenseDepths cfg profileId ds).Uses (·.condensesMeta) := by
  induction ds with
  | nil => trivial
  | cons d ds ih =>
    refine uses_bind (uses_condenseMeta cfg (d - 1) d profileId) fun created => ?_
    split
    · trivial
    · exact uses_bind ih fun _ => trivial

theorem depths_pos (cfg : ReflectionConfig) : ∀ d ∈ depths cfg, 1 ≤ d := by
  intro d hd
  exact (List.mem_range'_1.mp hd).1

theorem uses_cascadeParent (parent : Meta) : (cascadeParent parent).Uses (·.cascades) := by
  refine uses_bind (uses_await rfl) fun counts => ?_
  simp only
  split
  · exact uses_bind (uses_await rfl) fun _ => trivial
  · trivial

theorem uses_runContradictionCascade (cfg : ReflectionConfig) (profileId : Nat) :
    (runContradictionCascade cfg profileId).Uses (·.cascades) :=
  uses_forSum (fun _ => uses_bind (uses_await rfl) fun _ => uses_forSum uses_cascadeParent _) _

theorem uses_reflection (cfg : ReflectionConfig) (numberText : ℚ → JsString) :
    (Reflection.run cfg numberText).Uses (·.reflects) := by
  simp only [Reflection.run]
  split
  · trivial
  · refine uses_bind (uses_await rfl) fun profiles => ?_
    refine uses_bind (uses_forSum (fun profileId => ?_) _) fun total => ?_
    · refine uses_bind ((uses_generateD0 cfg numberText profileId).mono Op.generates_reflects) fun generated => ?_
      refine uses_bind ((uses_condenseDepths cfg profileId _).mono Op.condensesMeta_reflects) fun condensed => ?_
      split
      · exact uses_bind ((uses_runContradictionCascade cfg profileId).mono Op.cascades_reflects) fun _ => trivial
      · trivial
    · refine uses_bind (uses_await rfl) fun now => ?_
      exact uses_bind (uses_await rfl) fun _ => trivial

/-! ## Requests -/

theorem uses_discard {α : Type} {P : Op → Prop} {p : Script α} (h : p.Uses P) : (discard p).Uses P :=
  uses_bind h fun _ => trivial

theorem uses_deleteProfile (profileId : Nat) : (deleteProfile profileId).Uses (·.requested) := by
  refine uses_bind (uses_await rfl) fun profile => ?_
  split
  · trivial
  split
  · trivial
  refine uses_bind (uses_await rfl) fun cnt => ?_
  split
  · trivial
  · refine uses_bind (uses_await rfl) fun _ => uses_bind (uses_await rfl) fun _ => ?_
    refine uses_bind (uses_await rfl) fun _ => uses_bind (uses_await rfl) fun _ => ?_
    exact uses_bind (uses_await rfl) fun _ => uses_bind (uses_await rfl) fun _ => uses_await rfl

theorem uses_request (maxProfiles : Nat) (r : Request) : (r.program maxProfiles).Uses (·.requested) := by
  cases r with
  | createProfile name description =>
    refine uses_discard (uses_bind (uses_await rfl) fun now => uses_bind (uses_await rfl) fun cnt => ?_)
    split
    · trivial
    · exact uses_await rfl
  | deleteProfile profileId => exact uses_deleteProfile profileId
  | setDefaultProfile profileId =>
    refine uses_bind (uses_await rfl) fun profile => ?_
    split
    · trivial
    split
    · trivial
    · exact uses_bind (uses_await rfl) fun now => uses_await rfl
  | assignChat chatId profileId =>
    refine uses_discard (uses_bind (uses_await rfl) fun profile => ?_)
    split
    · trivial
    · refine uses_bind (uses_await rfl) fun chat => ?_
      split
      · trivial
      · exact uses_bind (uses_await rfl) fun _ => trivial
  | cloneProfile sourceId newName newDescription =>
    refine uses_discard (uses_bind (uses_await rfl) fun source => ?_)
    split
    · trivial
    · refine uses_bind (uses_await rfl) fun cnt => ?_
      split
      · trivial
      · exact uses_bind (uses_await rfl) fun now => uses_await rfl
  | storeSemanticMemory options =>
    refine uses_discard (uses_bind (uses_await rfl) fun _ => ?_)
    exact uses_bind (uses_await rfl) fun now => uses_await rfl
  | deleteSemanticMemory memoryId => exact uses_await rfl

end FlowHelm.Memory
