/-
  FlowHelm.Memory.ContextTree — the agent context read as XML.

  Its tags and attribute names are the `layout` of its `shape`.

  - `context_read`: texts of XML characters are read back, up to what XML does to line ends and
    to white space in attributes.
  - `texts_not_read_back`: texts of other characters, and those two, are not.
-/
import FlowHelm.Memory.ContextMarkup

namespace FlowHelm.Memory.AgentContext

open Js Xml

/-! ## Texts of XML characters -/

def Legal (s : String) : Prop := s.toList.all isChar = true

instance (s : String) : Decidable (Legal s) := inferInstanceAs (Decidable (_ = true))

def AgentIdentity.texts (a : AgentIdentity) : List String := a.role :: a.tone :: a.instructions.toList ++ a.expertise

def UserIdentity.texts (u : UserIdentity) : List String :=
  u.name.toList ++ u.role.toList ++ u.organization.toList ++ u.timezone.toList ++ u.language.toList

def Identity.texts (i : Identity) : List String :=
  (i.agentId.map AgentIdentity.texts).getD [] ++ i.agentPersonality.map (·.content) ++
    (i.userId.map UserIdentity.texts).getD [] ++ i.userPersonality.map (·.content)

/-- The texts a context is made of. -/
def Retrieved.texts (r : Retrieved) : List String :=
  r.identity.texts ++ r.metaResults.map (·.content) ++ r.semanticResults.map (·.content) ++
    r.externalResults.map (·.content) ++ r.sessionMessages.flatMap fun m => m.senderName :: m.content.toList

theorem legal_attr {s value : String} {h : isName s.toList = true} (hvalue : Legal value) :
    (attr s value h).2.all isChar = true := hvalue

theorem plain_legal {s : String} (h : Plain s) : Legal s := h.2

/-- A document of XML characters, nothing after it, no attribute twice. -/
structure Sound (m : Markup) : Prop where
  distinct : m.Distinct
  legal : m.Legal
  tail : m.tail = []

theorem sound_leaf {tag : Name} {attributes : List (Name × Text)} {text : Text} (hnames : (attributes.map Prod.fst).Nodup)
    (hattributes : ∀ a ∈ attributes, a.2.all isChar = true) (htext : text.all isChar = true) :
    Sound (leaf tag attributes text) :=
  ⟨⟨hnames, trivial⟩, (legal_leaf tag attributes text).mpr ⟨hattributes, htext⟩, rfl⟩

theorem sound_block {depth : Nat} {tag : Name} {attributes : List (Name × Text)} {ms : List Markup}
    (hnames : (attributes.map Prod.fst).Nodup) (hattributes : ∀ a ∈ attributes, a.2.all isChar = true)
    (hms : ∀ m ∈ ms, Sound m) : Sound (block depth tag attributes ms) := by
  refine ⟨distinct_block hnames fun m hm => (hms m hm).distinct, (legal_block depth tag attributes ms).mpr ⟨hattributes, ?_⟩, rfl⟩
  intro m hm
  have hself : m.setTail [] = m := by
    have htail := (hms m hm).tail
    cases m with
    | element tag attributes text children tail => exact congrArg _ htail.symm
    | empty tag attributes spaces tail => exact congrArg _ htail.symm
  rw [hself]
  exact (hms m hm).legal

theorem sound_tier {tag : Name} {ms : List Markup} (hms : ∀ m ∈ ms, Sound m) : ∀ m ∈ tier tag ms, Sound m := by
  intro m hm
  unfold tier at hm
  split at hm
  · cases hm
  · rw [List.mem_singleton.mp hm]
    exact sound_block (by decide) (List.forall_mem_nil _) hms

theorem sound_indent {m : Markup} (h : Sound m) : Sound (m.mapText indent indent) := by
  refine ⟨(distinct_mapText _ _ m).mpr h.distinct, (legal_indent m).mpr h.legal, ?_⟩
  have htail := h.tail
  cases m with
  | element => exact congrArg indent htail
  | empty => exact congrArg indent htail

theorem legal_given {value : Option String} (h : ∀ x ∈ value, Legal x) : ∀ x ∈ (truthyText value).toList, Legal x := by
  intro x hx
  refine h x ?_
  unfold truthyText at hx
  rw [Option.mem_toList] at hx
  exact (Option.mem_filter_iff.mp hx).1

theorem legal_intercalate {sep : String} (hsep : Legal sep) {xs : List String} (h : ∀ x ∈ xs, Legal x) :
    Legal (sep.intercalate xs) := by
  induction xs with
  | nil => rfl
  | cons x xs ih =>
    cases xs with
    | nil =>
      rw [String.intercalate_singleton]
      exact h x (.head _)
    | cons y ys =>
      rw [String.intercalate_cons_cons]
      unfold Legal
      rw [String.toList_append, String.toList_append, List.all_append, List.all_append, h x (.head _), hsep,
        ih fun z hz => h z (.tail _ hz)]
      rfl

theorem givenAttr_legal {s : String} {value : Option String} {hs : isName s.toList = true} (h : ∀ x ∈ value, Legal x) :
    ∀ a ∈ givenAttr s value hs, a.2.all isChar = true := by
  intro a ha
  obtain ⟨x, hx, rfl⟩ := List.mem_map.mp ha
  exact legal_given h x hx

theorem givenAttr_names (s : String) (value : Option String) (hs : isName s.toList = true) :
    ((givenAttr s value hs).map Prod.fst).Sublist [tagName s hs] := by
  unfold givenAttr
  cases truthyText value with
  | none => exact List.nil_sublist _
  | some x => exact List.Sublist.refl _

theorem sound_agent {a : AgentIdentity} (h : ∀ s ∈ a.texts, Legal s) : Sound (agentMarkup a) := by
  unfold AgentIdentity.texts at h
  simp only [List.cons_append, List.forall_mem_cons, List.forall_mem_append] at h
  obtain ⟨hrole, htone, hinstructions, hexpertise⟩ := h
  refine sound_block (by simp only [List.map_cons, attr, List.map_nil]; decide) ?_ ?_
  · intro x hx
    simp only [List.mem_cons, List.not_mem_nil, or_false] at hx
    rcases hx with rfl | rfl
    · exact hrole
    · exact htone
  · intro m hm
    rcases List.mem_append.mp hm with hm | hm
    · obtain ⟨x, hx, rfl⟩ := List.mem_map.mp hm
      refine sound_leaf (by decide) (List.forall_mem_nil _) (legal_given ?_ x hx)
      intro y hy
      obtain rfl := Option.mem_some.mp hy
      exact legal_intercalate (by decide) hexpertise
    · obtain ⟨x, hx, rfl⟩ := List.mem_map.mp hm
      refine sound_leaf (by decide) (List.forall_mem_nil _) (legal_given ?_ x hx)
      intro y hy
      exact hinstructions y (Option.mem_toList.mpr hy)

theorem sound_dim {Dimension : Type} {text : Dimension → String} (htext : ∀ d, Plain (text d)) {p : PersonalityEntry Dimension}
    (h : Legal p.content) : Sound (dimMarkup text p) := by
  refine sound_leaf (by simp only [List.map_cons, attr, List.map_nil]; decide) ?_ h
  intro x hx
  simp only [List.mem_cons, List.not_mem_nil, or_false] at hx
  rcases hx with rfl | rfl
  · exact legal_attr (plain_legal (htext _))
  · exact legal_attr (plain_legal (plain_toFixed _ _))

theorem sound_user {u : UserIdentity} (h : ∀ s ∈ u.texts, Legal s) : Sound (userMarkup u) := by
  unfold UserIdentity.texts at h
  simp only [List.forall_mem_append, Option.mem_toList] at h
  obtain ⟨⟨⟨⟨hname, hrole⟩, horganization⟩, htimezone⟩, hlanguage⟩ := h
  have hlang : ∀ x ∈ some (u.language.getD "en"), Legal x := by
    intro x hx
    obtain rfl := Option.mem_some.mp hx
    cases hl : u.language with
    | none => decide
    | some l => exact hlanguage l hl
  have hnames : ((userAttributes u).map Prod.fst).Nodup := by
    have hsub : ((userAttributes u).map Prod.fst).Sublist
        [tagName "name", tagName "role", tagName "org", tagName "tz", tagName "lang"] := by
      unfold userAttributes
      rw [List.map_append, List.map_append, List.map_append, List.map_append]
      exact ((((givenAttr_names _ _ _).append (givenAttr_names _ _ _)).append (givenAttr_names _ _ _)).append
        (givenAttr_names _ _ _)).append (givenAttr_names _ _ _)
    exact hsub.nodup (by decide)
  have hattributes : ∀ a ∈ userAttributes u, a.2.all isChar = true := by
    unfold userAttributes
    simp only [List.forall_mem_append]
    exact ⟨⟨⟨⟨givenAttr_legal hname, givenAttr_legal hrole⟩, givenAttr_legal horganization⟩, givenAttr_legal htimezone⟩,
      givenAttr_legal hlang⟩
  exact ⟨hnames, (legal_empty _ _ _).mpr hattributes, rfl⟩

theorem sound_identity {thresholds : IdentityThresholds} {i : Identity} (h : ∀ s ∈ i.texts, Legal s) :
    Sound (identityMarkup thresholds i) := by
  unfold Identity.texts at h
  simp only [List.forall_mem_append, List.forall_mem_map] at h
  obtain ⟨⟨⟨hagent, hagents⟩, huser⟩, husers⟩ := h
  refine sound_block (by decide) (List.forall_mem_nil _) ?_
  simp only [List.forall_mem_append]
  refine ⟨⟨⟨?_, sound_tier ?_⟩, ?_⟩, sound_tier ?_⟩
  · intro m hm
    obtain ⟨a, ha, rfl⟩ := Option.mem_map.mp (Option.mem_toList.mp hm)
    rw [ha] at hagent
    exact sound_agent hagent
  · intro m hm
    obtain ⟨p, hp, rfl⟩ := List.mem_map.mp hm
    exact sound_dim plain_agentDimension (hagents p (List.mem_filter.mp hp).1)
  · intro m hm
    obtain ⟨u, hu, rfl⟩ := Option.mem_map.mp (Option.mem_toList.mp hm)
    rw [hu] at huser
    exact sound_user huser
  · intro m hm
    obtain ⟨p, hp, rfl⟩ := List.mem_map.mp hm
    exact sound_dim plain_userDimension (husers p (List.mem_filter.mp hp).1)

theorem sound_strategic {e : MetaMemoryEntry} (h : Legal e.content) : Sound (strategicMarkup e) := by
  refine sound_leaf (by simp only [List.map_cons, attr, List.map_nil]; decide) ?_ h
  simp only [List.forall_mem_cons]
  exact ⟨legal_attr (plain_legal (plain_reflectionText _)), legal_attr (plain_legal (plain_toFixed _ _)),
    legal_attr (plain_legal (plain_toString _)), List.forall_mem_nil _⟩

theorem sound_graded {tag : Name} {e : MetaMemoryEntry} (h : Legal e.content) : Sound (gradedMarkup tag e) := by
  refine sound_leaf (by simp only [List.map_cons, attr, List.map_nil]; decide) ?_ h
  simp only [List.forall_mem_cons]
  exact ⟨legal_attr (plain_legal (plain_reflectionText _)), legal_attr (plain_legal (plain_toFixed _ _)), List.forall_mem_nil _⟩

theorem depth_names (depth : Nat) : ((depthAttribute depth).map Prod.fst).Sublist [tagName "depth"] := by
  unfold depthAttribute
  split
  · exact List.Sublist.refl _
  · exact List.nil_sublist _

theorem depth_legal (depth : Nat) : ∀ a ∈ depthAttribute depth, a.2.all isChar = true := by
  unfold depthAttribute
  split
  · rw [List.forall_mem_singleton]
    exact legal_attr (plain_legal (plain_toString depth))
  · exact List.forall_mem_nil _

theorem sound_flat {e : MetaMemoryEntry} (h : Legal e.content) : Sound (flatMarkup e) := by
  refine sound_leaf ?_ ?_ h
  · exact ((depth_names e.depth).cons_cons (tagName "confidence")).nodup (by decide)
  · rw [List.forall_mem_cons]
    exact ⟨legal_attr (plain_legal (plain_toFixed _ _)), depth_legal e.depth⟩

theorem sound_metas {strategy : MetaStrategy} {es : List MetaMemoryEntry} (h : ∀ e ∈ es, Legal e.content) :
    ∀ m ∈ metaMarkups strategy es, Sound m := by
  cases strategy with
  | cascade =>
    unfold metaMarkups
    simp only [List.forall_mem_append, List.forall_mem_map, List.mem_filter]
    exact ⟨⟨fun e he => sound_strategic (h e he.1), fun e he => sound_graded (h e he.1)⟩, fun e he => sound_graded (h e he.1)⟩
  | flat =>
    intro m hm
    obtain ⟨e, he, rfl⟩ := List.mem_map.mp hm
    exact sound_flat (h e he)

theorem sound_memory {r : SemanticResult} (h : Legal r.content) : Sound (memoryMarkup r) := by
  refine sound_leaf ?_ ?_ h
  · have hsub := (List.Sublist.refl [tagName "type", tagName "importance", tagName "score"]).append (depth_names r.depth)
    rw [List.map_append]
    exact hsub.nodup (by decide)
  · simp only [List.forall_mem_append, List.forall_mem_cons]
    exact ⟨⟨legal_attr (plain_legal (plain_memoryText _)), legal_attr (plain_legal (plain_toFixed _ _)),
      legal_attr (plain_legal (plain_toFixed _ _)), List.forall_mem_nil _⟩, depth_legal r.depth⟩

theorem sound_entry {e : ExternalMemoryEntry} (h : Legal e.content) : Sound (entryMarkup e) := by
  refine sound_leaf (by simp only [List.map_cons, attr, List.map_nil]; decide) ?_ h
  simp only [List.forall_mem_cons]
  exact ⟨legal_attr (plain_legal (plain_sourceText _)), List.forall_mem_nil _⟩

theorem sound_message {m : MessageRow} (h : ∀ s ∈ m.senderName :: m.content.toList, Legal s) : Sound (messageMarkup m) := by
  obtain ⟨hsender, hcontent⟩ := List.forall_mem_cons.mp h
  have hname : Legal (if m.isBotMessage then "assistant" else m.senderName) := by
    split
    · decide
    · exact hsender
  have htext : Legal (m.content.getD "[no content]") := by
    cases hc : m.content with
    | none => decide
    | some c => exact hcontent c (by rw [hc]; exact .head _)
  refine sound_leaf (by simp only [List.map_cons, attr, List.map_nil]; decide) ?_ htext
  simp only [List.forall_mem_cons]
  exact ⟨legal_attr hname, legal_attr (plain_legal (plain_messageTime m)), List.forall_mem_nil _⟩

theorem sound_context {config : ContextConfig} {now : Nat} {timezone : Option String} {r : Retrieved}
    (hzone : ∀ s ∈ timezone, Legal s) (h : ∀ s ∈ r.texts, Legal s) : Sound (contextMarkup config now timezone r) := by
  unfold Retrieved.texts at h
  simp only [List.forall_mem_append, List.forall_mem_map] at h
  obtain ⟨⟨⟨⟨hidentity, hmetas⟩, hsemantic⟩, hexternal⟩, hworking⟩ := h
  have hnames : ((givenAttr "timezone" timezone ++ [attr "date" (printed (contextDate now))]).map Prod.fst).Nodup := by
    rw [List.map_append]
    exact ((givenAttr_names "timezone" timezone _).append (List.Sublist.refl [tagName "date"])).nodup (by decide)
  refine sound_block hnames ?_ ?_
  · rw [List.forall_mem_append, List.forall_mem_singleton]
    exact ⟨givenAttr_legal hzone, legal_attr (plain_legal (plain_contextDate now))⟩
  · simp only [List.cons_append, List.forall_mem_cons, List.forall_mem_append]
    refine ⟨sound_indent (sound_identity hidentity), ⟨⟨sound_tier (sound_metas hmetas), sound_tier ?_⟩, sound_tier ?_⟩,
      sound_tier ?_⟩
    · rw [List.forall_mem_map]
      exact fun e he => sound_memory (hsemantic e he)
    · rw [List.forall_mem_map]
      exact fun e he => sound_entry (hexternal e he)
    · rw [List.forall_mem_map]
      exact fun m hm => sound_message fun s hs => hworking s (List.mem_flatMap.mpr ⟨m, hm, hs⟩)

/-! ## Tags and attribute names -/

theorem skeleton_tier (tag : Name) (ms : List Markup) :
    (tier tag ms).map Markup.skeleton = tierLayout tag (ms.map Markup.skeleton) := by
  unfold tier tierLayout
  rw [List.isEmpty_map]
  split
  · rfl
  · rw [List.map_singleton, skeleton_block]
    rfl

theorem skeleton_replicate {α : Type} (markup : α → Markup) {k : Skeleton} (h : ∀ x, (markup x).skeleton = k) (xs : List α) :
    (xs.map markup).map Markup.skeleton = List.replicate xs.length k := by
  induction xs with
  | nil => rfl
  | cons x xs ih => rw [List.map_cons, List.map_cons, ih, h, List.length_cons, List.replicate_succ]

theorem names_given (s : String) (value : Option String) (hs : isName s.toList = true) :
    (givenAttr s value hs).map Prod.fst = optional (isGiven value) (tagName s hs) := by
  unfold givenAttr isGiven optional
  cases truthyText value <;> rfl

theorem skeleton_given (s : String) (value : Option String) (hs : isName s.toList = true) :
    (givenLeaf s value hs).map Markup.skeleton = optional (isGiven value) (.mk (tagName s hs) [] []) := by
  unfold givenLeaf isGiven optional
  cases truthyText value <;> rfl

theorem names_depth (depth : Nat) : (depthAttribute depth).map Prod.fst = optional (decide (0 < depth)) (tagName "depth") := by
  unfold depthAttribute optional
  by_cases hdepth : 0 < depth
  · rw [if_pos hdepth, if_pos (decide_eq_true hdepth)]
    rfl
  · rw [if_neg hdepth, if_neg (by simpa using hdepth)]
    rfl

theorem skeleton_agent (a : AgentIdentity) : (agentMarkup a).skeleton = agentLayout a.shape := by
  unfold agentMarkup
  rw [skeleton_block, List.map_append, skeleton_given, skeleton_given]
  rfl

theorem skeleton_user (u : UserIdentity) : (userMarkup u).skeleton = userLayout u.shape := by
  show Skeleton.mk (tagName "user") ((userAttributes u).map Prod.fst) [] = _
  unfold userAttributes
  simp only [List.map_append, names_given]
  rfl

theorem skeleton_identity (thresholds : IdentityThresholds) (i : Identity) :
    (identityMarkup thresholds i).skeleton = .mk (tagName "identity") []
      (((i.agentId.map AgentIdentity.shape).map agentLayout).toList ++
        tierLayout (tagName "agent_personality")
          (List.replicate (filteredP thresholds.personalityConfidenceThreshold i.agentPersonality).length dimLayout) ++
        ((i.userId.map UserIdentity.shape).map userLayout).toList ++
        tierLayout (tagName "user_personality")
          (List.replicate (filteredP thresholds.userPersonalityConfidenceThreshold i.userPersonality).length dimLayout)) := by
  have hagent : (i.agentId.map agentMarkup).toList.map Markup.skeleton =
      ((i.agentId.map AgentIdentity.shape).map agentLayout).toList := by
    cases i.agentId with
    | none => rfl
    | some a => exact congrArg (· :: []) (skeleton_agent a)
  have huser : (i.userId.map userMarkup).toList.map Markup.skeleton =
      ((i.userId.map UserIdentity.shape).map userLayout).toList := by
    cases i.userId with
    | none => rfl
    | some u => exact congrArg (· :: []) (skeleton_user u)
  unfold identityMarkup
  rw [skeleton_block]
  simp only [List.map_append, skeleton_tier, hagent, huser]
  rw [skeleton_replicate _ (k := dimLayout) fun _ => rfl, skeleton_replicate _ (k := dimLayout) fun _ => rfl]
  rfl

theorem skeleton_metas (strategy : MetaStrategy) (es : List MetaMemoryEntry) :
    (metaMarkups strategy es).map Markup.skeleton = (metaShape strategy es).layout := by
  cases strategy with
  | cascade =>
    have hstrategic := skeleton_replicate strategicMarkup
      (k := .mk (tagName "strategic") [tagName "type", tagName "confidence", tagName "depth"] []) (fun _ => rfl)
      (es.filter (2 ≤ ·.depth))
    have hgraded := fun tag => skeleton_replicate (gradedMarkup tag) (k := gradedLayout tag) (fun _ => rfl)
    unfold metaMarkups
    simp only [List.map_append, hstrategic, hgraded]
    unfold metaShape MetaShape.layout
    simp only [List.countP_eq_length_filter]
  | flat =>
    show (es.map flatMarkup).map Markup.skeleton = (es.map fun e => (e.reflectionType, decide (0 < e.depth))).map _
    rw [List.map_map, List.map_map]
    refine List.map_congr_left fun e _ => ?_
    show Skeleton.mk (reflectionTag e.reflectionType) (tagName "confidence" :: (depthAttribute e.depth).map Prod.fst) [] = _
    rw [names_depth]
    rfl

theorem skeleton_context (config : ContextConfig) (now : Nat) (timezone : Option String) (r : Retrieved) :
    (contextMarkup config now timezone r).skeleton = (shape config timezone r).layout := by
  have hsemantic : (r.semanticResults.map memoryMarkup).map Markup.skeleton =
      (r.semanticResults.map fun e => decide (0 < e.depth)).map fun depth =>
        .mk (tagName "memory")
          ([tagName "type", tagName "importance", tagName "score"] ++ optional depth (tagName "depth")) [] := by
    rw [List.map_map, List.map_map]
    refine List.map_congr_left fun e _ => ?_
    show Skeleton.mk (tagName "memory") (([_, _, _] ++ depthAttribute e.depth).map Prod.fst) [] = _
    rw [List.map_append, names_depth]
    rfl
  have hexternal := skeleton_replicate entryMarkup (k := .mk (tagName "entry") [tagName "source"] []) (fun _ => rfl)
    r.externalResults
  have hworking := skeleton_replicate messageMarkup (k := .mk (tagName "message") [tagName "sender", tagName "time"] [])
    (fun _ => rfl) r.sessionMessages
  unfold contextMarkup
  rw [skeleton_block]
  simp only [List.map_append, List.map_cons, names_given, skeleton_mapText, skeleton_identity, skeleton_tier, skeleton_metas,
    hsemantic, hexternal, hworking]
  rfl

/-! ## What is read -/

theorem parse_context {config : ContextConfig} {now : Nat} {chatId : String} {timezone : Option String} {r : Retrieved}
    {out : String} (hout : buildAgentContext config now chatId timezone (some r) = .ok out)
    (hlegal : ∀ s ∈ timezone.toList ++ r.texts, Legal s) :
    parse out.toList = some ((contextMarkup config now timezone r).mapText endings endings).read := by
  obtain ⟨hzone, htexts⟩ := List.forall_mem_append.mp hlegal
  have hsound : Sound (contextMarkup config now timezone r) :=
    sound_context (fun s hs => hzone s (Option.mem_toList.mpr hs)) htexts
  have hrender : out.toList = (contextMarkup config now timezone r).render := by
    rw [Markup.render_bare, prints_context hout, hsound.tail]
    exact (List.append_nil _).symm
  rw [hrender]
  exact (parse_render hsound.distinct hsound.tail).1 hsound.legal

/-- A context whose texts are of XML characters is read as the document, with XML's line ends
    and the white space of attributes as spaces. -/
theorem context_read (config : ContextConfig) (now : Nat) (chatId : String) (timezone : Option String) (r : Retrieved)
    (out : String) (hout : buildAgentContext config now chatId timezone (some r) = .ok out)
    (hlegal : ∀ s ∈ timezone.toList ++ r.texts, Legal s) :
    ∃ tree, parse out.toList = some tree ∧ tree.skeleton = (shape config timezone r).layout ∧
      tree = ((contextMarkup config now timezone r).mapText endings endings).read := by
  refine ⟨_, parse_context hout hlegal, ?_, rfl⟩
  rw [skeleton_read, skeleton_context]

/-- What is read of one message, by a sender of a name. -/
def oneMessage (name content : String) : Retrieved where
  identity := ⟨none, [], none, []⟩
  metaResults := []
  semanticResults := []
  externalResults := []
  sessionMessages := [⟨name, some content, 0, false⟩]

theorem context_read_message : ∃ tree,
    parse ("<context date=\"1970-01-01\">\n  <identity>\n  </identity>\n  <working_memory>\n" ++
      "    <message sender=\"&lt;A&gt;\" time=\"1970-01-01 00:00\">&lt;/message&gt;</message>\n" ++
      "  </working_memory>\n</context>").toList = some tree ∧
      tree.skeleton = (shape ⟨⟨0, 0⟩, .flat⟩ none (oneMessage "<A>" "</message>")).layout ∧
      tree = ((contextMarkup ⟨⟨0, 0⟩, .flat⟩ 0 none (oneMessage "<A>" "</message>")).mapText endings endings).read :=
  context_read ⟨⟨0, 0⟩, .flat⟩ 0 "chat" none (oneMessage "<A>" "</message>") _ (by decide +kernel) (by decide)

/-- The context of one message, read; no element where it is not XML. -/
def readMessage (name content : String) : Option Element :=
  match buildAgentContext ⟨⟨0, 0⟩, .flat⟩ 0 "chat" none (some (oneMessage name content)) with
  | .ok out => parse out.toList
  | .error _ => none

theorem read_message {name content : String} (hlegal : ∀ s ∈ (oneMessage name content).texts, Legal s) {tree : Element}
    (h : readMessage name content = some tree) :
    tree = ((contextMarkup ⟨⟨0, 0⟩, .flat⟩ 0 none (oneMessage name content)).mapText endings endings).read := by
  unfold readMessage at h
  split at h
  · rename_i out hout
    rw [parse_context hout hlegal] at h
    exact (Option.some.inj h).symm
  · cases h

/-- The context of one message is read as the tree it was written for. -/
def ReadBack (m : String × String) : Prop :=
  ∃ tree, readMessage m.1 m.2 = some tree ∧ tree = (contextMarkup ⟨⟨0, 0⟩, .flat⟩ 0 none (oneMessage m.1 m.2)).toElement

/-- What is read has its line ends normalised. -/
theorem not_readBack {m : String × String} (hlegal : ∀ s ∈ (oneMessage m.1 m.2).texts, Legal s)
    (htexts : (((contextMarkup ⟨⟨0, 0⟩, .flat⟩ 0 none (oneMessage m.1 m.2)).mapText endings endings).read).texts ≠
      (contextMarkup ⟨⟨0, 0⟩, .flat⟩ 0 none (oneMessage m.1 m.2)).toElement.texts) : ¬ReadBack m := by
  rintro ⟨tree, hread, hdocument⟩
  have htree := read_message hlegal hread
  exact htexts (congrArg Element.texts (htree.symm.trans hdocument))

/-- A control character, a carriage return in a text and a line end in an attribute. -/
theorem texts_not_read_back :
    ¬ReadBack ("A", "a\u0001b") ∧ ¬ReadBack ("A", "a\r\nb") ∧ ¬ReadBack ("A\nB", "a") := by
  refine ⟨?_, not_readBack (by decide) (by decide), not_readBack (by decide) (by decide)⟩
  have hrefused : readMessage "A" "a\u0001b" = none := by decide +kernel
  rintro ⟨tree, hread, -⟩
  rw [hrefused] at hread
  cases hread

end FlowHelm.Memory.AgentContext
