/-
  FlowHelm.Memory.ContextMarkup — the document the agent context is meant to be: each text where
  it belongs, the identity moved two columns to the right.

  Its tags and attribute names are the `layout` of how many entries of each kind there are and
  which optional fields are given.

  - `prints_context`: what `buildAgentContext` returns is the document, printed.
-/
import FlowHelm.Lib.XmlLines
import FlowHelm.Memory.AgentContext

namespace FlowHelm.Memory.AgentContext

open Js Xml

/-! ## The document -/

def tagName (s : String) (h : isName s.toList = true := by decide) : Name := ⟨s.toList, h⟩

def attr (s value : String) (h : isName s.toList = true := by decide) : Name × Text := (tagName s h, value.toList)

/-- An attribute that is given. -/
def givenAttr (s : String) (value : Option String) (h : isName s.toList = true := by decide) : List (Name × Text) :=
  (truthyText value).toList.map fun x => attr s x h

/-- An element with a text that is given. -/
def givenLeaf (s : String) (value : Option String) (h : isName s.toList = true := by decide) : List Markup :=
  (truthyText value).toList.map fun x => leaf (tagName s h) [] x.toList

def tier (tag : Name) (ms : List Markup) : List Markup := if ms.isEmpty then [] else [block 1 tag [] ms]

def agentMarkup (a : AgentIdentity) : Markup :=
  block 1 (tagName "agent") [attr "role" a.role, attr "tone" a.tone]
    (givenLeaf "expertise" (some (", ".intercalate a.expertise)) ++ givenLeaf "instructions" a.instructions)

def dimMarkup {Dimension : Type} (text : Dimension → String) (p : PersonalityEntry Dimension) : Markup :=
  leaf (tagName "dim") [attr "name" (text p.dimension), attr "confidence" (toFixed 2 p.confidence)] p.content.toList

def userAttributes (u : UserIdentity) : List (Name × Text) :=
  givenAttr "name" u.name ++ givenAttr "role" u.role ++ givenAttr "org" u.organization ++ givenAttr "tz" u.timezone ++
    givenAttr "lang" (some (u.language.getD "en"))

def userMarkup (u : UserIdentity) : Markup :=
  .empty (tagName "user") (userAttributes u) (if (userAttributes u).isEmpty then 1 else 0) []

def identityMarkup (thresholds : IdentityThresholds) (i : Identity) : Markup :=
  block 0 (tagName "identity") [] ((i.agentId.map agentMarkup).toList ++
    tier (tagName "agent_personality")
      ((filteredP thresholds.personalityConfidenceThreshold i.agentPersonality).map (dimMarkup agentDimension)) ++
    (i.userId.map userMarkup).toList ++
    tier (tagName "user_personality")
      ((filteredP thresholds.userPersonalityConfidenceThreshold i.userPersonality).map (dimMarkup userDimension)))

def depthAttribute (depth : Nat) : List (Name × Text) := if 0 < depth then [attr "depth" (toString depth)] else []

def strategicMarkup (e : MetaMemoryEntry) : Markup :=
  leaf (tagName "strategic") [attr "type" (reflectionText e.reflectionType), attr "confidence" (toFixed 2 e.confidence),
    attr "depth" (toString e.depth)] e.content.toList

def gradedMarkup (tag : Name) (e : MetaMemoryEntry) : Markup :=
  leaf tag [attr "type" (reflectionText e.reflectionType), attr "confidence" (toFixed 2 e.confidence)] e.content.toList

def reflectionTag (t : MetaMemoryType) : Name := tagName (reflectionText t) (by cases t <;> decide)

def flatMarkup (e : MetaMemoryEntry) : Markup :=
  leaf (reflectionTag e.reflectionType) (attr "confidence" (toFixed 2 e.confidence) :: depthAttribute e.depth) e.content.toList

def metaMarkups (strategy : MetaStrategy) (es : List MetaMemoryEntry) : List Markup := match strategy with
  | .cascade =>
    (es.filter (2 ≤ ·.depth)).map strategicMarkup ++ (es.filter (·.depth = 1)).map (gradedMarkup (tagName "evaluated")) ++
    (es.filter (·.depth = 0)).map (gradedMarkup (tagName "observation"))
  | .flat => es.map flatMarkup

def memoryMarkup (r : SemanticResult) : Markup :=
  leaf (tagName "memory") ([attr "type" (memoryText r.memoryType), attr "importance" (toFixed 1 r.importance),
    attr "score" (toFixed 2 r.compositeScore)] ++ depthAttribute r.depth) r.content.toList

def entryMarkup (e : ExternalMemoryEntry) : Markup :=
  leaf (tagName "entry") [attr "source" (sourceText e.sourceType)] e.content.toList

/-- A time that is printed; `buildAgentContext` fails with another. -/
def printed (time : Except String String) : String := (time.toOption).getD ""

def messageMarkup (m : MessageRow) : Markup :=
  leaf (tagName "message") [attr "sender" (if m.isBotMessage then "assistant" else m.senderName),
    attr "time" (printed (messageTime m))] (m.content.getD "[no content]").toList

def contextMarkup (config : ContextConfig) (now : Nat) (timezone : Option String) (r : Retrieved) : Markup :=
  block 0 (tagName "context") (givenAttr "timezone" timezone ++ [attr "date" (printed (contextDate now))])
    ((identityMarkup config.identityThresholds r.identity).mapText indent indent ::
      tier (tagName "meta_memory") (metaMarkups config.metaStrategy r.metaResults) ++
      tier (tagName "semantic_memory") (r.semanticResults.map memoryMarkup) ++
      tier (tagName "external_memory") (r.externalResults.map entryMarkup) ++
      tier (tagName "working_memory") (r.sessionMessages.map messageMarkup))

/-! ## Its tags and attribute names -/

inductive MetaShape where
  | cascade (strategic evaluated observations : Nat)
  /-- Each entry's type, and whether its depth is printed. -/
  | flat (entries : List (MetaMemoryType × Bool))

/-- How many entries of each kind there are, which optional fields are given. -/
structure Shape where
  timezone : Bool
  /-- Expertise and instructions. -/
  agent : Option (Bool × Bool)
  agentPersonality : Nat
  /-- Name, role, organization, timezone and language. -/
  user : Option (Bool × Bool × Bool × Bool × Bool)
  userPersonality : Nat
  metas : MetaShape
  /-- Whether the depth is printed. -/
  semantic : List Bool
  external : Nat
  working : Nat

def isGiven (value : Option String) : Bool := (truthyText value).isSome

def AgentIdentity.shape (a : AgentIdentity) : Bool × Bool :=
  (isGiven (some (", ".intercalate a.expertise)), isGiven a.instructions)

def UserIdentity.shape (u : UserIdentity) : Bool × Bool × Bool × Bool × Bool :=
  (isGiven u.name, isGiven u.role, isGiven u.organization, isGiven u.timezone, isGiven (some (u.language.getD "en")))

def metaShape (strategy : MetaStrategy) (es : List MetaMemoryEntry) : MetaShape := match strategy with
  | .cascade => .cascade (es.countP (2 ≤ ·.depth)) (es.countP (·.depth = 1)) (es.countP (·.depth = 0))
  | .flat => .flat (es.map fun e => (e.reflectionType, decide (0 < e.depth)))

def shape (config : ContextConfig) (timezone : Option String) (r : Retrieved) : Shape where
  timezone := isGiven timezone
  agent := r.identity.agentId.map AgentIdentity.shape
  agentPersonality := (filteredP config.identityThresholds.personalityConfidenceThreshold r.identity.agentPersonality).length
  user := r.identity.userId.map UserIdentity.shape
  userPersonality := (filteredP config.identityThresholds.userPersonalityConfidenceThreshold r.identity.userPersonality).length
  metas := metaShape config.metaStrategy r.metaResults
  semantic := r.semanticResults.map fun e => decide (0 < e.depth)
  external := r.externalResults.length
  working := r.sessionMessages.length

def optional {α : Type} (b : Bool) (x : α) : List α := if b then [x] else []

def tierLayout (tag : Name) (children : List Skeleton) : List Skeleton := if children.isEmpty then [] else [.mk tag [] children]

def agentLayout : Bool × Bool → Skeleton
  | (expertise, instructions) => .mk (tagName "agent") [tagName "role", tagName "tone"]
    (optional expertise (.mk (tagName "expertise") [] []) ++ optional instructions (.mk (tagName "instructions") [] []))

def userLayout : Bool × Bool × Bool × Bool × Bool → Skeleton
  | (name, role, organization, timezone, language) => .mk (tagName "user")
    (optional name (tagName "name") ++ optional role (tagName "role") ++ optional organization (tagName "org") ++
      optional timezone (tagName "tz") ++ optional language (tagName "lang")) []

def dimLayout : Skeleton := .mk (tagName "dim") [tagName "name", tagName "confidence"] []

def gradedLayout (tag : Name) : Skeleton := .mk tag [tagName "type", tagName "confidence"] []

def MetaShape.layout : MetaShape → List Skeleton
  | .cascade strategic evaluated observations =>
    List.replicate strategic (.mk (tagName "strategic") [tagName "type", tagName "confidence", tagName "depth"] []) ++
      List.replicate evaluated (gradedLayout (tagName "evaluated")) ++
      List.replicate observations (gradedLayout (tagName "observation"))
  | .flat entries => entries.map fun e => .mk (reflectionTag e.1) (tagName "confidence" :: optional e.2 (tagName "depth")) []

def Shape.layout (s : Shape) : Skeleton :=
  .mk (tagName "context") (optional s.timezone (tagName "timezone") ++ [tagName "date"])
    (.mk (tagName "identity") []
      ((s.agent.map agentLayout).toList ++ tierLayout (tagName "agent_personality")
        (List.replicate s.agentPersonality dimLayout) ++
        (s.user.map userLayout).toList ++ tierLayout (tagName "user_personality") (List.replicate s.userPersonality dimLayout)) ::
    tierLayout (tagName "meta_memory") s.metas.layout ++
    tierLayout (tagName "semantic_memory") (s.semantic.map fun depth =>
      .mk (tagName "memory") ([tagName "type", tagName "importance", tagName "score"] ++ optional depth (tagName "depth")) []) ++
    tierLayout (tagName "external_memory") (List.replicate s.external (.mk (tagName "entry") [tagName "source"] [])) ++
    tierLayout (tagName "working_memory") (List.replicate s.working
      (.mk (tagName "message") [tagName "sender", tagName "time"] [])))

/-! ## What is printed is the document -/

theorem replaceChar_toList (c : Char) (entity s : String) :
    (replaceChar c entity s).toList = s.toList.flatMap fun d => if d = c then entity.toList else [d] :=
  String.toList_ofList

theorem escapeXml_toList (s : String) : (escapeXml s).toList = escape s.toList := by
  unfold escapeXml
  rw [replaceChar_toList, replaceChar_toList, replaceChar_toList, replaceChar_toList]
  induction s.toList with
  | nil => rfl
  | cons c cs ih =>
    show _ = escapeChar c ++ escape cs
    rw [← ih, List.flatMap_cons, List.flatMap_append, List.flatMap_append, List.flatMap_append]
    congr 1
    unfold escapeChar
    by_cases hamp : c = '&'
    · rw [if_pos hamp, if_pos hamp]
      rfl
    · rw [if_neg hamp, if_neg hamp, List.flatMap_singleton]
      by_cases hlt : c = '<'
      · rw [if_pos hlt, if_pos hlt]
        rfl
      · rw [if_neg hlt, if_neg hlt, List.flatMap_singleton]
        by_cases hgt : c = '>'
        · rw [if_pos hgt, if_pos hgt]
          rfl
        · rw [if_neg hgt, if_neg hgt, List.flatMap_singleton]

/-- A text that is printed as it is. -/
def Plain (s : String) : Prop := escape s.toList = s.toList ∧ s.toList.all isChar = true

theorem isStamp_plain {c : Char} (h : isStamp c = true) : escapeChar c = [c] ∧ isChar c = true := by
  simp only [isStamp, Char.isDigit, Bool.or_eq_true, Bool.and_eq_true, decide_eq_true_eq, List.mem_cons,
    List.not_mem_nil, or_false] at h
  rcases h with hdigit | rfl | rfl | rfl | rfl | rfl | rfl | rfl
  · have hrange : 48 ≤ c.toNat ∧ c.toNat ≤ 57 := hdigit
    have hne : ∀ d : Char, d.toNat < 48 ∨ 57 < d.toNat → c ≠ d := by
      intro d hd hc
      rw [hc] at hrange
      omega
    have hmarkup : isMarkup c = true := by
      have hd : c.isDigit = true := by simpa [Char.isDigit] using hdigit
      simp [isMarkup, isNameChar, hd]
    refine ⟨?_, (isMarkup_plain hmarkup).2.2⟩
    unfold escapeChar
    rw [if_neg (hne _ (by decide)), if_neg (hne _ (by decide)), if_neg (hne _ (by decide)), if_neg (hne _ (by decide))]
  all_goals exact ⟨by decide, by decide⟩

theorem plain_stamp {s : String} (h : Stamp s.toList) : Plain s := by
  unfold Plain
  generalize s.toList = cs at h
  constructor
  · induction cs with
    | nil => rfl
    | cons c cs ih =>
      show escapeChar c ++ escape cs = _
      rw [(isStamp_plain (h c (.head _))).1, ih fun d hd => h d (.tail _ hd)]
      rfl
  · exact List.all_eq_true.mpr fun c hc => (isStamp_plain (h c hc)).2

theorem plain_toFixed (places : Nat) (x : Amount) : Plain (toFixed places x) := plain_stamp (toFixed_stamp places x)

theorem plain_toString (n : Nat) : Plain (toString n) := plain_stamp (toString_stamp n)

theorem plain_agentDimension (d : Profiles.AgentPersonalityDimension) : Plain (agentDimension d) := by
  cases d <;> exact ⟨by decide, by decide⟩

theorem plain_userDimension (d : UserPersonalityDimension) : Plain (userDimension d) := by
  cases d <;> exact ⟨by decide, by decide⟩

theorem plain_reflectionText (t : MetaMemoryType) : Plain (reflectionText t) := by
  cases t <;> exact ⟨by decide, by decide⟩

theorem plain_memoryText (t : SemanticMemoryType) : Plain (memoryText t) := by
  cases t <;> exact ⟨by decide, by decide⟩

theorem plain_sourceText (t : Profiles.ExternalMemorySource) : Plain (sourceText t) := by
  cases t <;> exact ⟨by decide, by decide⟩

/-! ## Lines -/

/-- The lines are the documents, at the depth. -/
def Prints (depth : Nat) (ls : List String) (ms : List Markup) : Prop := onLines (ls.map String.toList) = lines depth ms

theorem Prints.nil (depth : Nat) : Prints depth [] [] := rfl

theorem Prints.append {depth : Nat} {ls ks : List String} {ms ns : List Markup} (h : Prints depth ls ms)
    (k : Prints depth ks ns) : Prints depth (ls ++ ks) (ms ++ ns) := by
  unfold Prints at *
  rw [List.map_append, onLines_append, lines_append, h, k]

theorem Prints.map {α : Type} {depth : Nat} {line : α → String} {markup : α → Markup}
    (h : ∀ x, Prints depth [line x] [markup x]) (xs : List α) : Prints depth (xs.map line) (xs.map markup) := by
  induction xs with
  | nil => exact .nil depth
  | cons x xs ih => exact (h x).append ih

theorem prints_leaf {depth : Nat} {line : String} {tag : Name} {attributes : List (Name × Text)} {text : Text}
    (h : line.toList = spaces depth ++ openTag tag attributes ++ escape text ++ closeTag tag) :
    Prints depth [line] [leaf tag attributes text] := by
  unfold Prints
  rw [List.map_singleton, h]
  exact onLines_leaf depth tag attributes text

theorem prints_block {depth : Nat} {first last : String} {ls : List String} {tag : Name} {attributes : List (Name × Text)}
    {ms : List Markup} (h : Prints (depth + 1) ls ms) (hfirst : first.toList = spaces depth ++ openTag tag attributes)
    (hlast : last.toList = spaces depth ++ closeTag tag) :
    Prints depth (first :: ls ++ [last]) [block depth tag attributes ms] := by
  unfold Prints
  rw [List.map_append, List.map_cons, List.map_singleton, hfirst, hlast]
  exact onLines_block h tag attributes

theorem prints_tagged {α : Type} {ms : List Markup} (results : List α) (print : List α → List String)
    (h : Prints 2 (print results) ms) (hempty : ms.isEmpty = results.isEmpty) (tag : String) (htag : isName tag.toList = true) :
    Prints 1 (tagged tag results print) (tier (tagName tag htag) ms) := by
  unfold tagged tier
  rw [hempty]
  by_cases hresults : results.isEmpty = true
  · rw [if_pos hresults, if_pos hresults]
    exact .nil 1
  · rw [if_neg hresults, if_neg hresults]
    refine prints_block h ?_ ?_
    · simp only [String.toList_append, toString, openTag, List.append_assoc, List.cons_append]
      rfl
    · simp only [String.toList_append, toString, closeTag, List.append_assoc, List.cons_append]
      rfl

theorem renderAttributes_append (as bs : List (Name × Text)) :
    renderAttributes (as ++ bs) = renderAttributes as ++ renderAttributes bs := by
  simp [renderAttributes, attributePieces]

theorem renderAttributes_attr (s value : String) (h : isName s.toList = true) :
    renderAttributes [attr s value h] = ' ' :: s.toList ++ ['=', '"'] ++ escape value.toList ++ ['"'] := by
  unfold attr
  rw [renderAttributes_cons]
  exact List.append_nil _

/-! ## The identity -/

theorem prints_agent (a : AgentIdentity) : Prints 1 (agentLines a) [agentMarkup a] := by
  have hexpertise : ∀ x : String, Prints 2 [s!"    <expertise>{escapeXml x}</expertise>"]
      [leaf (tagName "expertise") [] x.toList] := by
    intro x
    refine prints_leaf ?_
    simp only [String.toList_append, toString, escapeXml_toList, openTag, closeTag, List.append_assoc, List.cons_append]
    rfl
  have hinstructions : ∀ x : String,
      Prints 2 [s!"    <instructions>{escapeXml x}</instructions>"] [leaf (tagName "instructions") [] x.toList] := by
    intro x
    refine prints_leaf ?_
    simp only [String.toList_append, toString, escapeXml_toList, openTag, closeTag, List.append_assoc, List.cons_append]
    rfl
  unfold agentLines agentMarkup
  refine prints_block ((Prints.map hexpertise _).append (.map hinstructions _)) ?_ rfl
  simp only [String.toList_append, toString, escapeXml_toList, openTag, renderAttributes_cons, attr, List.append_assoc,
    List.cons_append]
  rfl

theorem prints_dim {Dimension : Type} {text : Dimension → String} (htext : ∀ d, Plain (text d)) (p : PersonalityEntry Dimension) :
    Prints 2 [dimLine text p] [dimMarkup text p] := by
  refine prints_leaf ?_
  unfold dimLine
  simp only [String.toList_append, toString, escapeXml_toList, openTag, closeTag, renderAttributes_cons, attr,
    (htext _).1, (plain_toFixed _ _).1, List.append_assoc, List.cons_append]
  rfl

/-- What is joined has the separator before each but the first. -/
theorem intercalate_toList {c : Char} (sep : String) (hsep : sep.toList = [c]) (x : String) (xs : List String) :
    c :: (sep.intercalate (x :: xs)).toList = (x :: xs).flatMap fun y => c :: y.toList := by
  induction xs generalizing x with
  | nil => simp
  | cons y xs ih =>
    rw [String.intercalate_cons_cons, String.toList_append, String.toList_append, List.flatMap_cons, ← ih, hsep]
    simp

/-- Lines joined are the document. -/
theorem prints_document {first : String} {ls : List String} {m : Markup} (h : Prints 0 (first :: ls) [m]) :
    ("\n".intercalate (first :: ls)).toList = m.bare := by
  have hjoin := intercalate_toList (c := '\n') "\n" rfl first ls
  have hlines : (first :: ls).flatMap (fun y => '\n' :: y.toList) = '\n' :: m.bare := by
    simpa [Prints, onLines, lines, newline, spaces, List.flatMap_map] using h
  exact (List.cons.inj (hjoin.trans hlines)).2

theorem renderAttributes_given (s : String) (value : Option String) (h : isName s.toList = true) :
    renderAttributes (givenAttr s value h) = (userAttr s value).flatMap fun y => ' ' :: y.toList := by
  unfold givenAttr userAttr
  cases truthyText value with
  | none => rfl
  | some x =>
    show renderAttributes [attr s x h] = ' ' :: _ ++ []
    rw [renderAttributes_attr]
    simp [escapeXml_toList, toString]

theorem prints_user (u : UserIdentity) : Prints 1 [userLine u] [userMarkup u] := by
  have hattrs : renderAttributes (userAttributes u) =
      (userAttr "name" u.name ++ userAttr "role" u.role ++ userAttr "org" u.organization ++ userAttr "tz" u.timezone ++
        userAttr "lang" (some (u.language.getD "en"))).flatMap fun y => ' ' :: y.toList := by
    unfold userAttributes
    simp only [renderAttributes_append, renderAttributes_given, List.flatMap_append]
  have hlength : (userAttributes u).length =
      (userAttr "name" u.name ++ userAttr "role" u.role ++ userAttr "org" u.organization ++ userAttr "tz" u.timezone ++
        userAttr "lang" (some (u.language.getD "en"))).length := by
    simp [userAttributes, givenAttr, userAttr]
  unfold Prints userLine userMarkup
  generalize userAttr "name" u.name ++ userAttr "role" u.role ++ userAttr "org" u.organization ++ userAttr "tz" u.timezone ++
    userAttr "lang" (some (u.language.getD "en")) = attrs at hattrs hlength
  have hline : ∀ joined : String, onLines ([s!"  <user {joined} />"].map String.toList) =
      newline 1 ++ '<' :: "user".toList ++ (' ' :: joined.toList ++ [' ', '/', '>']) := by
    intro joined
    simp [onLines, newline, spaces, toString]
  have hbare : ∀ n, lines 1 [Markup.empty (tagName "user") (userAttributes u) n []] =
      newline 1 ++ '<' :: "user".toList ++ (renderAttributes (userAttributes u) ++
          (List.replicate (n + 1) ' ' ++ ['/', '>'])) := by
    intro n
    simp [lines, Markup.bare, tagName]
  refine (hline _).trans ((congrArg _ ?_).trans (hbare _).symm)
  cases attrs with
  | nil =>
    rw [List.eq_nil_of_length_eq_zero hlength]
    rfl
  | cons x xs =>
    have hne : (userAttributes u).isEmpty = false := by
      rw [List.isEmpty_eq_false_iff, List.ne_nil_iff_length_pos, hlength]
      simp
    rw [hne, hattrs, ← intercalate_toList (c := ' ') " " rfl]
    rfl

theorem prints_identity (thresholds : IdentityThresholds) (i : Identity) :
    (buildIdentityContext thresholds i).toList = (identityMarkup thresholds i).bare := by
  have hagent : Prints 1 ((i.agentId.map agentLines).getD []) (i.agentId.map agentMarkup).toList := by
    cases i.agentId with
    | none => exact .nil 1
    | some a => exact prints_agent a
  have huser : Prints 1 (i.userId.map userLine).toList (i.userId.map userMarkup).toList := by
    cases i.userId with
    | none => exact .nil 1
    | some u => exact prints_user u
  have hagents := prints_tagged (filteredP thresholds.personalityConfidenceThreshold i.agentPersonality) _
    (.map (prints_dim plain_agentDimension) _) List.isEmpty_map "agent_personality" (by decide)
  have husers := prints_tagged (filteredP thresholds.userPersonalityConfidenceThreshold i.userPersonality) _
    (.map (prints_dim plain_userDimension) _) List.isEmpty_map "user_personality" (by decide)
  have hall : Prints 0 ("<identity>" :: identityLines thresholds i ++ ["</identity>"]) [identityMarkup thresholds i] :=
    prints_block (((hagent.append hagents).append huser).append husers) rfl rfl
  exact prints_document hall

/-! ## The memory -/

theorem depth_toList (depth : Nat) : (depthAttr depth).toList = renderAttributes (depthAttribute depth) := by
  unfold depthAttr depthAttribute
  by_cases hdepth : 0 < depth
  · rw [if_pos hdepth, if_pos hdepth, renderAttributes_attr, (plain_toString depth).1]
    simp only [String.toList_append, toString, List.append_assoc, List.cons_append]
    rfl
  · rw [if_neg hdepth, if_neg hdepth]
    rfl

theorem prints_strategic (e : MetaMemoryEntry) : Prints 2 [strategicLine e] [strategicMarkup e] := by
  refine prints_leaf ?_
  unfold strategicLine
  have htext : ∀ s : String, toString s = s := fun _ => rfl
  simp only [String.toList_append, htext, escapeXml_toList, openTag, closeTag, renderAttributes_cons, attr,
    (plain_reflectionText _).1, (plain_toFixed _ _).1, (plain_toString _).1, List.append_assoc, List.cons_append]
  rfl

theorem prints_graded (tag : String) (htag : isName tag.toList = true) (e : MetaMemoryEntry) :
    Prints 2 [gradedLine tag e] [gradedMarkup (tagName tag htag) e] := by
  refine prints_leaf ?_
  unfold gradedLine
  simp only [String.toList_append, escapeXml_toList, openTag, closeTag, renderAttributes_cons, attr, toString,
    (plain_reflectionText _).1, (plain_toFixed _ _).1, List.append_assoc, List.cons_append]
  rfl

theorem prints_flat (e : MetaMemoryEntry) : Prints 2 [flatLine e] [flatMarkup e] := by
  refine prints_leaf ?_
  unfold flatLine
  simp only [String.toList_append, escapeXml_toList, openTag, closeTag, renderAttributes_cons, attr, toString, depth_toList,
    (plain_toFixed _ _).1, List.append_assoc, List.cons_append]
  rfl

theorem prints_metas (strategy : MetaStrategy) (es : List MetaMemoryEntry) :
    Prints 2 (metaLines strategy es) (metaMarkups strategy es) := by
  cases strategy with
  | cascade =>
    exact ((Prints.map prints_strategic _).append (.map (prints_graded "evaluated" (by decide)) _)).append
      (.map (prints_graded "observation" (by decide)) _)
  | flat => exact .map prints_flat es

theorem metaMarkups_isEmpty (strategy : MetaStrategy) (es : List MetaMemoryEntry) :
    (metaMarkups strategy es).isEmpty = es.isEmpty := by
  cases strategy with
  | cascade =>
    rw [Bool.eq_iff_iff, List.isEmpty_iff, List.isEmpty_iff]
    constructor
    · intro h
      refine List.eq_nil_iff_forall_not_mem.mpr fun e he => ?_
      have hnone : ∀ m ∈ metaMarkups .cascade es, False := by
        rw [h]
        exact nofun
      unfold metaMarkups at hnone
      -- each depth is in one of the three groups
      by_cases hstrategic : 2 ≤ e.depth
      · refine hnone (strategicMarkup e) ?_
        simp only [List.mem_append, List.mem_map, List.mem_filter]
        exact .inl (.inl ⟨e, ⟨he, by simpa using hstrategic⟩, rfl⟩)
      · by_cases hevaluated : e.depth = 1
        · refine hnone (gradedMarkup (tagName "evaluated") e) ?_
          simp only [List.mem_append, List.mem_map, List.mem_filter]
          exact .inl (.inr ⟨e, ⟨he, by simpa using hevaluated⟩, rfl⟩)
        · have hobservation : e.depth = 0 := by omega
          refine hnone (gradedMarkup (tagName "observation") e) ?_
          simp only [List.mem_append, List.mem_map, List.mem_filter]
          exact .inr ⟨e, ⟨he, by simpa using hobservation⟩, rfl⟩
    · rintro rfl
      rfl
  | flat => exact List.isEmpty_map

theorem prints_memory (r : SemanticResult) : Prints 2 [memoryLine r] [memoryMarkup r] := by
  refine prints_leaf ?_
  unfold memoryLine
  simp only [String.toList_append, escapeXml_toList, openTag, closeTag, renderAttributes_append, renderAttributes_cons, attr,
    toString, depth_toList, (plain_memoryText _).1, (plain_toFixed _ _).1, List.append_assoc, List.cons_append]
  rfl

theorem prints_entry (e : ExternalMemoryEntry) : Prints 2 [entryLine e] [entryMarkup e] := by
  refine prints_leaf ?_
  unfold entryLine
  simp only [String.toList_append, escapeXml_toList, openTag, closeTag, renderAttributes_cons, attr, toString,
    (plain_sourceText _).1, List.append_assoc, List.cons_append]
  rfl

theorem mem_replace {c a b : Char} {s : List Char} (h : c ∈ s.replace a b) : c ∈ s ∨ c = b := by
  induction s with
  | nil => exact .inl h
  | cons d s ih =>
    rw [List.replace_cons] at h
    cases hd : a == d with
    | true =>
      rw [hd] at h
      rcases List.mem_cons.mp h with hc | hc
      · exact .inr hc
      · exact .inl (.tail _ hc)
    | false =>
      rw [hd] at h
      rcases List.mem_cons.mp h with rfl | hc
      · exact .inl (.head _)
      · exact (ih hc).imp (.tail _) id

theorem plain_printed {time : Except String String} (h : ∀ s, time = .ok s → Stamp s.toList) : Plain (printed time) := by
  cases time with
  | error e => exact ⟨rfl, rfl⟩
  | ok s => exact plain_stamp (h s rfl)

theorem plain_messageTime (m : MessageRow) : Plain (printed (messageTime m)) := by
  refine plain_printed fun s hs => ?_
  unfold messageTime at hs
  cases htime : toISOString m.timestamp with
  | error e =>
    rw [htime] at hs
    cases hs
  | ok t =>
    rw [htime] at hs
    obtain rfl := Except.ok.inj hs
    rw [String.toList_ofList]
    refine .sublist (List.take_sublist _ _) fun c hc => ?_
    rcases mem_replace hc with hc | rfl
    · exact toISOString_stamp htime c hc
    · decide

theorem plain_contextDate (now : Nat) : Plain (printed (contextDate now)) := by
  refine plain_printed fun s hs => ?_
  unfold contextDate at hs
  cases htime : toISOString now with
  | error e =>
    rw [htime] at hs
    cases hs
  | ok t =>
    rw [htime] at hs
    obtain rfl := Except.ok.inj hs
    rw [String.toList_ofList]
    exact .sublist (List.take_sublist _ _) (toISOString_stamp htime)

theorem sender_toList (m : MessageRow) : (sender m).toList =
    escape (if m.isBotMessage then "assistant" else m.senderName).toList := by
  unfold sender
  by_cases hbot : m.isBotMessage = true
  · rw [if_pos hbot, if_pos hbot]
    decide
  · rw [if_neg hbot, if_neg hbot, escapeXml_toList]

theorem prints_message {m : MessageRow} {l : String} (h : messageLine m = .ok l) : Prints 2 [l] [messageMarkup m] := by
  have hline : l = messageText m (printed (messageTime m)) := by
    unfold messageLine at h
    cases htime : messageTime m with
    | error e =>
      rw [htime] at h
      cases h
    | ok time =>
      rw [htime] at h
      exact (Except.ok.inj h).symm
  rw [hline]
  refine prints_leaf ?_
  unfold messageText
  simp only [String.toList_append, escapeXml_toList, openTag, closeTag, renderAttributes_cons, attr, toString, sender_toList,
    (plain_messageTime _).1, List.append_assoc, List.cons_append]
  rfl

theorem prints_messages {ms : List MessageRow} {ls : List String} (h : ms.mapM messageLine = .ok ls) :
    Prints 2 ls (ms.map messageMarkup) := by
  induction ms generalizing ls with
  | nil =>
    obtain rfl := Except.ok.inj h
    exact .nil 2
  | cons m ms ih =>
    rw [List.mapM_cons] at h
    cases hline : messageLine m with
    | error e =>
      rw [hline] at h
      cases h
    | ok l =>
      rw [hline] at h
      cases hrest : ms.mapM messageLine with
      | error e =>
        rw [hrest] at h
        cases h
      | ok rest =>
        rw [hrest] at h
        obtain rfl := Except.ok.inj h
        exact (prints_message hline).append (ih hrest)

theorem indentText_toList (s : String) : (indentText s).toList = indent s.toList := by
  unfold indentText
  rw [String.toList_ofList]
  generalize s.toList = cs
  induction cs with
  | nil => rfl
  | cons c cs ih =>
    show _ = indentChar c ++ indent cs
    rw [← ih, List.splitOn_cons_eq_if_modifyHead]
    unfold indentChar
    have hne : cs.splitOn '\n' ≠ [] := List.splitOn_ne_nil _ _
    by_cases hc : c = '\n'
    · rw [if_pos hc, if_pos (beq_iff_eq.mpr hc), List.intercalate_cons_of_ne_nil hne]
      rfl
    · rw [if_neg hc, if_neg (mt beq_iff_eq.mp hc)]
      obtain ⟨l, ls, hsplit⟩ := List.exists_cons_of_ne_nil hne
      rw [hsplit]
      exact List.intercalate_cons_cons_left

theorem indent_bare {m : Markup} (h : m.tail = []) : indent m.bare = (m.mapText indent indent).bare := by
  have hrender := indent_render m
  have htail : (m.mapText indent indent).tail = [] := by
    cases m with
    | element => exact congrArg indent h
    | empty => exact congrArg indent h
  rw [Markup.render_bare, Markup.render_bare, h, htail] at hrender
  simpa [escape] using hrender

/-- A document in a line that begins two columns to the right, each further line moved. -/
theorem prints_moved {text : String} {m : Markup} (h : text.toList = m.bare) (htail : m.tail = []) :
    Prints 1 [s!"  {indentText text}"] [m.mapText indent indent] := by
  have hmoved : (indentText text).toList = (m.mapText indent indent).bare := by
    rw [indentText_toList, h, indent_bare htail]
  unfold Prints lines
  simp [onLines, toString, hmoved, newline, spaces]

theorem tzAttr_toList (timezone : Option String) :
    (tzAttr timezone).toList = renderAttributes (givenAttr "timezone" timezone) := by
  unfold tzAttr givenAttr
  cases truthyText timezone with
  | none => rfl
  | some zone =>
    show _ = renderAttributes [attr "timezone" zone]
    rw [renderAttributes_attr]
    simp only [String.toList_append, toString, escapeXml_toList, List.append_assoc, List.cons_append]
    rfl

theorem prints_context {config : ContextConfig} {now : Nat} {chatId : String} {timezone : Option String} {r : Retrieved}
    {out : String} (h : buildAgentContext config now chatId timezone (some r) = .ok out) :
    out.toList = (contextMarkup config now timezone r).bare := by
  unfold buildAgentContext at h
  cases hdate : contextDate now with
  | error e =>
    rw [hdate] at h
    cases h
  | ok date =>
    rw [hdate] at h
    cases hmessages : r.sessionMessages.mapM messageLine with
    | error e =>
      simp only [hmessages] at h
      cases h
    | ok messages =>
      simp only [hmessages] at h
      obtain rfl := Except.ok.inj h
      have hidentity := prints_moved (prints_identity config.identityThresholds r.identity) rfl
      have hmetas := prints_tagged r.metaResults _ (prints_metas config.metaStrategy r.metaResults) (metaMarkups_isEmpty _ _)
        "meta_memory" (by decide)
      have hsemantic := prints_tagged r.semanticResults _ (.map prints_memory _) List.isEmpty_map "semantic_memory" (by decide)
      have hexternal := prints_tagged r.externalResults _ (.map prints_entry _) List.isEmpty_map "external_memory" (by decide)
      have hworking := prints_tagged r.sessionMessages (fun _ => messages) (prints_messages hmessages)
        List.isEmpty_map "working_memory" (by decide)
      refine prints_document
        (prints_block ((((hidentity.append hmetas).append hsemantic).append hexternal).append hworking) ?_ rfl)
      have hplain := (plain_contextDate now).1
      rw [hdate] at hplain ⊢
      simp only [String.toList_append, toString, openTag, renderAttributes_append, renderAttributes_attr, tzAttr_toList, hplain,
        List.append_assoc, List.cons_append]
      rfl

end FlowHelm.Memory.AgentContext
