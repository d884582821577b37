/-
  FlowHelm.Lib.XmlLines — XML documents with each tag, or each element without children, on a
  line of its own, two columns to the right of what is around it.

  `block` and `leaf` build such a document; the white space of the layout is the text and the
  tails of the elements that have children.

  - `onLines_block`: a document is the lines of its children between its tags.
-/
import FlowHelm.Lib.Xml

namespace Xml

def spaces (depth : Nat) : Text := List.replicate (2 * depth) ' '

def newline (depth : Nat) : Text := '\n' :: spaces depth

def openTag (tag : Name) (attributes : List (Name × Text)) : Text :=
  '<' :: tag.chars ++ renderAttributes attributes ++ ['>']

def closeTag (tag : Name) : Text := '<' :: '/' :: tag.chars ++ ['>']

def Markup.setTail (m : Markup) (tail : Text) : Markup := match m with
  | .element tag attributes text children _ => .element tag attributes text children tail
  | .empty tag attributes spaces _ => .empty tag attributes spaces tail

/-- `inner` between the documents, `outer` after the last. -/
def setTails (inner outer : Text) : List Markup → List Markup
  | [] => []
  | [m] => [m.setTail outer]
  | m :: n :: ms => m.setTail inner :: setTails inner outer (n :: ms)

/-- An element in a line. -/
def leaf (tag : Name) (attributes : List (Name × Text)) (text : Text) : Markup := .element tag attributes text [] []

/-- An element with the children on lines between its tags. -/
def block (depth : Nat) (tag : Name) (attributes : List (Name × Text)) (children : List Markup) : Markup :=
  .element tag attributes (if children = [] then newline depth else newline (depth + 1))
    (setTails (newline (depth + 1)) (newline depth) children) []

/-! ## What is printed -/

/-- Each line after a line feed. -/
def onLines (ls : List Text) : Text := ls.flatMap fun l => '\n' :: l

/-- Each document on a line. -/
def lines (depth : Nat) (ms : List Markup) : Text := ms.flatMap fun m => newline depth ++ m.bare

theorem onLines_append (ls ks : List Text) : onLines (ls ++ ks) = onLines ls ++ onLines ks := List.flatMap_append

theorem lines_append (depth : Nat) (ms ns : List Markup) : lines depth (ms ++ ns) = lines depth ms ++ lines depth ns :=
  List.flatMap_append

theorem escape_newline (depth : Nat) : escape (newline depth) = newline depth := by
  have hspaces : ∀ n, escape (List.replicate n ' ') = List.replicate n ' ' := by
    intro n
    induction n with
    | zero => rfl
    | succ n ih =>
      rw [List.replicate_succ]
      exact congrArg (' ' :: ·) ih
  exact congrArg ('\n' :: ·) (hspaces _)

theorem bare_setTail (m : Markup) (t : Text) : (m.setTail t).bare = m.bare := by
  cases m <;> rfl

theorem render_setTail (m : Markup) (t : Text) : (m.setTail t).render = m.bare ++ escape t := by
  have htail : (m.setTail t).tail = t := by cases m <;> rfl
  rw [Markup.render_bare, bare_setTail, htail]

theorem renderAll_setTails (depth : Nat) (m : Markup) (ms : List Markup) :
    newline (depth + 1) ++ renderAll (setTails (newline (depth + 1)) (newline depth) (m :: ms)) =
      lines (depth + 1) (m :: ms) ++ newline depth := by
  induction ms generalizing m with
  | nil =>
    show _ ++ renderAll [m.setTail (newline depth)] = _
    rw [renderAll_cons, render_setTail, escape_newline]
    simp [renderAll, piecesAll, lines]
  | cons n ms ih =>
    show _ ++ renderAll (m.setTail (newline (depth + 1)) :: setTails _ _ (n :: ms)) = _
    rw [renderAll_cons, render_setTail, escape_newline, List.append_assoc, ih]
    simp [lines]

theorem bare_leaf (tag : Name) (attributes : List (Name × Text)) (text : Text) :
    (leaf tag attributes text).bare = openTag tag attributes ++ escape text ++ closeTag tag := by
  simp [leaf, Markup.bare, openTag, closeTag, renderAll, piecesAll]

theorem bare_block (depth : Nat) (tag : Name) (attributes : List (Name × Text)) (children : List Markup) :
    (block depth tag attributes children).bare =
      openTag tag attributes ++ lines (depth + 1) children ++ newline depth ++ closeTag tag := by
  show openTag tag attributes ++ escape (if children = [] then _ else _) ++ renderAll (setTails _ _ children) ++
    closeTag tag = _
  cases children with
  | nil =>
    rw [if_pos rfl, escape_newline]
    simp [setTails, renderAll, piecesAll, lines]
  | cons m ms =>
    rw [if_neg (List.cons_ne_nil _ _), escape_newline, List.append_assoc (openTag tag attributes), renderAll_setTails]
    simp

theorem onLines_leaf (depth : Nat) (tag : Name) (attributes : List (Name × Text)) (text : Text) :
    onLines [spaces depth ++ openTag tag attributes ++ escape text ++ closeTag tag] =
      lines depth [leaf tag attributes text] := by
  simp [onLines, lines, newline, bare_leaf]

/-- The lines of the children between the tags. -/
theorem onLines_block {depth : Nat} {children : List Markup} {ls : List Text} (h : onLines ls = lines (depth + 1) children)
    (tag : Name) (attributes : List (Name × Text)) :
    onLines ((spaces depth ++ openTag tag attributes) :: ls ++ [spaces depth ++ closeTag tag]) =
      lines depth [block depth tag attributes children] := by
  have hlines : onLines ((spaces depth ++ openTag tag attributes) :: ls ++ [spaces depth ++ closeTag tag]) =
      '\n' :: (spaces depth ++ openTag tag attributes) ++ onLines ls ++ '\n' :: (spaces depth ++ closeTag tag) := by
    simp [onLines]
  rw [hlines, h]
  simp [lines, newline, bare_block]

/-! ## What the elements have -/

theorem distinctAll_iff (ms : List Markup) : DistinctAll ms ↔ ∀ m ∈ ms, m.Distinct := by
  induction ms with
  | nil => simp [DistinctAll]
  | cons m ms ih => simp [DistinctAll, ih]

theorem legal_attributes (attributes : List (Name × Text)) :
    (∀ x ∈ attributePieces attributes, x.2.all isChar = true) ↔ ∀ a ∈ attributes, a.2.all isChar = true := by
  constructor
  · intro h a ha
    exact h (' ' :: a.1.chars ++ ['=', '"'], a.2) (List.mem_flatMap.mpr ⟨a, ha, .head _⟩)
  · intro h x hx
    obtain ⟨a, ha, hx⟩ := List.mem_flatMap.mp hx
    simp only [List.mem_cons, List.not_mem_nil, or_false] at hx
    rcases hx with rfl | rfl
    · exact h a ha
    · rfl

theorem legal_element (tag : Name) (attributes : List (Name × Text)) (text tail : Text) (children : List Markup) :
    (Markup.element tag attributes text children tail).Legal ↔ (∀ a ∈ attributes, a.2.all isChar = true) ∧
      text.all isChar = true ∧ (∀ m ∈ children, m.Legal) ∧ tail.all isChar = true := by
  have hchildren : (∀ x ∈ piecesAll children, x.2.all isChar = true) ↔ ∀ m ∈ children, m.Legal := by
    induction children with
    | nil => simp [piecesAll]
    | cons m ms ih =>
      simp only [piecesAll, List.forall_mem_append, List.forall_mem_cons, ih]
      rfl
  show (∀ x ∈ ('<' :: tag.chars, []) :: attributePieces attributes ++ (['>'], text) :: piecesAll children ++
    [('<' :: '/' :: tag.chars ++ ['>'], tail)], x.2.all isChar = true) ↔ _
  simp only [List.cons_append, List.forall_mem_append, List.forall_mem_cons, List.append_assoc, legal_attributes, hchildren,
    List.all_nil, true_and]
  simp

theorem legal_setTail (m : Markup) (t : Text) : (m.setTail t).Legal ↔ (m.setTail []).Legal ∧ t.all isChar = true := by
  cases m with
  | element tag attributes text children tail =>
    unfold Markup.setTail
    rw [legal_element, legal_element]
    simp [and_assoc]
  | empty tag attributes spaces tail =>
    unfold Markup.setTail Markup.Legal Markup.pieces
    simp only [List.cons_append, List.forall_mem_append, List.forall_mem_cons]
    simp

theorem all_newline (depth : Nat) : (newline depth).all isChar = true := by
  unfold newline spaces
  rw [List.all_cons, List.all_replicate]
  simp [isChar]

theorem legal_setTails (inner outer : Nat) (ms : List Markup) :
    (∀ m ∈ setTails (newline inner) (newline outer) ms, m.Legal) ↔ ∀ m ∈ ms, (m.setTail []).Legal := by
  induction ms with
  | nil => simp [setTails]
  | cons m ms ih =>
    cases ms with
    | nil =>
      show (∀ n ∈ [m.setTail (newline outer)], n.Legal) ↔ _
      rw [List.forall_mem_singleton, List.forall_mem_singleton, legal_setTail, all_newline, and_iff_left rfl]
    | cons n ms =>
      show (∀ k ∈ m.setTail (newline inner) :: setTails (newline inner) (newline outer) (n :: ms), k.Legal) ↔ _
      rw [List.forall_mem_cons, List.forall_mem_cons, ih, legal_setTail, all_newline, and_iff_left rfl]

theorem legal_block (depth : Nat) (tag : Name) (attributes : List (Name × Text)) (children : List Markup) :
    (block depth tag attributes children).Legal ↔
      (∀ a ∈ attributes, a.2.all isChar = true) ∧ ∀ m ∈ children, (m.setTail []).Legal := by
  have htext : (if children = [] then newline depth else newline (depth + 1)).all isChar = true := by
    split <;> exact all_newline _
  unfold block
  rw [legal_element, htext, legal_setTails]
  simp

theorem legal_leaf (tag : Name) (attributes : List (Name × Text)) (text : Text) :
    (leaf tag attributes text).Legal ↔ (∀ a ∈ attributes, a.2.all isChar = true) ∧ text.all isChar = true := by
  unfold leaf
  rw [legal_element]
  simp

theorem legal_empty (tag : Name) (attributes : List (Name × Text)) (spaces : Nat) :
    (Markup.empty tag attributes spaces []).Legal ↔ ∀ a ∈ attributes, a.2.all isChar = true := by
  show (∀ x ∈ ('<' :: tag.chars, []) :: attributePieces attributes ++ [(List.replicate (spaces + 1) ' ' ++ ['/', '>'], [])],
    x.2.all isChar = true) ↔ _
  simp only [List.cons_append, List.forall_mem_append, List.forall_mem_cons, legal_attributes, List.all_nil, true_and]
  simp

theorem legal_indent (m : Markup) : (m.mapText indent indent).Legal ↔ m.Legal := by
  have hindent : ∀ v : Text, (indent v).all isChar = v.all isChar := by
    intro v
    induction v with
    | nil => rfl
    | cons c v ih =>
      have hc : (indentChar c).all isChar = isChar c := by
        unfold indentChar
        by_cases hn : c = '\n'
        · rw [if_pos hn, hn]
          rfl
        · rw [if_neg hn]
          simp
      show (indentChar c ++ indent v).all isChar = _
      rw [List.all_append, hc, ih]
      rfl
  unfold Markup.Legal
  rw [pieces_mapText indent rfl, List.forall_mem_map]
  simp only [hindent]

theorem distinct_setTail (m : Markup) (t : Text) : (m.setTail t).Distinct ↔ m.Distinct := by
  cases m <;> exact Iff.rfl

theorem mem_setTails {inner outer : Text} {ms : List Markup} {n : Markup} (hn : n ∈ setTails inner outer ms) :
    ∃ m ∈ ms, ∃ t, n = m.setTail t := by
  induction ms with
  | nil => cases hn
  | cons m ms ih =>
    cases ms with
    | nil => exact ⟨m, .head _, outer, List.mem_singleton.mp hn⟩
    | cons k ms =>
      rcases List.mem_cons.mp hn with rfl | hn
      · exact ⟨m, .head _, inner, rfl⟩
      · obtain ⟨m', hm', ht⟩ := ih hn
        exact ⟨m', .tail _ hm', ht⟩

theorem distinct_block {depth : Nat} {tag : Name} {attributes : List (Name × Text)} {children : List Markup}
    (hattributes : (attributes.map Prod.fst).Nodup) (hchildren : ∀ m ∈ children, m.Distinct) :
    (block depth tag attributes children).Distinct := by
  refine ⟨hattributes, (distinctAll_iff _).mpr ?_⟩
  intro n hn
  obtain ⟨m, hm, t, rfl⟩ := mem_setTails hn
  exact (distinct_setTail m t).mpr (hchildren m hm)

theorem skeleton_setTail (m : Markup) (t : Text) : (m.setTail t).skeleton = m.skeleton := by
  cases m <;> rfl

theorem skeleton_setTails (inner outer : Text) (ms : List Markup) :
    (setTails inner outer ms).map Markup.skeleton = ms.map Markup.skeleton := by
  induction ms with
  | nil => rfl
  | cons m ms ih =>
    cases ms with
    | nil => exact congrArg (· :: []) (skeleton_setTail m outer)
    | cons n ms =>
      show (m.setTail inner).skeleton :: (setTails inner outer (n :: ms)).map Markup.skeleton = _
      rw [skeleton_setTail, ih]
      rfl

theorem skeleton_block (depth : Nat) (tag : Name) (attributes : List (Name × Text)) (children : List Markup) :
    (block depth tag attributes children).skeleton = .mk tag (attributes.map Prod.fst) (children.map Markup.skeleton) := by
  show Skeleton.mk tag _ (skeletonAll (setTails _ _ children)) = _
  rw [skeletonAll_eq_map, skeleton_setTails]

end Xml
