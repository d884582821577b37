/-
  FlowHelm.Lib.Xml — XML documents read and printed.

  `parse` reads what XML 1.0 calls elements, attributes and references to the predefined
  entities; declarations, comments, sections and the like it refuses. As the standard has it,
  only its characters may occur, a carriage return (and the line feed after it) is read as a
  line feed, white space in an attribute as a space. An element keeps the text up to its
  first child, and each child the text after it (`tail`). `Markup` is a document with its
  layout, `render` its text; names are valid by their type.

  - `parse_render`: what is read of a document that was printed with its texts escaped.
-/

namespace Xml

abbrev Text := List Char

/-! ## Characters and names -/

def isNameStart (c : Char) : Bool := c.isAlpha || c == '_'

def isNameChar (c : Char) : Bool := isNameStart c || c.isDigit || c == '-' || c == '.'

def isName : Text → Bool
  | [] => false
  | c :: cs => isNameStart c && cs.all isNameChar

structure Name where
  chars : Text
  valid : isName chars = true
  deriving DecidableEq

def Name.read (s : Text) : Option Name := if h : isName s = true then some ⟨s, h⟩ else none

/-- `Char` of the standard. -/
def isChar (c : Char) : Bool :=
  c == '\t' || c == '\n' || c == '\r' || (' ' ≤ c && c.val != 0xFFFE && c.val != 0xFFFF)

def isSpace (c : Char) : Bool := c == ' ' || c == '\t' || c == '\n' || c == '\r'

/-- Line ends, `cr` after a carriage return. -/
def endingsFrom : Bool → Text → Text
  | _, [] => []
  | cr, c :: rest =>
    if c = '\r' then '\n' :: endingsFrom true rest
    else if cr && c == '\n' then endingsFrom false rest
    else c :: endingsFrom false rest

def endings (s : Text) : Text := endingsFrom false s

/-- White space in an attribute. -/
def blank (c : Char) : Char := if isSpace c then ' ' else c

def entity (name : Text) : Option Char :=
  if name = ['a', 'm', 'p'] then some '&'
  else if name = ['l', 't'] then some '<'
  else if name = ['g', 't'] then some '>'
  else if name = ['q', 'u', 'o', 't'] then some '"'
  else if name = ['a', 'p', 'o', 's'] then some '\''
  else none

/-! ## Reading -/

inductive Element where
  | mk (tag : Name) (attributes : List (Name × Text)) (text : Text) (children : List Element) (tail : Text)

mutual

/-- Its attributes and texts, in their order. -/
def Element.texts : Element → List Text
  | .mk _ attributes text children tail => attributes.map Prod.snd ++ text :: textsAll children ++ [tail]

def textsAll : List Element → List Text
  | [] => []
  | e :: es => e.texts ++ textsAll es

end

/-- An element still open, its children newest first. -/
structure Open where
  tag : Name
  attributes : List (Name × Text)
  text : Text
  children : List Element

def Open.push (o : Open) (s : Text) : Open := match o.children with
  | [] => { o with text := o.text ++ s }
  | .mk tag attributes text children tail :: rest =>
    { o with children := .mk tag attributes text children (tail ++ s) :: rest }

def Open.add (o : Open) (e : Element) : Open := { o with children := e :: o.children }

def Open.close (o : Open) : Element := .mk o.tag o.attributes o.text o.children.reverse []

inductive Mode where
  | content
  | reference (name : Text)
  /-- After an opening angle. -/
  | markup
  | startTag (name : Text)
  | space (tag : Name) (attributes : List (Name × Text))
  | attribute (tag : Name) (attributes : List (Name × Text)) (name : Text)
  | equals (tag : Name) (attributes : List (Name × Text)) (name : Name)
  | value (tag : Name) (attributes : List (Name × Text)) (name : Name) (value : Text)
  | valueReference (tag : Name) (attributes : List (Name × Text)) (name : Name) (value ref : Text)
  /-- After the quote that ends a value. -/
  | quoted (tag : Name) (attributes : List (Name × Text))
  /-- After the slash of an empty element. -/
  | slash (tag : Name) (attributes : List (Name × Text))
  | endTag (name : Text)

structure Parser where
  stack : List Open
  root : Option Element
  mode : Mode

def finishElement (stack : List Open) (root : Option Element) (e : Element) : Option Parser := match stack, root with
  | [], none => some ⟨[], some e, .content⟩
  | [], some _ => none
  | o :: rest, root => some ⟨o.add e :: rest, root, .content⟩

/-- In a start tag, where no name goes on. -/
def inTag (stack : List Open) (root : Option Element) (tag : Name) (attributes : List (Name × Text)) (c : Char) : Option Parser :=
  if isSpace c then some ⟨stack, root, .space tag attributes⟩
  else if c = '>' then some ⟨⟨tag, attributes, [], []⟩ :: stack, root, .content⟩
  else if c = '/' then some ⟨stack, root, .slash tag attributes⟩
  else none

def feed (p : Parser) (c : Char) : Option Parser :=
  match p.mode with
  | .content =>
    if c = '<' then some ⟨p.stack, p.root, .markup⟩
    else match p.stack with
    | [] => if isSpace c then some p else none
    | o :: rest =>
      if c = '&' then some ⟨p.stack, p.root, .reference []⟩
      else if c = '>' then none
      else some ⟨o.push [c] :: rest, p.root, .content⟩
  | .reference name =>
    if c = ';' then
      match entity name, p.stack with
      | some x, o :: rest => some ⟨o.push [x] :: rest, p.root, .content⟩
      | _, _ => none
    else some ⟨p.stack, p.root, .reference (name ++ [c])⟩
  | .markup =>
    if c = '/' then some ⟨p.stack, p.root, .endTag []⟩
    else if isNameStart c then some ⟨p.stack, p.root, .startTag [c]⟩
    else none
  | .startTag name =>
    if isNameChar c then some ⟨p.stack, p.root, .startTag (name ++ [c])⟩
    else match Name.read name with
    | some tag => inTag p.stack p.root tag [] c
    | none => none
  | .space tag attributes =>
    if isNameStart c then some ⟨p.stack, p.root, .attribute tag attributes [c]⟩
    else inTag p.stack p.root tag attributes c
  | .attribute tag attributes name =>
    if isNameChar c then some ⟨p.stack, p.root, .attribute tag attributes (name ++ [c])⟩
    else if c = '=' then
      match Name.read name with
      | some name => some ⟨p.stack, p.root, .equals tag attributes name⟩
      | none => none
    else none
  | .equals tag attributes name => if c = '"' then some ⟨p.stack, p.root, .value tag attributes name []⟩ else none
  | .value tag attributes name value =>
    if c = '"' then
      if name ∈ attributes.map Prod.fst then none
      else some ⟨p.stack, p.root, .quoted tag (attributes ++ [(name, value)])⟩
    else if c = '<' then none
    else if c = '&' then some ⟨p.stack, p.root, .valueReference tag attributes name value []⟩
    else some ⟨p.stack, p.root, .value tag attributes name (value ++ [blank c])⟩
  | .valueReference tag attributes name value ref =>
    if c = ';' then
      match entity ref with
      | some x => some ⟨p.stack, p.root, .value tag attributes name (value ++ [x])⟩
      | none => none
    else some ⟨p.stack, p.root, .valueReference tag attributes name value (ref ++ [c])⟩
  | .quoted tag attributes => inTag p.stack p.root tag attributes c
  | .slash tag attributes => if c = '>' then finishElement p.stack p.root (.mk tag attributes [] [] []) else none
  | .endTag name =>
    if c = '>' then
      match p.stack with
      | o :: rest => if o.tag.chars = name then finishElement rest p.root o.close else none
      | [] => none
    else some ⟨p.stack, p.root, .endTag (name ++ [c])⟩

def finish (p : Parser) : Option Element := match p.stack, p.root, p.mode with
  | [], some e, .content => some e
  | _, _, _ => none

def run (p : Parser) (s : Text) : Option Parser := s.foldlM feed p

def parse (s : Text) : Option Element :=
  if s.all isChar then (run ⟨[], none, .content⟩ (endings s)).bind finish else none

/-! ## Printing -/

def escapeChar (c : Char) : Text :=
  if c = '&' then "&amp;".toList
  else if c = '<' then "&lt;".toList
  else if c = '>' then "&gt;".toList
  else if c = '"' then "&quot;".toList
  else [c]

def escape (s : Text) : Text := s.flatMap escapeChar

/-- A document as it is laid out: an element, or an empty one with the space before its slash. -/
inductive Markup where
  | element (tag : Name) (attributes : List (Name × Text)) (text : Text) (children : List Markup) (tail : Text)
  | empty (tag : Name) (attributes : List (Name × Text)) (spaces : Nat) (tail : Text)

/-- Markup and the text that follows it. -/
abbrev Piece := Text × Text

def Piece.chars (x : Piece) : Text := x.1 ++ escape x.2

def attributePieces (attributes : List (Name × Text)) : List Piece :=
  attributes.flatMap fun a => [(' ' :: a.1.chars ++ ['=', '"'], a.2), (['"'], [])]

mutual

def Markup.pieces : Markup → List Piece
  | .element tag attributes text children tail =>
    ('<' :: tag.chars, []) :: attributePieces attributes ++ (['>'], text) :: piecesAll children ++
      [('<' :: '/' :: tag.chars ++ ['>'], tail)]
  | .empty tag attributes spaces tail =>
    ('<' :: tag.chars, []) :: attributePieces attributes ++ [(List.replicate (spaces + 1) ' ' ++ ['/', '>'], tail)]

def piecesAll : List Markup → List Piece
  | [] => []
  | m :: ms => m.pieces ++ piecesAll ms

end

def Markup.render (m : Markup) : Text := m.pieces.flatMap Piece.chars

def renderAll (ms : List Markup) : Text := (piecesAll ms).flatMap Piece.chars

def renderAttributes (attributes : List (Name × Text)) : Text := (attributePieces attributes).flatMap Piece.chars

mutual

/-- The element that is laid out. -/
def Markup.toElement : Markup → Element
  | .element tag attributes text children tail => .mk tag attributes text (toElements children) tail
  | .empty tag attributes _ tail => .mk tag attributes [] [] tail

def toElements : List Markup → List Element
  | [] => []
  | m :: ms => m.toElement :: toElements ms

end

mutual

/-- Each text, and each attribute, changed. -/
def Markup.mapText (f g : Text → Text) : Markup → Markup
  | .element tag attributes text children tail =>
    .element tag (attributes.map fun a => (a.1, g a.2)) (f text) (mapTextAll f g children) (f tail)
  | .empty tag attributes spaces tail => .empty tag (attributes.map fun a => (a.1, g a.2)) spaces (f tail)

def mapTextAll (f g : Text → Text) : List Markup → List Markup
  | [] => []
  | m :: ms => m.mapText f g :: mapTextAll f g ms

end

/-! ## Reading what was printed -/

theorem run_append (p : Parser) (s t : Text) : run p (s ++ t) = (run p s).bind fun q => run q t := List.foldlM_append

theorem run_cons (p : Parser) (c : Char) (s : Text) : run p (c :: s) = (feed p c).bind fun q => run q s := rfl

@[simp] theorem Open.push_nil (o : Open) : o.push [] = o := by
  obtain ⟨tag, attributes, text, children⟩ := o
  cases children with
  | nil => simp [Open.push]
  | cons e rest =>
    cases e
    simp [Open.push]

theorem Open.push_push (o : Open) (s t : Text) : (o.push s).push t = o.push (s ++ t) := by
  obtain ⟨tag, attributes, text, children⟩ := o
  cases children with
  | nil => simp [Open.push]
  | cons e rest =>
    cases e
    simp [Open.push]

variable {stack rest : List Open} {root : Option Element} {tag : Name} {attributes : List (Name × Text)}

theorem run_escapeChar (o : Open) (c : Char) :
    run ⟨o :: rest, root, .content⟩ (escapeChar c) = some ⟨o.push [c] :: rest, root, .content⟩ := by
  unfold escapeChar
  by_cases hamp : c = '&'
  · rw [if_pos hamp, hamp]
    rfl
  · by_cases hlt : c = '<'
    · rw [if_neg hamp, if_pos hlt, hlt]
      rfl
    · by_cases hgt : c = '>'
      · rw [if_neg hamp, if_neg hlt, if_pos hgt, hgt]
        rfl
      · by_cases hquot : c = '"'
        · rw [if_neg hamp, if_neg hlt, if_neg hgt, if_pos hquot, hquot]
          rfl
        · rw [if_neg hamp, if_neg hlt, if_neg hgt, if_neg hquot, run_cons]
          simp only [feed]
          rw [if_neg hlt, if_neg hamp, if_neg hgt]
          rfl

theorem run_escape (o : Open) (s : Text) :
    run ⟨o :: rest, root, .content⟩ (escape s) = some ⟨o.push s :: rest, root, .content⟩ := by
  induction s generalizing o with
  | nil =>
    rw [Open.push_nil]
    rfl
  | cons c s ih =>
    show run _ (escapeChar c ++ escape s) = _
    rw [run_append, run_escapeChar, Option.bind_some, ih, Open.push_push]
    rfl

theorem run_value_char (name : Name) (value : Text) (c : Char) :
    run ⟨stack, root, .value tag attributes name value⟩ (escapeChar c) =
      some ⟨stack, root, .value tag attributes name (value ++ [blank c])⟩ := by
  unfold escapeChar
  by_cases hamp : c = '&'
  · rw [if_pos hamp, hamp]
    rfl
  · by_cases hlt : c = '<'
    · rw [if_neg hamp, if_pos hlt, hlt]
      rfl
    · by_cases hgt : c = '>'
      · rw [if_neg hamp, if_neg hlt, if_pos hgt, hgt]
        rfl
      · by_cases hquot : c = '"'
        · rw [if_neg hamp, if_neg hlt, if_neg hgt, if_pos hquot, hquot]
          rfl
        · rw [if_neg hamp, if_neg hlt, if_neg hgt, if_neg hquot, run_cons]
          simp only [feed]
          rw [if_neg hquot, if_neg hlt, if_neg hamp]
          rfl

theorem run_value (name : Name) (value s : Text) :
    run ⟨stack, root, .value tag attributes name value⟩ (escape s) =
      some ⟨stack, root, .value tag attributes name (value ++ s.map blank)⟩ := by
  induction s generalizing value with
  | nil =>
    rw [List.map_nil, List.append_nil]
    rfl
  | cons c s ih =>
    show run _ (escapeChar c ++ escape s) = _
    rw [run_append, run_value_char, Option.bind_some, ih, List.append_assoc]
    rfl

theorem Name.chars_cons (n : Name) : ∃ c cs, n.chars = c :: cs ∧ isNameStart c = true ∧ cs.all isNameChar = true := by
  obtain ⟨chars, valid⟩ := n
  cases chars with
  | nil => cases valid
  | cons c cs =>
    unfold isName at valid
    rw [Bool.and_eq_true] at valid
    exact ⟨c, cs, rfl, valid.1, valid.2⟩

theorem Name.read_chars (n : Name) : Name.read n.chars = some n := dif_pos n.valid

/-- A mode that collects name characters collects a run of them. -/
theorem run_collect {mode : Text → Mode}
    (hfeed : ∀ name c, isNameChar c = true → feed ⟨stack, root, mode name⟩ c = some ⟨stack, root, mode (name ++ [c])⟩)
    (name cs : Text) (h : cs.all isNameChar = true) :
    run ⟨stack, root, mode name⟩ cs = some ⟨stack, root, mode (name ++ cs)⟩ := by
  induction cs generalizing name with
  | nil =>
    rw [List.append_nil]
    rfl
  | cons c cs ih =>
    rw [List.all_cons, Bool.and_eq_true] at h
    rw [run_cons, hfeed name c h.1, Option.bind_some, ih _ h.2, List.append_assoc]
    rfl

theorem run_startTag (name cs : Text) (h : cs.all isNameChar = true) :
    run ⟨stack, root, .startTag name⟩ cs = some ⟨stack, root, .startTag (name ++ cs)⟩ := by
  refine run_collect (fun name c hc => ?_) name cs h
  simp only [feed]
  rw [if_pos hc]

theorem isNameStart_ne {c : Char} (h : isNameStart c = true) : c ≠ '/' ∧ c ≠ '>' := by
  constructor
  · intro hc
    rw [hc] at h
    exact absurd h (by decide)
  · intro hc
    rw [hc] at h
    exact absurd h (by decide)

theorem isNameChar_ne {c : Char} (h : isNameChar c = true) : c ≠ '>' := by
  intro hc
  rw [hc] at h
  exact absurd h (by decide)

theorem run_open (tag : Name) :
    run ⟨stack, root, .content⟩ ('<' :: tag.chars) = some ⟨stack, root, .startTag tag.chars⟩ := by
  obtain ⟨c, cs, hchars, hstart, hcs⟩ := tag.chars_cons
  rw [hchars, run_cons]
  show run ⟨stack, root, .markup⟩ (c :: cs) = _
  rw [run_cons]
  simp only [feed]
  rw [if_neg (isNameStart_ne hstart).1, if_pos hstart, Option.bind_some, run_startTag _ _ hcs]
  rfl

theorem run_attribute (tag : Name) (attributes : List (Name × Text)) (name cs : Text) (h : cs.all isNameChar = true) :
    run ⟨stack, root, .attribute tag attributes name⟩ cs = some ⟨stack, root, .attribute tag attributes (name ++ cs)⟩ := by
  refine run_collect (fun name c hc => ?_) name cs h
  simp only [feed]
  rw [if_pos hc]

/-- A mode in a start tag after which no name goes on. -/
inductive InTag (tag : Name) : List (Name × Text) → Mode → Prop
  | name : InTag tag [] (.startTag tag.chars)
  | quoted (attributes : List (Name × Text)) : InTag tag attributes (.quoted tag attributes)

theorem InTag.feed {mode : Mode} (h : InTag tag attributes mode) {c : Char} (hc : isNameChar c = false) :
    feed ⟨stack, root, mode⟩ c = inTag stack root tag attributes c := by
  cases h with
  | name =>
    simp only [Xml.feed, hc, tag.read_chars]
    rfl
  | quoted => rfl

/-- One attribute. -/
theorem run_attributePiece {mode : Mode} (h : InTag tag attributes mode) (name : Name) (value : Text)
    (hnew : name ∉ attributes.map Prod.fst) :
    run ⟨stack, root, mode⟩ (' ' :: name.chars ++ ['=', '"'] ++ escape value ++ ['"']) =
      some ⟨stack, root, .quoted tag (attributes ++ [(name, value.map blank)])⟩ := by
  obtain ⟨c, cs, hchars, hstart, hcs⟩ := name.chars_cons
  have hname : run ⟨stack, root, mode⟩ (' ' :: name.chars) = some ⟨stack, root, .attribute tag attributes name.chars⟩ := by
    rw [hchars, run_cons, h.feed (by decide)]
    show run ⟨stack, root, .space tag attributes⟩ (c :: cs) = _
    rw [run_cons]
    simp only [feed]
    rw [if_pos hstart, Option.bind_some, run_attribute _ _ _ _ hcs]
    rfl
  have heq : run ⟨stack, root, .attribute tag attributes name.chars⟩ ['=', '"'] =
      some ⟨stack, root, .value tag attributes name []⟩ := by
    rw [run_cons]
    simp only [feed, name.read_chars]
    rfl
  rw [run_append, run_append, run_append, hname, Option.bind_some, heq, Option.bind_some, run_value, Option.bind_some,
    List.nil_append, run_cons]
  simp only [feed]
  rw [if_pos trivial, if_neg hnew]
  rfl

theorem renderAttributes_cons (a : Name × Text) (attributes : List (Name × Text)) :
    renderAttributes (a :: attributes) = (' ' :: a.1.chars ++ ['=', '"'] ++ escape a.2 ++ ['"']) ++ renderAttributes
        attributes := by
  simp [renderAttributes, attributePieces, Piece.chars, escape]

theorem run_attributes (stack : List Open) (root : Option Element) {mode : Mode} {done : List (Name × Text)}
    (h : InTag tag done mode) (attributes : List (Name × Text))
    (hnew : (done.map Prod.fst ++ attributes.map Prod.fst).Nodup) :
    ∃ mode', run ⟨stack, root, mode⟩ (renderAttributes attributes) = some ⟨stack, root, mode'⟩ ∧
      InTag tag (done ++ attributes.map fun a => (a.1, a.2.map blank)) mode' := by
  induction attributes generalizing mode done with
  | nil =>
    rw [List.map_nil, List.append_nil]
    exact ⟨mode, rfl, h⟩
  | cons a attributes ih =>
    rw [List.map_cons] at hnew
    have hfresh : a.1 ∉ done.map Prod.fst := by
      intro hmem
      exact (List.nodup_append.mp hnew).2.2 _ hmem _ (.head _) rfl
    have hnew' : ((done ++ [(a.1, a.2.map blank)]).map Prod.fst ++ attributes.map Prod.fst).Nodup := by
      rw [List.map_append, List.append_assoc]
      exact hnew
    obtain ⟨mode', hrun, hmode⟩ := ih (.quoted (done ++ [(a.1, a.2.map blank)])) hnew'
    refine ⟨mode', ?_, ?_⟩
    · rw [renderAttributes_cons, run_append, run_attributePiece h _ _ hfresh, Option.bind_some]
      exact hrun
    · rw [List.append_assoc] at hmode
      exact hmode

theorem run_endTag (name cs : Text) (h : cs.all isNameChar = true) :
    run ⟨stack, root, .endTag name⟩ cs = some ⟨stack, root, .endTag (name ++ cs)⟩ := by
  refine run_collect (fun name c hc => ?_) name cs h
  simp only [feed]
  rw [if_neg (isNameChar_ne hc)]

theorem run_close (o : Open) (tag : Name) (h : o.tag = tag) :
    run ⟨o :: rest, root, .content⟩ ('<' :: '/' :: tag.chars ++ ['>']) = finishElement rest root o.close := by
  subst h
  have hall : o.tag.chars.all isNameChar = true := by
    obtain ⟨c, cs, hchars, hstart, hcs⟩ := o.tag.chars_cons
    rw [hchars, List.all_cons, hcs, Bool.and_true]
    unfold isNameChar
    rw [hstart]
    rfl
  show run ⟨o :: rest, root, .endTag []⟩ (o.tag.chars ++ ['>']) = _
  rw [run_append, run_endTag _ _ hall, Option.bind_some, List.nil_append, run_cons]
  simp only [feed, if_true]
  cases finishElement rest root o.close <;> rfl

/-! ## Documents -/

mutual

/-- No element has two attributes of one name. -/
def Markup.Distinct : Markup → Prop
  | .element _ attributes _ children _ => (attributes.map Prod.fst).Nodup ∧ DistinctAll children
  | .empty _ attributes _ _ => (attributes.map Prod.fst).Nodup

def DistinctAll : List Markup → Prop
  | [] => True
  | m :: ms => m.Distinct ∧ DistinctAll ms

end

/-- What is read of it: the attributes without other white space than spaces. -/
def Markup.read (m : Markup) : Element := (m.mapText id (List.map blank)).toElement

def readAll (ms : List Markup) : List Element := toElements (mapTextAll id (List.map blank) ms)

def Markup.tail : Markup → Text
  | .element _ _ _ _ tail => tail
  | .empty _ _ _ tail => tail

def Element.setTail : Element → Text → Element
  | .mk tag attributes text children _, tail => .mk tag attributes text children tail

/-- Its text up to the last angle. -/
def Markup.bare : Markup → Text
  | .element tag attributes text children _ =>
    '<' :: tag.chars ++ renderAttributes attributes ++ ['>'] ++ escape text ++ renderAll children ++
      ('<' :: '/' :: tag.chars ++ ['>'])
  | .empty tag attributes spaces _ =>
    '<' :: tag.chars ++ renderAttributes attributes ++ (List.replicate (spaces + 1) ' ' ++ ['/', '>'])

theorem Markup.render_bare (m : Markup) : m.render = m.bare ++ escape m.tail := by
  cases m with
  | element tag attributes text children tail =>
    simp [Markup.render, Markup.bare, Markup.tail, Markup.pieces, Piece.chars, renderAttributes, renderAll, escape]
  | empty tag attributes spaces tail =>
    simp [Markup.render, Markup.bare, Markup.tail, Markup.pieces, Piece.chars, renderAttributes, escape]

theorem renderAll_cons (m : Markup) (ms : List Markup) : renderAll (m :: ms) = m.render ++ renderAll ms := by
  simp [renderAll, piecesAll, Markup.render]

theorem Markup.read_setTail (m : Markup) : (m.read.setTail []).setTail m.tail = m.read := by
  cases m <;> rfl

theorem Open.add_push (o : Open) (e : Element) (s : Text) : (o.add (e.setTail [])).push s = o.add (e.setTail s) := by
  cases e
  rfl

theorem run_spaces (n : Nat) : run ⟨stack, root, .space tag attributes⟩ (List.replicate n ' ' ++ ['/', '>']) =
    finishElement stack root (.mk tag attributes [] [] []) := by
  induction n with
  | zero =>
    show (finishElement stack root _).bind _ = _
    cases finishElement stack root (.mk tag attributes [] [] []) <;> rfl
  | succ n ih =>
    rw [List.replicate_succ, List.cons_append, run_cons]
    exact ih

mutual

theorem run_bare : (m : Markup) → m.Distinct → ∀ (stack : List Open) (root : Option Element),
    run ⟨stack, root, .content⟩ m.bare = finishElement stack root (m.read.setTail [])
  | .element tag attributes text children tail, hm, stack, root => by
    unfold Markup.Distinct at hm
    obtain ⟨mode, hattributes, hmode⟩ := run_attributes stack root (InTag.name : InTag tag [] _) attributes
      (by simpa using hm.1)
    have hend : run ⟨stack, root, mode⟩ ['>'] =
        some ⟨⟨tag, attributes.map fun a => (a.1, a.2.map blank), [], []⟩ :: stack, root, .content⟩ := by
      rw [run_cons, hmode.feed (by decide)]
      rfl
    unfold Markup.bare
    rw [run_append, run_append, run_append, run_append, run_append, run_open, Option.bind_some, hattributes, Option.bind_some,
      hend, Option.bind_some, run_escape, Option.bind_some, run_children children hm.2, Option.bind_some]
    rw [run_close _ tag (by rfl)]
    simp [Open.close, Open.push, Markup.read, Markup.mapText, Markup.toElement, Element.setTail, readAll]
  | .empty tag attributes spaces tail, hm, stack, root => by
    unfold Markup.Distinct at hm
    obtain ⟨mode, hattributes, hmode⟩ := run_attributes stack root (InTag.name : InTag tag [] _) attributes
      (by simpa using hm)
    unfold Markup.bare
    rw [run_append, run_append, run_open, Option.bind_some, hattributes, Option.bind_some, List.replicate_succ,
      List.cons_append, run_cons, hmode.feed (by decide)]
    show run ⟨stack, root, .space tag _⟩ _ = _
    rw [run_spaces]
    rfl

theorem run_children : (ms : List Markup) → DistinctAll ms → ∀ (o : Open) (rest : List Open) (root : Option Element),
    run ⟨o :: rest, root, .content⟩ (renderAll ms) =
      some ⟨⟨o.tag, o.attributes, o.text, (readAll ms).reverse ++ o.children⟩ :: rest, root, .content⟩
  | [], _, _, _, _ => rfl
  | m :: ms, hms, o, rest, root => by
    unfold DistinctAll at hms
    rw [renderAll_cons, Markup.render_bare, run_append, run_append, run_bare m hms.1]
    show (run ⟨o.add (m.read.setTail []) :: rest, root, .content⟩ (escape m.tail)).bind _ = _
    rw [run_escape, Option.bind_some, Open.add_push, run_children ms hms.2]
    have htail : m.read.setTail m.tail = m.read := by
      rw [← Markup.read_setTail]
      cases m.read
      rfl
    rw [htail]
    simp [Open.add, readAll, mapTextAll, toElements, Markup.read]

end

/-! ## Texts changed in a document -/

mutual

theorem pieces_mapText (f : Text → Text) (hf : f [] = []) : (m : Markup) →
    (m.mapText f f).pieces = m.pieces.map fun x => (x.1, f x.2)
  | .element tag attributes text children tail => by
    simp [Markup.mapText, Markup.pieces, attributePieces, List.map_flatMap, List.flatMap_map, hf, piecesAll_mapText f hf children]
  | .empty tag attributes spaces tail => by
    simp [Markup.mapText, Markup.pieces, attributePieces, List.map_flatMap, List.flatMap_map, hf]

theorem piecesAll_mapText (f : Text → Text) (hf : f [] = []) : (ms : List Markup) →
    piecesAll (mapTextAll f f ms) = (piecesAll ms).map fun x => (x.1, f x.2)
  | [] => rfl
  | m :: ms => by simp [mapTextAll, piecesAll, pieces_mapText f hf m, piecesAll_mapText f hf ms]

end

mutual

theorem distinct_mapText (f g : Text → Text) : (m : Markup) → ((m.mapText f g).Distinct ↔ m.Distinct)
  | .element tag attributes text children tail => by
    simp [Markup.mapText, Markup.Distinct, Function.comp_def, distinctAll_mapText f g children]
  | .empty tag attributes spaces tail => by simp [Markup.mapText, Markup.Distinct, Function.comp_def]

theorem distinctAll_mapText (f g : Text → Text) : (ms : List Markup) → (DistinctAll (mapTextAll f g ms) ↔ DistinctAll ms)
  | [] => Iff.rfl
  | m :: ms => by simp [mapTextAll, DistinctAll, distinct_mapText f g m, distinctAll_mapText f g ms]

end

/-- The characters of markup. -/
def isMarkup (c : Char) : Bool := isNameChar c || c ∈ ['<', '>', '/', ' ', '=', '"']

theorem isMarkup_range {c : Char} (h : isMarkup c = true) : 32 ≤ c.toNat ∧ c.toNat ≤ 126 := by
  have halpha : c.isAlpha = (c.isUpper || c.isLower) := rfl
  have hupper : c.isUpper = true → 65 ≤ c.toNat ∧ c.toNat ≤ 90 := fun h => of_decide_eq_true h
  have hlower : c.isLower = true → 97 ≤ c.toNat ∧ c.toNat ≤ 122 := fun h =>
    (Bool.and_eq_true_iff.mp h).imp (fun h => of_decide_eq_true h) (fun h => of_decide_eq_true h)
  have hdigit : c.isDigit = true → 48 ≤ c.toNat ∧ c.toNat ≤ 57 := fun h =>
    (Bool.and_eq_true_iff.mp h).imp (fun h => of_decide_eq_true h) (fun h => of_decide_eq_true h)
  simp only [isMarkup, isNameChar, isNameStart, halpha, Bool.or_eq_true, beq_iff_eq, decide_eq_true_eq, List.mem_cons,
    List.not_mem_nil, or_false] at h
  rcases h with (((((h | h) | rfl) | h) | rfl) | rfl) | rfl | rfl | rfl | rfl | rfl | rfl
  · have hc := hupper h
    omega
  · have hc := hlower h
    omega
  · decide
  · have hc := hdigit h
    omega
  all_goals decide

theorem isMarkup_plain {c : Char} (h : isMarkup c = true) : c ≠ '\n' ∧ c ≠ '\r' ∧ isChar c = true := by
  obtain ⟨hlow, hhigh⟩ := isMarkup_range h
  have hne : ∀ d : Char, d.toNat < 32 → c ≠ d := by
    intro d hd hc
    rw [hc] at hlow
    omega
  refine ⟨hne _ (by decide), hne _ (by decide), ?_⟩
  have hval : ∀ n : UInt32, 126 < n.toNat → c.val ≠ n := by
    intro n hn hc
    have hnat : c.toNat = n.toNat := congrArg UInt32.toNat hc
    omega
  have hspace : ' ' ≤ c := hlow
  simp [isChar, hspace, hval 0xFFFE (by decide), hval 0xFFFF (by decide)]

/-- What stands between two texts is there, and is markup. -/
def Marked (x : Piece) : Prop := x.1 ≠ [] ∧ ∀ c ∈ x.1, isMarkup c = true

theorem Name.isMarkup (n : Name) : ∀ c ∈ n.chars, isMarkup c = true := by
  obtain ⟨a, cs, hchars, hstart, hcs⟩ := n.chars_cons
  intro c hc
  rw [hchars] at hc
  unfold Xml.isMarkup isNameChar
  rcases List.mem_cons.mp hc with rfl | hc
  · simp [hstart]
  · have hname := List.all_eq_true.mp hcs c hc
    unfold isNameChar at hname
    rw [hname]
    rfl

theorem marked_attributes (attributes : List (Name × Text)) : ∀ x ∈ attributePieces attributes, Marked x := by
  intro x hx
  obtain ⟨a, -, hx⟩ := List.mem_flatMap.mp hx
  simp only [List.mem_cons, List.not_mem_nil, or_false] at hx
  rcases hx with rfl | rfl
  · refine ⟨by simp, fun c hc => ?_⟩
    simp only [List.cons_append, List.mem_cons, List.mem_append, List.not_mem_nil, or_false] at hc
    rcases hc with rfl | hc | rfl | rfl
    · decide
    · exact a.1.isMarkup c hc
    · decide
    · decide
  · refine ⟨by simp, fun c hc => ?_⟩
    rw [List.mem_singleton.mp hc]
    decide

theorem marked_open (tag : Name) : Marked ('<' :: tag.chars, []) := by
  refine ⟨by simp, fun c hc => ?_⟩
  rcases List.mem_cons.mp hc with rfl | hc
  · decide
  · exact tag.isMarkup c hc

mutual

theorem marked_pieces : (m : Markup) → ∀ x ∈ m.pieces, Marked x
  | .element tag attributes text children tail => by
    intro x hx
    simp only [Markup.pieces, List.cons_append, List.mem_cons, List.mem_append, List.append_assoc, List.not_mem_nil,
      or_false] at hx
    rcases hx with rfl | hx | rfl | hx | rfl
    · exact marked_open tag
    · exact marked_attributes attributes x hx
    · exact ⟨List.cons_ne_nil _ _, fun c hc => by rw [List.mem_singleton.mp hc]; decide⟩
    · exact marked_piecesAll children x hx
    · refine ⟨by simp, fun c hc => ?_⟩
      simp only [List.mem_cons, List.mem_append, List.not_mem_nil, or_false] at hc
      rcases hc with rfl | rfl | hc | rfl
      · decide
      · decide
      · exact tag.isMarkup c hc
      · decide
  | .empty tag attributes spaces tail => by
    intro x hx
    simp only [Markup.pieces, List.cons_append, List.mem_cons, List.mem_append, List.not_mem_nil, or_false] at hx
    rcases hx with rfl | hx | rfl
    · exact marked_open tag
    · exact marked_attributes attributes x hx
    · refine ⟨by simp, fun c hc => ?_⟩
      simp only [List.mem_append, List.mem_replicate, List.mem_cons, List.not_mem_nil, or_false] at hc
      rcases hc with ⟨-, rfl⟩ | rfl | rfl
      · decide
      · decide
      · decide

theorem marked_piecesAll : (ms : List Markup) → ∀ x ∈ piecesAll ms, Marked x
  | [] => nofun
  | m :: ms => by
    intro x hx
    rcases List.mem_append.mp hx with hx | hx
    · exact marked_pieces m x hx
    · exact marked_piecesAll ms x hx

end

/-- Whether a carriage return was last. -/
def after : Bool → Text → Bool
  | cr, [] => cr
  | _, c :: s => after (c == '\r') s

theorem endingsFrom_plain {c : Char} (hn : c ≠ '\n') (hr : c ≠ '\r') (cr : Bool) (s : Text) :
    endingsFrom cr (c :: s) = c :: endingsFrom false s := by
  simp [endingsFrom, hn, hr]

theorem endingsFrom_markup {m : Text} (hm : ∀ c ∈ m, isMarkup c = true) (s : Text) :
    endingsFrom false (m ++ s) = m ++ endingsFrom false s := by
  induction m with
  | nil => rfl
  | cons c m ih =>
    obtain ⟨hn, hr, -⟩ := isMarkup_plain (hm c (.head _))
    rw [List.cons_append, endingsFrom_plain hn hr, ih fun d hd => hm d (.tail _ hd)]
    rfl

theorem endingsFrom_escapeChar (cr : Bool) (c : Char) (s : Text) :
    endingsFrom cr (escapeChar c ++ s) = escape (endingsFrom cr [c]) ++ endingsFrom (c == '\r') s := by
  unfold escapeChar
  by_cases hamp : c = '&'
  · rw [if_pos hamp, hamp]
    cases cr <;> rfl
  · by_cases hlt : c = '<'
    · rw [if_neg hamp, if_pos hlt, hlt]
      cases cr <;> rfl
    · by_cases hgt : c = '>'
      · rw [if_neg hamp, if_neg hlt, if_pos hgt, hgt]
        cases cr <;> rfl
      · by_cases hquot : c = '"'
        · rw [if_neg hamp, if_neg hlt, if_neg hgt, if_pos hquot, hquot]
          cases cr <;> rfl
        · have hself : escape [c] = [c] := by simp [escape, escapeChar, hamp, hlt, hgt, hquot]
          rw [if_neg hamp, if_neg hlt, if_neg hgt, if_neg hquot]
          by_cases hr : c = '\r'
          · subst hr
            cases cr <;> rfl
          · by_cases hn : c = '\n'
            · subst hn
              cases cr <;> rfl
            · rw [List.singleton_append, endingsFrom_plain hn hr, endingsFrom_plain hn hr]
              show _ = escape [c] ++ _
              rw [hself, beq_false_of_ne hr]
              rfl

theorem endingsFrom_cons (cr : Bool) (c : Char) (s : Text) :
    endingsFrom cr (c :: s) = endingsFrom cr [c] ++ endingsFrom (c == '\r') s := by
  by_cases hr : c = '\r'
  · subst hr
    rfl
  · rw [beq_false_of_ne hr]
    cases cr with
    | false => simp [endingsFrom, hr]
    | true =>
      by_cases hn : c = '\n'
      · subst hn
        rfl
      · simp [endingsFrom, hr, hn]

theorem endingsFrom_escape (cr : Bool) (v s : Text) :
    endingsFrom cr (escape v ++ s) = escape (endingsFrom cr v) ++ endingsFrom (after cr v) s := by
  induction v generalizing cr with
  | nil => rfl
  | cons c v ih =>
    show endingsFrom cr ((escapeChar c ++ escape v) ++ s) = _
    rw [List.append_assoc, endingsFrom_escapeChar, ih, endingsFrom_cons cr c v]
    simp [escape, after]

/-- Line ends are read in the texts alone. -/
theorem endings_pieces {ps : List Piece} (h : ∀ x ∈ ps, Marked x) (cr : Bool) :
    endingsFrom cr (ps.flatMap Piece.chars) = (ps.map fun x => (x.1, endings x.2)).flatMap Piece.chars := by
  induction ps generalizing cr with
  | nil => rfl
  | cons x ps ih =>
    obtain ⟨hne, hmarkup⟩ := h x (.head _)
    obtain ⟨m, v⟩ := x
    obtain ⟨c, m, rfl⟩ := List.exists_cons_of_ne_nil hne
    obtain ⟨hn, hr, -⟩ := isMarkup_plain (hmarkup c (.head _))
    rw [List.map_cons, List.flatMap_cons, List.flatMap_cons]
    show endingsFrom cr (((c :: m) ++ escape v) ++ ps.flatMap Piece.chars) = ((c :: m) ++ escape (endings v)) ++ _
    rw [List.append_assoc, List.cons_append, endingsFrom_plain hn hr,
      endingsFrom_markup fun d hd => hmarkup d (.tail _ hd), endingsFrom_escape, ih fun y hy => h y (.tail _ hy)]
    simp [endings]

theorem all_escape (v : Text) : (escape v).all isChar = v.all isChar := by
  induction v with
  | nil => rfl
  | cons c v ih =>
    have hc : (escapeChar c).all isChar = isChar c := by
      unfold escapeChar
      split
      · rename_i hamp
        rw [hamp]
        decide
      · split
        · rename_i hlt
          rw [hlt]
          decide
        · split
          · rename_i hgt
            rw [hgt]
            decide
          · split
            · rename_i hquot
              rw [hquot]
              decide
            · simp
    show (escapeChar c ++ escape v).all isChar = _
    rw [List.all_append, hc, ih]
    rfl

/-- Each text is of the standard's characters. -/
def Markup.Legal (m : Markup) : Prop := ∀ x ∈ m.pieces, x.2.all isChar = true

theorem all_pieces {ps : List Piece} (h : ∀ x ∈ ps, Marked x) :
    (ps.flatMap Piece.chars).all isChar = true ↔ ∀ x ∈ ps, x.2.all isChar = true := by
  induction ps with
  | nil => simp
  | cons x ps ih =>
    have hm : x.1.all isChar = true := by
      refine List.all_eq_true.mpr fun c hc => ?_
      exact (isMarkup_plain ((h x (.head _)).2 c hc)).2.2
    rw [List.flatMap_cons, List.all_append, Bool.and_eq_true, ih fun y hy => h y (.tail _ hy)]
    show (x.1 ++ escape x.2).all isChar = true ∧ _ ↔ _
    rw [List.all_append, hm, all_escape, Bool.true_and]
    simp

theorem render_endings (m : Markup) : endings m.render = (m.mapText endings endings).render := by
  unfold Markup.render
  rw [pieces_mapText endings rfl]
  exact endings_pieces (marked_pieces m) false

/-- What is read of a document that was printed. -/
theorem parse_render {m : Markup} (hm : m.Distinct) (htail : m.tail = []) :
    (m.Legal → parse m.render = some (m.mapText endings endings).read) ∧ (¬m.Legal → parse m.render = none) := by
  have hlegal : m.render.all isChar = true ↔ m.Legal := all_pieces (marked_pieces m)
  constructor
  · intro h
    have hbare : (m.mapText endings endings).render = (m.mapText endings endings).bare := by
      rw [Markup.render_bare]
      have hnil : (m.mapText endings endings).tail = [] := by
        cases m with
        | element => exact congrArg endings htail
        | empty => exact congrArg endings htail
      rw [hnil]
      exact List.append_nil _
    have htail' : (m.mapText endings endings).read.setTail [] = (m.mapText endings endings).read := by
      cases m with
      | element tag attributes text children tail =>
        obtain rfl : tail = [] := htail
        rfl
      | empty tag attributes spaces tail =>
        obtain rfl : tail = [] := htail
        rfl
    unfold parse
    rw [if_pos (hlegal.mpr h), render_endings, hbare, run_bare _ ((distinct_mapText _ _ m).mpr hm), htail']
    rfl
  · intro h
    unfold parse
    rw [if_neg (mt hlegal.mp h)]

/-! ## Two columns to the right -/

def indentChar (c : Char) : Text := if c = '\n' then ['\n', ' ', ' '] else [c]

def indent (s : Text) : Text := s.flatMap indentChar

theorem indent_append (s t : Text) : indent (s ++ t) = indent s ++ indent t := List.flatMap_append

theorem indent_plain {s : Text} (h : '\n' ∉ s) : indent s = s := by
  induction s with
  | nil => rfl
  | cons c s ih =>
    show indentChar c ++ indent s = _
    rw [ih fun hmem => h (.tail _ hmem)]
    unfold indentChar
    rw [if_neg (List.ne_of_not_mem_cons h).symm]
    rfl

theorem escape_plain {c : Char} (h : c ≠ '\n') : '\n' ∉ escapeChar c := by
  unfold escapeChar
  split
  · decide
  · split
    · decide
    · split
      · decide
      · split
        · decide
        · rw [List.mem_singleton]
          exact Ne.symm h

theorem indent_escape (v : Text) : indent (escape v) = escape (indent v) := by
  induction v with
  | nil => rfl
  | cons c v ih =>
    show indent (escapeChar c ++ escape v) = escape (indentChar c ++ indent v)
    have happend : escape (indentChar c ++ indent v) = escape (indentChar c) ++ escape (indent v) := List.flatMap_append
    rw [indent_append, ih, happend]
    by_cases hn : c = '\n'
    · subst hn
      rfl
    · rw [indent_plain (escape_plain hn)]
      unfold indentChar
      rw [if_neg hn]
      simp [escape]

/-- A document that is moved has its texts moved. -/
theorem indent_render (m : Markup) : indent m.render = (m.mapText indent indent).render := by
  unfold Markup.render
  rw [pieces_mapText indent rfl]
  have hpieces := marked_pieces m
  generalize m.pieces = ps at hpieces
  induction ps with
  | nil => rfl
  | cons x ps ih =>
    have hplain : '\n' ∉ x.1 := fun hmem => (isMarkup_plain ((hpieces x (.head _)).2 _ hmem)).1 rfl
    rw [List.map_cons, List.flatMap_cons, List.flatMap_cons, indent_append, ih fun y hy => hpieces y (.tail _ hy)]
    show indent (x.1 ++ escape x.2) ++ _ = (x.1 ++ escape (indent x.2)) ++ _
    rw [indent_append, indent_plain hplain, indent_escape]

/-! ## Tags and attribute names -/

inductive Skeleton where
  | mk (tag : Name) (attributes : List Name) (children : List Skeleton)

mutual

def Element.skeleton : Element → Skeleton
  | .mk tag attributes _ children _ => .mk tag (attributes.map Prod.fst) (skeletons children)

def skeletons : List Element → List Skeleton
  | [] => []
  | e :: es => e.skeleton :: skeletons es

end

mutual

def Markup.skeleton : Markup → Skeleton
  | .element tag attributes _ children _ => .mk tag (attributes.map Prod.fst) (skeletonAll children)
  | .empty tag attributes _ _ => .mk tag (attributes.map Prod.fst) []

def skeletonAll : List Markup → List Skeleton
  | [] => []
  | m :: ms => m.skeleton :: skeletonAll ms

end

mutual

theorem skeleton_mapText (f g : Text → Text) : (m : Markup) → (m.mapText f g).skeleton = m.skeleton
  | .element tag attributes text children tail => by
    simp [Markup.mapText, Markup.skeleton, Function.comp_def, skeletonAll_mapText f g children]
  | .empty tag attributes spaces tail => by simp [Markup.mapText, Markup.skeleton, Function.comp_def]

theorem skeletonAll_mapText (f g : Text → Text) : (ms : List Markup) → skeletonAll (mapTextAll f g ms) = skeletonAll ms
  | [] => rfl
  | m :: ms => by simp [mapTextAll, skeletonAll, skeleton_mapText f g m, skeletonAll_mapText f g ms]

end

mutual

theorem skeleton_toElement : (m : Markup) → m.toElement.skeleton = m.skeleton
  | .element tag attributes text children tail => by
    simp [Markup.toElement, Element.skeleton, Markup.skeleton, skeletons_toElements children]
  | .empty tag attributes spaces tail => rfl

theorem skeletons_toElements : (ms : List Markup) → skeletons (toElements ms) = skeletonAll ms
  | [] => rfl
  | m :: ms => by simp [toElements, skeletons, skeletonAll, skeleton_toElement m, skeletons_toElements ms]

end

theorem skeletonAll_eq_map (ms : List Markup) : skeletonAll ms = ms.map Markup.skeleton := by
  induction ms with
  | nil => rfl
  | cons m ms ih =>
    unfold skeletonAll
    rw [ih]
    rfl

theorem skeleton_read (m : Markup) : (m.mapText endings endings).read.skeleton = m.skeleton := by
  unfold Markup.read
  rw [skeleton_toElement, skeleton_mapText, skeleton_mapText]

end Xml
