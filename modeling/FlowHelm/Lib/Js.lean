/-
  FlowHelm.Lib.Js — the parts of the JavaScript language a model of TypeScript code
  needs: strings, `trim`, JSON values, truthiness, `JSON.parse`.

  A JavaScript string is a list of UTF-16 code units (`JsString`); text that is known
  to be well formed is a Lean `String`. `Json.parse` is `JSON.parse` of ECMA-404 as a
  machine that takes one character at a time: a stack of open arrays and objects and a
  mode saying what may come next, so it needs no bound on the input. A repeated key
  keeps its last value, and a number is kept as the decimal it was written as, which
  is falsy when it rounds to zero as a double.
-/

namespace Js

abbrev JsString := List UInt16

instance lawfulUnits : LawfulBEq JsString := inferInstance

/-- A property of the units of a string is decided unit by unit, not for all units there are. -/
instance (priority := 1100) decidableUnits {P : UInt16 → Prop} [DecidablePred P] (s : JsString) : Decidable (∀ u ∈ s, P u) :=
  s.decidableBAll P

/-- The UTF-16 code units of a character. -/
def utf16 (c : Char) : JsString :=
  if c.val < 0x10000 then [c.val.toUInt16]
  else
    let v := c.val - 0x10000
    [((0xD800 : UInt32) + (v >>> 10)).toUInt16, ((0xDC00 : UInt32) + (v &&& 0x3FF)).toUInt16]

def ofString (s : String) : JsString := s.toList.flatMap utf16

/-! ## Strings -/

/-- WhiteSpace and LineTerminator, what `trim` strips. -/
def isWhite (c : Char) : Bool :=
  c ∈ ['\t', '\n', '\x0b', '\x0c', '\r', ' ', '\u00a0', '\u1680', '\u2028', '\u2029', '\u202f', '\u205f',
    '\u3000', '\ufeff'] || ('\u2000' ≤ c && c ≤ '\u200a')

def trim (s : String) : String :=
  String.ofList ((s.toList.dropWhile isWhite).reverse.dropWhile isWhite).reverse

def startsWith (s p : String) : Bool := p.toList.isPrefixOf s.toList

def infixAt (p : List Char) : List Char → Bool
  | [] => p.isEmpty
  | c :: cs => p.isPrefixOf (c :: cs) || infixAt p cs

def includes (s p : String) : Bool := infixAt p.toList s.toList

/-- `path.basename` of a POSIX path: what follows the last slash, trailing slashes aside. -/
def basename (p : String) : String :=
  String.ofList (((p.toList.reverse.dropWhile (· == '/')).takeWhile (· != '/')).reverse)

/-- A string is falsy when it is empty; `undefined` is. -/
def given : Option String → Bool
  | some s => s != ""
  | none => false

/-- `xs.join(sep)`. -/
def join (sep : JsString) : List JsString → JsString
  | [] => []
  | [x] => x
  | x :: y :: xs => x ++ sep ++ join sep (y :: xs)

/-- The first elements joined are what the whole begins with. -/
theorem join_take (sep : JsString) (xs : List JsString) (n : Nat) : join sep (xs.take n) <+: join sep xs := by
  induction xs generalizing n with
  | nil => simp [join]
  | cons x xs ih =>
    cases n with
    | zero => exact List.nil_prefix
    | succ n =>
      cases xs with
      | nil => simp [join]
      | cons y xs =>
        cases n with
        | zero =>
          show x <+: x ++ sep ++ join sep (y :: xs)
          rw [List.append_assoc]
          exact List.prefix_append x _
        | succ n =>
          show x ++ sep ++ join sep (y :: xs.take n) <+: x ++ sep ++ join sep (y :: xs)
          exact (List.prefix_append_right_inj (x ++ sep)).mpr (ih (n + 1))

/-- A piece between separators has none. -/
theorem of_mem_splitOnP {p : UInt16 → Bool} {s piece : JsString} (h : piece ∈ s.splitOnP p) : ∀ u ∈ piece, p u = false := by
  induction s generalizing piece with
  | nil =>
    obtain rfl := List.mem_singleton.mp h
    exact List.forall_mem_nil _
  | cons v s ih =>
    rw [List.splitOnP_cons_eq_if_modifyHead] at h
    by_cases hv : p v = true
    · rw [if_pos hv] at h
      rcases List.mem_cons.mp h with rfl | h
      · exact List.forall_mem_nil _
      · exact ih h
    · rw [if_neg hv] at h
      cases hsplit : s.splitOnP p with
      | nil => exact absurd hsplit (List.splitOnP_ne_nil _ _)
      | cons first more =>
        rw [hsplit] at h ih
        rcases List.mem_cons.mp h with rfl | h
        · intro u hu
          rcases List.mem_cons.mp hu with rfl | hu
          · exact Bool.eq_false_iff.mpr hv
          · exact ih (List.mem_cons_self ..) u hu
        · exact ih (List.mem_cons_of_mem _ h)

/-! ## JSON values -/

inductive Json where
  | null
  | bool (b : Bool)
  /-- A number as written: sign, digits and power of ten. -/
  | num (neg : Bool) (digits : Nat) (exp : Int)
  | str (s : JsString)
  | arr (xs : List Json)
  | obj (fields : List (JsString × Json))
  deriving Repr

namespace Json

/-- Whether a decimal rounds to a double other than zero: it exceeds half the least
    subnormal, 2^-1075. -/
def nonzero (digits : Nat) (exp : Int) : Bool :=
  match exp with
  | .ofNat e => 1 < digits * Nat.pow 10 e * Nat.pow 2 1075
  | .negSucc e => Nat.pow 10 (e + 1) < digits * Nat.pow 2 1075

def truthy : Json → Bool
  | null => false
  | bool b => b
  | num _ digits exp => nonzero digits exp
  | str s => !s.isEmpty
  | arr _ => true
  | obj _ => true

/-- `json.key`, for a key no prototype defines: `undefined` unless an object has it. -/
def get (key : String) : Json → Option Json
  | obj fields => (fields.reverse.find? (·.1 == ofString key)).map (·.2)
  | _ => none

/-- `value ?? other`. -/
def orElse (other : Json) : Option Json → Json
  | some null => other
  | some v => v
  | none => other

def text (s : String) : Json := str (ofString s)

def text? : Json → Option JsString
  | str s => some s
  | _ => none

def isNull : Json → Bool
  | null => true
  | _ => false

/-- The number a decimal spells. -/
def decimal (neg : Bool) (digits : Nat) (exp : Int) : Rat :=
  let size : Rat := match exp with
    | .ofNat e => (digits * Nat.pow 10 e : Nat)
    | .negSucc e => (digits : Rat) / (Nat.pow 10 (e + 1) : Nat)
  if neg then -size else size

/-! ## JSON.parse -/

/-- An array or object still open: the values (or fields) read so far, newest first,
    and in an object the key whose value comes next. -/
inductive Frame where
  | arr (done : List Json)
  | obj (done : List (JsString × Json)) (key : JsString)

/-- How much of a number has been read. -/
inductive NumPart where
  | minus
  | zero
  | int
  | point
  | frac
  | e
  | sign
  | exp

structure Num where
  part : NumPart
  neg : Bool
  digits : Nat
  /-- Fraction digits read, and the exponent's sign and digits. -/
  scale : Nat
  expNeg : Bool
  exp : Nat

def Num.value (n : Num) : Option Json :=
  match n.part with
  | .zero | .int | .frac | .exp =>
    some (.num n.neg n.digits ((if n.expNeg then -(n.exp : Int) else n.exp) - n.scale))
  | _ => none

inductive Mode where
  | value
  /-- After `[`: a value or `]`. -/
  | first
  /-- After an opening brace: a key or a closing brace. -/
  | firstKey (done : List (JsString × Json))
  | key (done : List (JsString × Json))
  | colon (done : List (JsString × Json)) (key : JsString)
  /-- In a string, units newest first; `fields` is `some` when it is a key. -/
  | str (fields : Option (List (JsString × Json))) (units : JsString)
  | escape (fields : Option (List (JsString × Json))) (units : JsString)
  | hex (fields : Option (List (JsString × Json))) (units : JsString) (count : Nat) (val : Nat)
  | word (rest : List Char) (v : Json)
  | num (n : Num)
  | after (v : Json)

structure Parser where
  stack : List Frame
  mode : Mode

def isSpace (c : Char) : Bool := c == ' ' || c == '\t' || c == '\n' || c == '\r'

def digit? (c : Char) : Option Nat := if c.isDigit then some (c.toNat - '0'.toNat) else none

def hexDigit? (c : Char) : Option Nat :=
  if c.isDigit then some (c.toNat - '0'.toNat)
  else if 'a' ≤ c ∧ c ≤ 'f' then some (c.toNat - 'a'.toNat + 10)
  else if 'A' ≤ c ∧ c ≤ 'F' then some (c.toNat - 'A'.toNat + 10)
  else none

/-- The number after one more character, when the character belongs to it. -/
def Num.push (n : Num) (c : Char) : Option Num :=
  match n.part, digit? c with
  | .minus, some 0 => some { n with part := .zero }
  | .minus, some d => some { n with part := .int, digits := d }
  | .int, some d => some { n with digits := n.digits * 10 + d }
  | .point, some d | .frac, some d => some { n with part := .frac, digits := n.digits * 10 + d, scale := n.scale + 1 }
  | .e, some d | .sign, some d | .exp, some d => some { n with part := .exp, exp := n.exp * 10 + d }
  | .zero, none | .int, none =>
    if c == '.' then some { n with part := .point }
    else if c == 'e' || c == 'E' then some { n with part := .e } else none
  | .frac, none => if c == 'e' || c == 'E' then some { n with part := .e } else none
  | .e, none =>
    if c == '+' then some { n with part := .sign }
    else if c == '-' then some { n with part := .sign, expNeg := true } else none
  | _, _ => none

def number (neg : Bool) (part : NumPart) (digits : Nat) : Mode := .num ⟨part, neg, digits, 0, false, 0⟩

/-- What the character that starts a value begins. -/
def startValue (stack : List Frame) (c : Char) : Option Parser :=
  match c with
  | '{' => some ⟨stack, .firstKey []⟩
  | '[' => some ⟨.arr [] :: stack, .first⟩
  | '"' => some ⟨stack, .str none []⟩
  | 't' => some ⟨stack, .word ['r', 'u', 'e'] (.bool true)⟩
  | 'f' => some ⟨stack, .word ['a', 'l', 's', 'e'] (.bool false)⟩
  | 'n' => some ⟨stack, .word ['u', 'l', 'l'] .null⟩
  | '-' => some ⟨stack, number true .minus 0⟩
  | c => match digit? c with
    | some 0 => some ⟨stack, number false .zero 0⟩
    | some d => some ⟨stack, number false .int d⟩
    | none => if isSpace c then some ⟨stack, .value⟩ else none

/-- What may follow a complete value `v`. -/
def afterValue (stack : List Frame) (v : Json) (c : Char) : Option Parser :=
  if isSpace c then some ⟨stack, .after v⟩ else
  match stack, c with
  | .arr done :: rest, ',' => some ⟨.arr (v :: done) :: rest, .value⟩
  | .arr done :: rest, ']' => some ⟨rest, .after (.arr (v :: done).reverse)⟩
  | .obj done key :: rest, ',' => some ⟨rest, .key ((key, v) :: done)⟩
  | .obj done key :: rest, '}' => some ⟨rest, .after (.obj ((key, v) :: done).reverse)⟩
  | _, _ => none

/-- The string (or key) that ends here. -/
def endString (stack : List Frame) (fields : Option (List (JsString × Json))) (units : JsString) : Parser :=
  match fields with
  | some done => ⟨stack, .colon done units.reverse⟩
  | none => ⟨stack, .after (.str units.reverse)⟩

def unescape : Char → Option UInt16
  | '"' => some 0x22
  | '\\' => some 0x5C
  | '/' => some 0x2F
  | 'b' => some 0x08
  | 'f' => some 0x0C
  | 'n' => some 0x0A
  | 'r' => some 0x0D
  | 't' => some 0x09
  | _ => none

def feed (p : Parser) (c : Char) : Option Parser :=
  match p.mode with
  | .value => startValue p.stack c
  | .first =>
    match p.stack with
    | .arr [] :: rest =>
      if c == ']' then some ⟨rest, .after (.arr [])⟩
      else if isSpace c then some p else startValue p.stack c
    | _ => none
  | .firstKey done =>
    if c == '}' then some ⟨p.stack, .after (.obj [])⟩
    else if c == '"' then some ⟨p.stack, .str (some done) []⟩
    else if isSpace c then some p else none
  | .key done => if c == '"' then some ⟨p.stack, .str (some done) []⟩ else if isSpace c then some p else none
  | .colon done key =>
    if c == ':' then some ⟨.obj done key :: p.stack, .value⟩ else if isSpace c then some p else none
  | .str fields units =>
    if c == '"' then some (endString p.stack fields units)
    else if c == '\\' then some ⟨p.stack, .escape fields units⟩
    else if c.val < 0x20 then none
    else some ⟨p.stack, .str fields ((utf16 c).reverse ++ units)⟩
  | .escape fields units =>
    if c == 'u' then some ⟨p.stack, .hex fields units 0 0⟩
    else (unescape c).map fun u => ⟨p.stack, .str fields (u :: units)⟩
  | .hex fields units count val =>
    (hexDigit? c).map fun d =>
      if count = 3 then ⟨p.stack, .str fields (UInt16.ofNat (val * 16 + d) :: units)⟩
      else ⟨p.stack, .hex fields units (count + 1) (val * 16 + d)⟩
  | .word (w :: rest) v =>
    if c == w then some ⟨p.stack, if rest.isEmpty then .after v else .word rest v⟩ else none
  | .word [] _ => none
  | .num n => match n.push c with
    | some n => some ⟨p.stack, .num n⟩
    | none => n.value.bind fun v => afterValue p.stack v c
  | .after v => afterValue p.stack v c

def finish (p : Parser) : Option Json :=
  match p.stack, p.mode with
  | [], .after v => some v
  | [], .num n => n.value
  | _, _ => none

/-- `JSON.parse`; `none` is a SyntaxError. -/
def parse (s : String) : Option Json := (s.toList.foldlM feed ⟨[], .value⟩).bind finish

end Json

end Js
