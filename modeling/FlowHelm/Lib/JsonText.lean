/-
  FlowHelm.Lib.JsonText — JSON.stringify with an indentation, and JSON.parse of what it wrote.

  Strings are written as characters: a pair of surrogates is one, a surrogate alone is escaped.

  - `quoteText_quote`: the same text as `quote`.
  - `parse_stringify`: what is written is read back, each number as its digits.
-/
import Mathlib.Data.Bool.AllAny
import FlowHelm.Lib.JsonNumber
import FlowHelm.Lib.Utf16

namespace Js

/-! ## Strings -/

def hexChar (n : Nat) : Char := Char.ofNat (if n < 10 then 0x30 + n else 0x57 + n)

/-- `\uXXXX`. -/
def hexText (u : UInt16) : List Char :=
  ['\\', 'u', hexChar (u.toNat / 4096), hexChar (u.toNat / 256 % 16), hexChar (u.toNat / 16 % 16), hexChar (u.toNat % 16)]

def unitText (u : UInt16) : List Char :=
  if u = 0x08 then ['\\', 'b']
  else if u = 0x09 then ['\\', 't']
  else if u = 0x0A then ['\\', 'n']
  else if u = 0x0C then ['\\', 'f']
  else if u = 0x0D then ['\\', 'r']
  else if u = 0x22 then ['\\', '"']
  else if u = 0x5C then ['\\', '\\']
  else if u < 0x20 || isHighSurrogate u || isLowSurrogate u then hexText u
  else [Char.ofNat u.toNat]

def unitsText : JsString → List Char
  | [] => []
  | u :: v :: rest =>
    if isHighSurrogate u && isLowSurrogate v then pairChar u v :: unitsText rest else unitText u ++ unitsText (v :: rest)
  | [u] => unitText u

/-- JSON.stringify of a string. -/
def quoteText (s : JsString) : List Char := '"' :: unitsText s ++ ['"']

/-! ### The same text in code units -/

theorem utf16_hexChar : ∀ n < 16, utf16 (hexChar n) = [UInt16.ofNat (if n < 10 then 0x30 + n else 0x57 + n)] := by decide

theorem hexText_hex4 (u : UInt16) : (hexText u).flatMap utf16 = hex4 u := by
  have hbound := u.toNat_lt
  have h1 := utf16_hexChar (u.toNat / 4096) (by omega)
  have h2 := utf16_hexChar (u.toNat / 256 % 16) (by omega)
  have h3 := utf16_hexChar (u.toNat / 16 % 16) (by omega)
  have h4 := utf16_hexChar (u.toNat % 16) (by omega)
  simp only [hexText, List.flatMap_cons, List.flatMap_nil, h1, h2, h3, h4]
  rfl

theorem unitText_quoteUnit (u : UInt16) :
    (unitText u).flatMap utf16 = if isHighSurrogate u || isLowSurrogate u then hex4 u else quoteUnit u := by
  unfold unitText
  by_cases h08 : u = 0x08
  · subst h08; rfl
  by_cases h09 : u = 0x09
  · subst h09; rfl
  by_cases h0A : u = 0x0A
  · subst h0A; rfl
  by_cases h0C : u = 0x0C
  · subst h0C; rfl
  by_cases h0D : u = 0x0D
  · subst h0D; rfl
  by_cases h22 : u = 0x22
  · subst h22; rfl
  by_cases h5C : u = 0x5C
  · subst h5C; rfl
  simp only [quoteUnit, if_neg h08, if_neg h09, if_neg h0A, if_neg h0C, if_neg h0D, if_neg h22, if_neg h5C]
  by_cases hsurrogate : (isHighSurrogate u || isLowSurrogate u) = true
  · rw [if_pos (by rw [Bool.or_assoc, hsurrogate, Bool.or_true]), if_pos hsurrogate]
    exact hexText_hex4 u
  · rw [if_neg hsurrogate, Bool.or_assoc, Bool.eq_false_iff.mpr hsurrogate, Bool.or_false]
    simp only [decide_eq_true_eq]
    by_cases hlow : u < 0x20
    · rw [if_pos hlow, if_pos hlow]
      exact hexText_hex4 u
    · rw [if_neg hlow, if_neg hlow]
      simp only [Bool.or_eq_true, not_or, Bool.not_eq_true] at hsurrogate
      simp [utf16_unit hsurrogate.1 hsurrogate.2]

/-- The characters are those of `quote`. -/
theorem quoteText_quote (s : JsString) : (quoteText s).flatMap utf16 = quote s := by
  have hunits : (unitsText s).flatMap utf16 = quoteUnits s := by
    induction s using unitsText.induct with
    | case1 => rfl
    | case2 u v rest hpair ih =>
      rw [unitsText, quoteUnits, if_pos hpair, if_pos hpair, List.flatMap_cons, ih]
      simp only [Bool.and_eq_true] at hpair
      rw [utf16_pair hpair.1 hpair.2]
      rfl
    | case3 u v rest hpair ih =>
      rw [unitsText, quoteUnits, if_neg hpair, if_neg hpair, List.flatMap_append, ih, unitText_quoteUnit]
    | case4 u => exact unitText_quoteUnit u
  unfold quoteText quote
  rw [List.flatMap_append, List.flatMap_cons, hunits]
  rfl

/-! ## Values -/

namespace Json

/-- A new line of the given depth, by two. -/
def newline (depth : Nat) : List Char := '\n' :: List.replicate (2 * depth) ' '

mutual

/-- JSON.stringify(value, null, 2), at a depth. -/
def stringify (depth : Nat) : Json → List Char
  | null => "null".toList
  | bool b => if b then "true".toList else "false".toList
  | num neg digits exp => numberText neg digits exp
  | str s => quoteText s
  | arr [] => ['[', ']']
  | arr (x :: xs) => '[' :: newline (depth + 1) ++ stringify (depth + 1) x ++ elements (depth + 1) xs ++ newline depth ++ [']']
  | obj [] => ['\x7b', '\x7d']
  | obj ((key, x) :: fields) => '\x7b' :: newline (depth + 1) ++ quoteText key ++ [':', ' '] ++ stringify (depth + 1) x ++
      members (depth + 1) fields ++ newline depth ++ ['\x7d']

/-- The elements after the first. -/
def elements (depth : Nat) : List Json → List Char
  | [] => []
  | x :: xs => ',' :: newline depth ++ stringify depth x ++ elements depth xs

def members (depth : Nat) : List (JsString × Json) → List Char
  | [] => []
  | (key, x) :: fields => ',' :: newline depth ++ quoteText key ++ [':', ' '] ++ stringify depth x ++ members depth fields

end

mutual

/-- The value with each number as it is read from its text. -/
def reread : Json → Json
  | num neg digits exp => rereadNumber neg digits exp
  | arr xs => arr (rereads xs)
  | obj fields => obj (rereadFields fields)
  | null => null
  | bool b => bool b
  | str s => str s

def rereads : List Json → List Json
  | [] => []
  | x :: xs => reread x :: rereads xs

def rereadFields : List (JsString × Json) → List (JsString × Json)
  | [] => []
  | (key, x) :: fields => (key, reread x) :: rereadFields fields

end

/-! ## Reading strings -/

section Strings

variable {stack : List Frame} {fields : Option (List (JsString × Json))} {units : JsString}

theorem hexDigit_hexChar : ∀ n < 16, hexDigit? (hexChar n) = some n := by decide

theorem feeds_hex (u : UInt16) : Feeds ⟨stack, .str fields units⟩ (hexText u) ⟨stack, .str fields (u :: units)⟩ := by
  have hbound := u.toNat_lt
  have hvalue :
      UInt16.ofNat ((((u.toNat / 4096) * 16 + u.toNat / 256 % 16) * 16 + u.toNat / 16 % 16) * 16 + u.toNat % 16) = u := by
    rw [show (((u.toNat / 4096) * 16 + u.toNat / 256 % 16) * 16 + u.toNat / 16 % 16) * 16 + u.toNat % 16 = u.toNat by omega]
    exact UInt16.ofNat_toNat
  refine .cons (q := ⟨stack, .escape fields units⟩) rfl (.cons (q := ⟨stack, .hex fields units 0 0⟩) rfl
    (.cons (q := ⟨stack, .hex fields units 1 (u.toNat / 4096)⟩) ?_
      (.cons (q := ⟨stack, .hex fields units 2 ((u.toNat / 4096) * 16 + u.toNat / 256 % 16)⟩) ?_
        (.cons (q := ⟨stack, .hex fields units 3 (((u.toNat / 4096) * 16 + u.toNat / 256 % 16) * 16 + u.toNat / 16 % 16)⟩) ?_
          (.cons ?_ (.nil _))))))
  · simp [feed, hexDigit_hexChar (u.toNat / 4096) (by omega)]
  · simp [feed, hexDigit_hexChar (u.toNat / 256 % 16) (by omega)]
  · simp [feed, hexDigit_hexChar (u.toNat / 16 % 16) (by omega)]
  · simp only [feed, hexDigit_hexChar (u.toNat % 16) (by omega), Option.map_some, if_true, hvalue]

/-- A character that stands for itself. -/
theorem feed_char {c : Char} (hlow : 0x20 ≤ c.toNat) (hquote : c ≠ '"') (hslash : c ≠ '\\') :
    feed ⟨stack, .str fields units⟩ c = some ⟨stack, .str fields ((utf16 c).reverse ++ units)⟩ := by
  have hval : ¬c.val < 0x20 := by
    rw [UInt32.lt_iff_toNat_lt]
    exact not_lt.mpr hlow
  simp only [feed, beq_iff_eq, hquote, hslash, hval, if_false]

theorem feeds_unit (u : UInt16) : Feeds ⟨stack, .str fields units⟩ (unitText u) ⟨stack, .str fields (u :: units)⟩ := by
  unfold unitText
  -- the two-character escapes
  by_cases h08 : u = 0x08
  · subst h08; rfl
  by_cases h09 : u = 0x09
  · subst h09; rfl
  by_cases h0A : u = 0x0A
  · subst h0A; rfl
  by_cases h0C : u = 0x0C
  · subst h0C; rfl
  by_cases h0D : u = 0x0D
  · subst h0D; rfl
  by_cases h22 : u = 0x22
  · subst h22; rfl
  by_cases h5C : u = 0x5C
  · subst h5C; rfl
  simp only [if_neg h08, if_neg h09, if_neg h0A, if_neg h0C, if_neg h0D, if_neg h22, if_neg h5C]
  by_cases hhex : (decide (u < 0x20) || isHighSurrogate u || isLowSurrogate u) = true
  · rw [if_pos hhex]
    exact feeds_hex u
  · rw [if_neg hhex]
    simp only [Bool.or_eq_true, decide_eq_true_eq, not_or, Bool.not_eq_true] at hhex
    obtain ⟨⟨hlow, hhigh⟩, hlow'⟩ := hhex
    have hchar : (Char.ofNat u.toNat).toNat = u.toNat := by
      have hrange := surrogate_false.mp ⟨hhigh, hlow'⟩
      have hbound := u.toNat_lt
      exact charOf_toNat (by omega)
    have hne : ∀ v : UInt16, u ≠ v → u.toNat ≠ v.toNat := fun v huv heq => huv (UInt16.toNat_inj.mp heq)
    refine .cons ?_ (.nil _)
    rw [feed_char, utf16_unit hhigh hlow']
    · rfl
    · rw [hchar]
      rw [UInt16.lt_iff_toNat_lt] at hlow
      exact not_lt.mp hlow
    · intro hquote
      rw [hquote] at hchar
      exact hne 0x22 h22 hchar.symm
    · intro hslash
      rw [hslash] at hchar
      exact hne 0x5C h5C hchar.symm

theorem feed_pair {u v : UInt16} (hhigh : isHighSurrogate u = true) (hlow : isLowSurrogate v = true) :
    feed ⟨stack, .str fields units⟩ (pairChar u v) = some ⟨stack, .str fields (v :: u :: units)⟩ := by
  have hlarge := pairChar_large hhigh hlow
  rw [feed_char, utf16_pair hhigh hlow]
  · rfl
  · omega
  · intro hquote
    rw [hquote] at hlarge
    exact absurd hlarge (by decide)
  · intro hslash
    rw [hslash] at hlarge
    exact absurd hlarge (by decide)

theorem feeds_units (s : JsString) : Feeds ⟨stack, .str fields units⟩ (unitsText s)
    ⟨stack, .str fields (s.reverse ++ units)⟩ := by
  induction s using unitsText.induct generalizing units with
  | case1 => exact .nil _
  | case2 u v rest hpair ih =>
    rw [unitsText, if_pos hpair, List.reverse_cons, List.reverse_cons]
    simp only [Bool.and_eq_true] at hpair
    refine .cons (feed_pair hpair.1 hpair.2) ?_
    simpa using @ih (v :: u :: units)
  | case3 u v rest hpair ih =>
    rw [unitsText, if_neg hpair, List.reverse_cons]
    refine (feeds_unit u).append ?_
    simpa using @ih (u :: units)
  | case4 u => exact feeds_unit u

/-- A string is read where a value is due. -/
theorem feeds_string (s : JsString) : Feeds ⟨stack, .value⟩ (quoteText s) ⟨stack, .after (.str s)⟩ := by
  refine (Feeds.cons (q := ⟨stack, .str none []⟩) rfl (feeds_units s)).append (.cons ?_ (.nil _))
  simp [feed, endString]

/-- A key is read. -/
theorem feeds_key {p : Parser} {done : List (JsString × Json)}
    (hp : feed p '"' = some ⟨stack, .str (some done) []⟩) (s : JsString) :
    Feeds p (quoteText s) ⟨stack, .colon done s⟩ := by
  refine (Feeds.cons hp (feeds_units s)).append (.cons ?_ (.nil _))
  simp [feed, endString]

end Strings

/-! ## Reading values -/

/-- The parser has read `v`, and a number may still go on. -/
def Read (stack : List Frame) (v : Json) (p : Parser) : Prop :=
  p = ⟨stack, .after v⟩ ∨ ∃ n : Num, p = ⟨stack, .num n⟩ ∧ n.value = some v

def closers : List Char := [',', ']', '\x7d', '\n']

/-- What comes after a value ends it. -/
theorem Read.feed {stack : List Frame} {v : Json} {p : Parser} (h : Read stack v p) {c : Char} (hc : c ∈ closers) :
    feed p c = afterValue stack v c := by
  rcases h with rfl | ⟨n, rfl, hn⟩
  · rfl
  · obtain ⟨part, neg, digits, scale, expNeg, exp⟩ := n
    simp only [closers, List.mem_cons, List.not_mem_nil, or_false] at hc
    have hpush : Num.push ⟨part, neg, digits, scale, expNeg, exp⟩ c = none := by
      rcases hc with rfl | rfl | rfl | rfl <;> cases part <;> rfl
    simp only [Json.feed, hpush, hn, Option.bind_some]

theorem Read.finish {v : Json} {p : Parser} (h : Read [] v p) : finish p = some v := by
  rcases h with rfl | ⟨n, rfl, hn⟩
  · rfl
  · exact hn

/-- A parser that white space leaves as it is. -/
def Waits (p : Parser) : Prop := feed p '\n' = some p ∧ feed p ' ' = some p

theorem Waits.newline {p : Parser} (h : Waits p) (depth : Nat) : Feeds p (newline depth) p := by
  refine .cons h.1 ?_
  induction 2 * depth with
  | zero => exact .nil _
  | succ n ih => exact .cons h.2 ih

theorem waits_value (stack : List Frame) : Waits ⟨stack, .value⟩ := ⟨rfl, rfl⟩

theorem waits_first (stack : List Frame) : Waits ⟨.arr [] :: stack, .first⟩ := ⟨rfl, rfl⟩

theorem waits_firstKey (stack : List Frame) (done : List (JsString × Json)) : Waits ⟨stack, .firstKey done⟩ := ⟨rfl, rfl⟩

theorem waits_key (stack : List Frame) (done : List (JsString × Json)) : Waits ⟨stack, .key done⟩ := ⟨rfl, rfl⟩

theorem waits_after (stack : List Frame) (v : Json) : Waits ⟨stack, .after v⟩ := ⟨rfl, rfl⟩

/-- The line before a closing bracket. -/
theorem Read.newline {stack : List Frame} {v : Json} {p : Parser} (h : Read stack v p) (depth : Nat) :
    Feeds p (newline depth) ⟨stack, .after v⟩ := by
  have hwaits := (waits_after stack v).newline depth
  unfold Json.newline Feeds at *
  rw [List.foldlM_cons, h.feed (by decide)]
  rw [List.foldlM_cons] at hwaits
  exact hwaits

theorem isSpace_nonzero : ∀ c ∈ nonzeroDigits, isSpace c = false := List.all_iff_forall_prop.mp (by decide)

theorem numberText_head (neg : Bool) (digits : Nat) (exp : Int) :
    ∃ c cs, numberText neg digits exp = c :: cs ∧ isSpace c = false := by
  unfold numberText
  by_cases hzero : digits = 0
  · exact ⟨'0', [], if_pos hzero, rfl⟩
  simp only [if_neg hzero]
  obtain ⟨c, ds, hds, hc⟩ := toDigits_first (Nat.pos_of_ne_zero hzero)
  have hspace : isSpace c = false := isSpace_nonzero c hc
  rw [hds]
  cases neg with
  | true =>
    simp only [if_true, List.singleton_append]
    exact ⟨'-', _, rfl, rfl⟩
  | false =>
    simp only [Bool.false_eq_true, if_false, List.nil_append]
    split
    · exact ⟨c, _, rfl, hspace⟩
    split
    · rename_i hpoint
      obtain ⟨m, hm⟩ := Nat.exists_eq_succ_of_ne_zero (show (((c :: ds).length : Int) + exp).toNat ≠ 0 by omega)
      rw [hm]
      exact ⟨c, _, rfl, hspace⟩
    split
    · exact ⟨'0', _, rfl, rfl⟩
    · exact ⟨c, _, rfl, hspace⟩

theorem stringify_head (depth : Nat) (j : Json) : ∃ c cs, stringify depth j = c :: cs ∧ isSpace c = false := by
  unfold stringify
  split
  · exact ⟨'n', _, rfl, rfl⟩
  · split
    · exact ⟨'t', _, rfl, rfl⟩
    · exact ⟨'f', _, rfl, rfl⟩
  · exact numberText_head ..
  · exact ⟨'"', _, rfl, rfl⟩
  · exact ⟨'[', _, rfl, rfl⟩
  · exact ⟨'[', _, rfl, rfl⟩
  · exact ⟨'\x7b', _, rfl, rfl⟩
  · exact ⟨'\x7b', _, rfl, rfl⟩

/-- The first element of an array is read like any value. -/
theorem feeds_first_element {stack : List Frame} {depth : Nat} {j : Json} {p : Parser}
    (h : Feeds ⟨.arr [] :: stack, .value⟩ (stringify depth j) p) : Feeds ⟨.arr [] :: stack, .first⟩ (stringify depth j) p := by
  obtain ⟨c, cs, hhead, hspace⟩ := stringify_head depth j
  rw [hhead] at h ⊢
  unfold Feeds at *
  rw [List.foldlM_cons] at h ⊢
  have hbracket : c ≠ ']' := by
    rintro rfl
    cases h
  have hsame : feed ⟨.arr [] :: stack, .first⟩ c = feed ⟨.arr [] :: stack, .value⟩ c := by
    simp [feed, hbracket, hspace]
  rw [hsame]
  exact h

mutual

theorem feeds_value : (j : Json) → ∀ (depth : Nat) (stack : List Frame),
    ∃ p, Feeds ⟨stack, .value⟩ (stringify depth j) p ∧ Read stack (reread j) p
  | null => fun _ stack => ⟨⟨stack, .after .null⟩, rfl, .inl rfl⟩
  | bool b => fun _ stack => ⟨⟨stack, .after (.bool b)⟩, by cases b <;> rfl, .inl rfl⟩
  | num neg digits exp => fun depth stack => by
    obtain ⟨n, hfeeds, hn⟩ := feeds_number stack neg digits exp
    exact ⟨_, by rw [stringify]; exact hfeeds, .inr ⟨n, rfl, by rw [reread]; exact hn⟩⟩
  | str s => fun depth stack => ⟨_, by rw [stringify]; exact feeds_string s, .inl (by rw [reread])⟩
  | arr [] => fun _ stack => ⟨⟨stack, .after (.arr [])⟩, rfl, .inl rfl⟩
  | arr (x :: xs) => fun depth stack => by
    obtain ⟨p, hx, hread⟩ := feeds_value x (depth + 1) (.arr [] :: stack)
    obtain ⟨done, v, q, hxs, hlast, hall⟩ := feeds_elements xs (depth + 1) stack [] (reread x) p hread
    refine ⟨⟨stack, .after (reread (.arr (x :: xs)))⟩, ?_, .inl rfl⟩
    rw [stringify]
    refine (((Feeds.cons (q := ⟨.arr [] :: stack, .first⟩) rfl ((waits_first stack).newline (depth + 1))).append
      (feeds_first_element hx)).append hxs).append (hlast.newline depth) |>.append (.cons ?_ (.nil _))
    simp [feed, afterValue, isSpace, reread, rereads, hall]
  | obj [] => fun _ stack => ⟨⟨stack, .after (.obj [])⟩, rfl, .inl rfl⟩
  | obj ((key, x) :: fields) => fun depth stack => by
    obtain ⟨p, hx, hread⟩ := feeds_value x (depth + 1) (.obj [] key :: stack)
    obtain ⟨done, key', v, q, hxs, hlast, hall⟩ := feeds_members fields (depth + 1) stack [] key (reread x) p hread
    refine ⟨⟨stack, .after (reread (.obj ((key, x) :: fields)))⟩, ?_, .inl rfl⟩
    rw [stringify]
    have hopen : Feeds ⟨stack, .value⟩ ('\x7b' :: newline (depth + 1)) ⟨stack, .firstKey []⟩ :=
      .cons (q := ⟨stack, .firstKey []⟩) rfl ((waits_firstKey stack []).newline (depth + 1))
    have hcolon : Feeds ⟨stack, .colon [] key⟩ [':', ' '] ⟨.obj [] key :: stack, .value⟩ := rfl
    refine (((((hopen.append (feeds_key rfl key)).append hcolon).append hx).append hxs).append (hlast.newline depth)).append
      (.cons ?_ (.nil _))
    simp [feed, afterValue, isSpace, reread, rereadFields, hall]

theorem feeds_elements : (xs : List Json) → ∀ (depth : Nat) (stack : List Frame) (done : List Json) (v : Json) (p : Parser),
    Read (.arr done :: stack) v p → ∃ done' v' q, Feeds p (elements depth xs) q ∧ Read (.arr done' :: stack) v' q ∧
      (v' :: done').reverse = (v :: done).reverse ++ rereads xs
  | [] => fun _ _ done v p hread => ⟨done, v, p, by rw [elements]; exact .nil _, hread, by simp [rereads]⟩
  | x :: xs => fun depth stack done v p hread => by
    obtain ⟨q, hx, hnext⟩ := feeds_value x depth (.arr (v :: done) :: stack)
    obtain ⟨done', v', r, hxs, hlast, hall⟩ := feeds_elements xs depth stack (v :: done) (reread x) q hnext
    refine ⟨done', v', r, ?_, hlast, by simp [hall, rereads]⟩
    rw [elements]
    have hcomma : Feeds p (',' :: newline depth) ⟨.arr (v :: done) :: stack, .value⟩ :=
      .cons (by rw [hread.feed (by decide)]; rfl) ((waits_value _).newline depth)
    exact (hcomma.append hx).append hxs

theorem feeds_members : (fields : List (JsString × Json)) → ∀ (depth : Nat) (stack : List Frame) (done : List (JsString × Json))
    (key : JsString) (v : Json) (p : Parser), Read (.obj done key :: stack) v p →
      ∃ done' key' v' q, Feeds p (members depth fields) q ∧ Read (.obj done' key' :: stack) v' q ∧
        ((key', v') :: done').reverse = ((key, v) :: done).reverse ++ rereadFields fields
  | [] => fun _ _ done key v p hread => ⟨done, key, v, p, by rw [members]; exact .nil _, hread, by simp [rereadFields]⟩
  | (key', x) :: fields => fun depth stack done key v p hread => by
    obtain ⟨q, hx, hnext⟩ := feeds_value x depth (.obj ((key, v) :: done) key' :: stack)
    obtain ⟨done', last, v', r, hxs, hlast, hall⟩ := feeds_members fields depth stack ((key, v) :: done) key' (reread x) q hnext
    refine ⟨done', last, v', r, ?_, hlast, by simp [hall, rereadFields]⟩
    rw [members]
    have hcomma : Feeds p (',' :: newline depth) ⟨stack, .key ((key, v) :: done)⟩ :=
      .cons (by rw [hread.feed (by decide)]; rfl) ((waits_key _ _).newline depth)
    have hcolon : Feeds ⟨stack, .colon ((key, v) :: done) key'⟩ [':', ' '] ⟨.obj ((key, v) :: done) key' :: stack, .value⟩ := rfl
    exact (((hcomma.append (feeds_key rfl key')).append hcolon).append hx).append hxs

end

/-- What is written is read back. -/
theorem parse_stringify (j : Json) : parse (String.ofList (stringify 0 j)) = some (reread j) := by
  obtain ⟨p, hfeeds, hread⟩ := feeds_value j 0 []
  unfold parse
  rw [String.toList_ofList, show (stringify 0 j).foldlM feed ⟨[], .value⟩ = some p from hfeeds, Option.bind_some]
  exact hread.finish

end Json

end Js
