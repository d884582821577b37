/-
  FlowHelm.Lib.JsText — JSON values made text: what a template literal shows of one, and
  the quotes JSON.stringify puts around a string.

  A template literal asks an object for `toString`; an own property of that name is no
  function in a value JSON.parse made, and the conversion throws. The text of a number is a
  parameter.

  - `toText_eq_none`: the conversion throws just where such an object is reached.
-/
import FlowHelm.Lib.Js

namespace Js

/-- `\u00XX`. -/
def hex4 (u : UInt16) : JsString :=
  let digit (n : Nat) : UInt16 := UInt16.ofNat (if n < 10 then 0x30 + n else 0x57 + n)
  ofString "\\u" ++ [digit (u.toNat / 4096), digit (u.toNat / 256 % 16), digit (u.toNat / 16 % 16), digit (u.toNat % 16)]

def isHighSurrogate (u : UInt16) : Bool := 0xD800 ≤ u && u ≤ 0xDBFF

def isLowSurrogate (u : UInt16) : Bool := 0xDC00 ≤ u && u ≤ 0xDFFF

def quoteUnit (u : UInt16) : JsString :=
  if u = 0x08 then ofString "\\b"
  else if u = 0x09 then ofString "\\t"
  else if u = 0x0A then ofString "\\n"
  else if u = 0x0C then ofString "\\f"
  else if u = 0x0D then ofString "\\r"
  else if u = 0x22 then ofString "\\\""
  else if u = 0x5C then ofString "\\\\"
  else if u < 0x20 then hex4 u
  else [u]

/-- The units between the quotes: a surrogate without its other half is escaped. -/
def quoteUnits : JsString → JsString
  | [] => []
  | u :: v :: rest =>
    if isHighSurrogate u && isLowSurrogate v then u :: v :: quoteUnits rest
    else (if isHighSurrogate u || isLowSurrogate u then hex4 u else quoteUnit u) ++ quoteUnits (v :: rest)
  | [u] => if isHighSurrogate u || isLowSurrogate u then hex4 u else quoteUnit u

/-- `JSON.stringify` of a string. -/
def quote (s : JsString) : JsString := ofString "\"" ++ quoteUnits s ++ ofString "\""

namespace Json

variable (number : Bool → Nat → Int → JsString)

mutual

/-- ``${value}``; `none` is a TypeError. -/
def toText : Json → Option JsString
  | null => some (ofString "null")
  | bool b => some (ofString (if b then "true" else "false"))
  | num neg digits exp => some (number neg digits exp)
  | str s => some s
  | arr xs => (toTexts xs).map (join (ofString ","))
  | obj fields => if fields.any (·.1 == ofString "toString") then none else some (ofString "[object Object]")

/-- The elements of an array, as `join` takes them. -/
def toTexts : List Json → Option (List JsString)
  | [] => some []
  | x :: xs => (if x.isNull then some [] else toText x).bind fun s => (toTexts xs).map (s :: ·)

end

/-- An object with an own `toString` is reached by the conversion. -/
inductive Shadowed : Json → Prop
  | obj {fields : List (JsString × Json)} {f : JsString × Json} : f ∈ fields → f.1 = ofString "toString" → Shadowed (.obj fields)
  | arr {xs : List Json} {x : Json} : x ∈ xs → Shadowed x → Shadowed (.arr xs)

mutual

theorem toText_eq_none : (v : Json) → (toText number v = none ↔ Shadowed v)
  | null => ⟨nofun, nofun⟩
  | bool _ => ⟨nofun, nofun⟩
  | num _ _ _ => ⟨nofun, nofun⟩
  | str _ => ⟨nofun, nofun⟩
  | arr xs => by
    unfold toText
    rw [Option.map_eq_none_iff, toTexts_eq_none xs]
    constructor
    · intro h
      obtain ⟨x, hx, hs⟩ := h
      exact .arr hx hs
    · intro h
      cases h with
      | arr hx hs => exact ⟨_, hx, hs⟩
  | obj fields => by
    unfold toText
    by_cases hany : fields.any (·.1 == ofString "toString") = true
    · rw [if_pos hany]
      obtain ⟨f, hf, hkey⟩ := List.any_eq_true.mp hany
      exact iff_of_true rfl (.obj hf (by simpa using hkey))
    · rw [if_neg hany]
      refine iff_of_false nofun fun h => ?_
      cases h with
      | obj hf hkey => exact hany (List.any_eq_true.mpr ⟨_, hf, by simpa using hkey⟩)

theorem toTexts_eq_none : (xs : List Json) → (toTexts number xs = none ↔ ∃ x ∈ xs, Shadowed x)
  | [] => ⟨nofun, fun ⟨_, hx, _⟩ => nomatch hx⟩
  | x :: xs => by
    have hhead : (if x.isNull then some [] else toText number x) = none ↔ Shadowed x := by
      by_cases hnull : x.isNull = true
      · rw [if_pos hnull]
        refine iff_of_false nofun fun h => ?_
        cases h <;> cases hnull
      · rw [if_neg hnull]
        exact toText_eq_none x
    have htail := toTexts_eq_none xs
    rw [show (∃ y ∈ x :: xs, Shadowed y) ↔ Shadowed x ∨ ∃ y ∈ xs, Shadowed y by simp, ← hhead, ← htail]
    show (Option.bind _ fun s => (toTexts number xs).map (s :: ·)) = none ↔ _
    cases if x.isNull then some [] else toText number x with
    | none => simp
    | some s => simp

end

end Json

end Js
