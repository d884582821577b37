/-
  FlowHelm.Lib.JsParseInt — whole numbers in strings, as ECMA-262 reads them. `BigInt(s)`: white
  space around it, a sign before decimal digits, or digits after 0b, 0o or 0x. `parseInt(s, 10)`:
  white space, a sign, and as many digits as there are.

  - `parseInt_digits`: of digits alone, what they say.
-/
import Mathlib.Data.List.TakeWhile
import FlowHelm.Lib.Js
import FlowHelm.Lib.Utf16

namespace Js

/-! ## BigInt -/

/-- A code unit as a character; half of a pair is none that any grammar here knows. -/
def unitChar (u : UInt16) : Char := Char.ofNat u.toNat

def radixDigits (radix : Nat) : List Char → Option Nat
  | [] => none
  | ds => ds.foldlM (fun n c => (Json.hexDigit? c).bind fun d => if d < radix then some (n * radix + d) else none) 0

def strInteger : List Char → Option Int
  | [] => some 0
  | '+' :: ds => (radixDigits 10 ds).map Int.ofNat
  | '-' :: ds => (radixDigits 10 ds).map fun n => -(n : Int)
  | '0' :: 'b' :: ds | '0' :: 'B' :: ds => (radixDigits 2 ds).map Int.ofNat
  | '0' :: 'o' :: ds | '0' :: 'O' :: ds => (radixDigits 8 ds).map Int.ofNat
  | '0' :: 'x' :: ds | '0' :: 'X' :: ds => (radixDigits 16 ds).map Int.ofNat
  | ds => (radixDigits 10 ds).map Int.ofNat

/-- `BigInt(s)`; `none` is a SyntaxError. -/
def bigInt (s : JsString) : Option Int :=
  strInteger (((s.map unitChar).dropWhile isWhite).reverse.dropWhile isWhite).reverse

example : ["12", " 12\n", "-7", "0x1F", "", "1e3", "0x"].map (bigInt <| ofString ·) =
    [some 12, some 12, some (-7), some 31, some 0, none, none] := by decide

/-! ## parseInt -/

/-- The number in digits at the front. -/
def leadingDigits (cs : List Char) : Option Nat := radixDigits 10 (cs.takeWhile Char.isDigit)

/-- Before it is rounded to a double; `none` is NaN. -/
def parseInt (s : JsString) : Option Int := match (s.map unitChar).dropWhile isWhite with
  | '+' :: cs => (leadingDigits cs).map Int.ofNat
  | '-' :: cs => (leadingDigits cs).map fun n => -(n : Int)
  | cs => (leadingDigits cs).map Int.ofNat

example : ["12", " 7x", "-3-", "x1", "", "+"].map (parseInt <| ofString ·) =
    [some 12, some 7, some (-3), none, none, none] := by decide

/-! ## Digits alone -/

theorem unitChar_digits {ds : List Char} (h : ∀ c ∈ ds, c.isDigit = true) : (ds.flatMap utf16).map unitChar = ds := by
  induction ds with
  | nil => rfl
  | cons c ds ih =>
    have hc : c.toNat < 0x10000 := by
      have hdigit := h c (.head _)
      have hnine : c.toNat ≤ '9'.toNat := (Char.isDigit_iff_toNat.mp hdigit).2
      have hval : '9'.toNat = 57 := rfl
      omega
    obtain ⟨u, hu, hval, -⟩ := utf16_small hc
    rw [List.flatMap_cons, hu, List.singleton_append, List.map_cons, ih fun d hd => h d (.tail _ hd), unitChar, hval,
      Char.ofNat_toNat]

theorem isWhite_digit {c : Char} (h : c.isDigit = true) : isWhite c = false := by
  have hnine : c.toNat ≤ '9'.toNat := (Char.isDigit_iff_toNat.mp h).2
  have hlow : ¬ '\u2000' ≤ c := by
    intro hle
    have hval : '\u2000'.toNat ≤ c.toNat := hle
    exact absurd (Nat.le_trans hval hnine) (by decide)
  have hlist : ['\t', '\n', '\x0b', '\x0c', '\r', ' ', '\u00a0', '\u1680', '\u2028', '\u2029', '\u202f', '\u205f',
      '\u3000', '\ufeff'].all (!·.isDigit) = true := by decide
  rw [isWhite, Bool.or_eq_false_iff]
  constructor
  · refine decide_eq_false fun hmem => ?_
    have hnot := List.all_eq_true.mp hlist c hmem
    rw [h] at hnot
    cases hnot
  · simp [hlow]

theorem radixDigits_digits {ds : List Char} (h : ∀ c ∈ ds, c.isDigit = true) (hne : ds ≠ []) :
    radixDigits 10 ds = some (Nat.ofDigitChars 10 ds 0) := by
  have hfold : ∀ n, ds.foldlM (fun n c => (Json.hexDigit? c).bind fun d => if d < 10 then some (n * 10 + d) else none) n =
      some (Nat.ofDigitChars 10 ds n) := by
    clear hne
    induction ds with
    | nil =>
      intro n
      simp
    | cons c ds ih =>
      intro n
      have hdigit := h c (.head _)
      have hrange := Char.isDigit_iff_toNat.mp hdigit
      have hval : c.toNat - '0'.toNat < 10 := by
        have hnine : '9'.toNat = '0'.toNat + 9 := rfl
        omega
      rw [List.foldlM_cons, Json.hexDigit?, if_pos hdigit, Option.bind_some, if_pos hval, Nat.ofDigitChars_cons,
        Nat.mul_comm 10 n]
      exact ih (fun d hd => h d (.tail _ hd)) _
  cases ds with
  | nil => exact absurd rfl hne
  | cons c ds => exact hfold 0

theorem parseInt_digits {ds : List Char} (h : ∀ c ∈ ds, c.isDigit = true) (hne : ds ≠ []) :
    parseInt (ds.flatMap utf16) = some (Nat.ofDigitChars 10 ds 0 : Nat) := by
  have hleading : leadingDigits ds = some (Nat.ofDigitChars 10 ds 0) := by
    rw [leadingDigits, List.takeWhile_eq_self_iff.mpr h, radixDigits_digits h hne]
  obtain ⟨c, cs, rfl⟩ := List.exists_cons_of_ne_nil hne
  have hdigit := h c (.head _)
  rw [parseInt, unitChar_digits h, List.dropWhile_cons_of_neg (by simp [isWhite_digit hdigit])]
  split
  · rename_i heq
    obtain ⟨rfl, rfl⟩ := List.cons.inj heq
    exact absurd hdigit (by decide)
  · rename_i heq
    obtain ⟨rfl, rfl⟩ := List.cons.inj heq
    exact absurd hdigit (by decide)
  · rw [hleading]
    rfl

end Js
