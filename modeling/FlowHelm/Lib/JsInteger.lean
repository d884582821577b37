/-
  FlowHelm.Lib.JsInteger — `+`, `Math.max` and `String` of numbers, `Number` of strings and of what
  JSON.parse gives, and whole numbers of 53 bits, which these treat as such.

  - `add_int` / `max_int`: sums and greatest are the whole numbers'.
  - `toText_nat`: the text is the decimal digits.
-/
import FlowHelm.Lib.JsonNumber
import FlowHelm.Lib.JsParseInt
import FlowHelm.Lib.JsText

namespace Js

namespace JsNumber

/-- The number that stands for `x`. -/
def ofRat (x : Rat) : JsNumber :=
  if h : |toDouble x| < 2 ^ 1024 then .finite (toDouble x) ⟨toDouble_idem x, h⟩ else .infinity (x < 0)

def add : JsNumber → JsNumber → JsNumber
  | .nan, _ | _, .nan => .nan
  | .infinity neg, .infinity neg' => if neg = neg' then .infinity neg else .nan
  | .infinity neg, _ | _, .infinity neg => .infinity neg
  | .finite x _, .finite y _ => ofRat (x + y)

/-- `Math.max`. -/
def max : JsNumber → JsNumber → JsNumber
  | .nan, _ | _, .nan => .nan
  | .infinity true, x | x, .infinity true => x
  | .infinity false, _ | _, .infinity false => .infinity false
  | .finite x hx, .finite y hy => if x < y then .finite y hy else .finite x hx

/-- `String(x)`. -/
def toText : JsNumber → List Char
  | .nan => "NaN".toList
  | .infinity neg => (if neg then "-Infinity" else "Infinity").toList
  | .finite x _ => if x = 0 then ['0'] else Json.numberText (decide (x < 0)) (Json.shortest |x|).1 (Json.shortest |x|).2

/-- `parseInt(s, 10)`. -/
def parse (s : JsString) : JsNumber := match parseInt s with
  | some z => ofRat z
  | none => .nan

/-- What follows the digits: nothing, or a power of ten. -/
def exponent : List Char → Option Int
  | [] => some 0
  | e :: rest => if e ≠ 'e' ∧ e ≠ 'E' then none else match rest with
    | '+' :: ds => (radixDigits 10 ds).map Int.ofNat
    | '-' :: ds => (radixDigits 10 ds).map fun n => -(n : Int)
    | ds => (radixDigits 10 ds).map Int.ofNat

def decimal (neg : Bool) (cs : List Char) : JsNumber :=
  if cs = "Infinity".toList then .infinity neg else
  let whole := cs.takeWhile Char.isDigit
  let (frac, rest) := match cs.dropWhile Char.isDigit with
    | '.' :: more => (more.takeWhile Char.isDigit, more.dropWhile Char.isDigit)
    | rest => ([], rest)
  match radixDigits 10 (whole ++ frac), exponent rest with
  | some digits, some e => ofRat (Json.decimal neg digits (e - frac.length))
  | _, _ => .nan

/-- `Number(s)`. -/
def ofText (s : JsString) : JsNumber := match bigInt s with
  | some z => ofRat z
  | none => match (((s.map unitChar).dropWhile isWhite).reverse.dropWhile isWhite).reverse with
    | '+' :: cs => decimal false cs
    | '-' :: cs => decimal true cs
    | cs => decimal false cs

example : ["2000", " 1.5e3", "-.5", "0x10", "", "5s", "."].map (ofText <| ofString ·) =
    [ofRat 2000, ofRat 1500, ofRat (-1/2), ofRat 16, ofRat 0, .nan, .nan] := by decide +kernel

/-- `Math.max(low, Math.min(high, x))`, `none` for NaN. -/
def clamp (low high : Rat) : JsNumber → Option Rat
  | .nan => none
  | .infinity neg => some (Max.max low (if neg then low else high))
  | .finite x _ => some (Max.max low (Min.min high x))

theorem clamp_bounds {low high c : Rat} {x : JsNumber} (h : x.clamp low high = some c) : low ≤ c ∧ c ≤ Max.max low high := by
  cases x with
  | nan => cases h
  | infinity neg =>
    obtain rfl := Option.some.inj h
    refine ⟨le_max_left .., max_le (le_max_left ..) ?_⟩
    split
    · exact le_max_left ..
    · exact le_max_right ..
  | finite x hx =>
    obtain rfl := Option.some.inj h
    exact ⟨le_max_left .., max_le_max_left low (min_le_left high x)⟩

end JsNumber

/-! ## Conversions of JSON values -/

namespace Json

/-- `String` of a number in JSON. -/
def numberString (neg : Bool) (digits : Nat) (exp : Int) : JsString :=
  ofString (String.ofList (JsNumber.ofRat (decimal neg digits exp)).toText)

/-- `Number(value)`; `none` where it throws. -/
def toNumber : Json → Option JsNumber
  | null => some (.ofRat 0)
  | bool b => some (.ofRat (if b then 1 else 0))
  | num neg digits exp => some (.ofRat (decimal neg digits exp))
  | value => (value.toText numberString).map .ofText

example : ([text "0.7", text "", arr [], arr [num false 8 (-1)], arr [null], arr [null, null], text "high", obj [], bool true].map
      toNumber).map (·.bind (·.clamp 0 1)) =
    [some (toDouble (7 / 10)), some 0, some 0, some (toDouble (8 / 10)), some 0, none, none, none, some 1] := by decide +kernel

end Json

/-! ## Doubles of whole numbers -/

theorem toDouble_int {z : Int} (h : z.natAbs < 2 ^ 53) : toDouble z = z := by
  rcases Int.natAbs_eq z with hz | hz
  · rw [hz, Int.cast_natCast]
    exact toDouble_nat h
  · rw [hz, Int.cast_neg, Int.cast_natCast, toDouble_neg, toDouble_nat h]

theorem abs_int_lt {z : Int} (h : z.natAbs < 2 ^ 53) : |(z : Rat)| < 2 ^ 1024 := by
  have hlt : |z| < 2 ^ 53 := by
    rw [Int.abs_eq_natAbs]
    exact_mod_cast h
  calc |(z : Rat)| = ((|z| : Int) : Rat) := by simp
    _ < ((2 ^ 53 : Int) : Rat) := by exact_mod_cast hlt
    _ ≤ 2 ^ 1024 := by
      rw [Int.cast_pow]
      exact pow_le_pow_right₀ (by norm_num) (by norm_num)

/-- A whole number of 53 bits. -/
def JsNumber.int (z : Int) (h : z.natAbs < 2 ^ 53) : JsNumber := .finite z ⟨toDouble_int h, abs_int_lt h⟩

theorem JsNumber.ofRat_int {z : Int} (h : z.natAbs < 2 ^ 53) : ofRat z = int z h := by
  unfold ofRat int
  simp only [toDouble_int h]
  exact dif_pos (abs_int_lt h)

theorem JsNumber.add_int {a b : Int} (ha : a.natAbs < 2 ^ 53) (hb : b.natAbs < 2 ^ 53) (h : (a + b).natAbs < 2 ^ 53) :
    add (int a ha) (int b hb) = int (a + b) h := by
  rw [← ofRat_int h, Int.cast_add]
  rfl

theorem JsNumber.max_int {a b : Int} (ha : a.natAbs < 2 ^ 53) (hb : b.natAbs < 2 ^ 53) (h : (Max.max a b).natAbs < 2 ^ 53) :
    max (int a ha) (int b hb) = int (Max.max a b) h := by
  unfold max int
  simp only [Int.cast_lt]
  split
  · rename_i hlt
    simp only [max_eq_right hlt.le]
  · rename_i hle
    simp only [max_eq_left (not_lt.mp hle)]

/-- From 2^53 on, a whole number is not rounded below it. -/
theorem le_toDouble {m : Nat} (h : 2 ^ 53 ≤ m) : (2 : Rat) ^ 53 ≤ toDouble m := by
  have hm : 0 < m := by omega
  have hlog : 53 ≤ Nat.log2 m := (Nat.le_log2 (by omega)).mpr h
  have hbit : lastBit m 1 = .ofNat (Nat.log2 m - 52) := by
    rw [lastBit_leading, leading, if_pos (Nat.succ_le_of_lt hm), Nat.div_one]
    show _ = ((Nat.log2 m - 52 : Nat) : Int)
    omega
  obtain ⟨e, he⟩ : ∃ e, Nat.log2 m = e + 52 := ⟨Nat.log2 m - 52, by omega⟩
  have hdiv : 2 ^ 52 ≤ m / 2 ^ e := by
    rw [Nat.le_div_iff_mul_le (Nat.two_pow_pos e), ← pow_add, Nat.add_comm, ← he]
    exact Nat.log2_self_le hm.ne'
  have hround : m / 2 ^ e ≤ roundDiv m (2 ^ e) := by
    unfold roundDiv
    split <;> omega
  have hvalue : 2 ^ 53 ≤ roundDiv m (2 ^ e) * 2 ^ e := by
    calc 2 ^ 53 = 2 ^ 52 * 2 ^ 1 := by norm_num
      _ ≤ roundDiv m (2 ^ e) * 2 ^ e := Nat.mul_le_mul (hdiv.trans hround) (Nat.pow_le_pow_right (by norm_num) (by omega))
  rw [toDouble_of_pos (Nat.cast_pos.mpr hm)]
  have hnearest : nearest m 1 = ((roundDiv m (2 ^ e) * 2 ^ e : Nat) : Rat) := by
    unfold nearest
    rw [hbit, show Nat.log2 m - 52 = e by omega]
    simp
  simp only [Rat.num_natCast, Rat.den_natCast, Int.natAbs_natCast]
  rw [hnearest]
  exact_mod_cast hvalue

theorem eq_of_toDouble {m n : Nat} (hn : n < 2 ^ 53) (h : toDouble m = n) : m = n := by
  rcases Nat.lt_or_ge m (2 ^ 53) with hm | hm
  · rw [toDouble_nat hm] at h
    exact_mod_cast h
  · have hle := le_toDouble hm
    rw [h] at hle
    exact absurd (by exact_mod_cast hle) (not_le.mpr hn)

/-! ## Digits -/

namespace Json

theorem toDigits_shift {s : Nat} (hs : 0 < s) (e : Nat) :
    Nat.toDigits 10 (s * 10 ^ e) = Nat.toDigits 10 s ++ List.replicate e '0' := by
  induction e with
  | zero => simp
  | succ e ih =>
    have hpos : 0 < s * 10 ^ e := Nat.mul_pos hs (Nat.pow_pos (by decide))
    have hstep := Nat.toDigits_append_toDigits (b := 10) (d := 0) (by decide) hpos (by decide)
    rw [pow_succ, ← Nat.mul_assoc, Nat.mul_comm _ 10, ← Nat.add_zero (10 * _), ← hstep, ih, List.replicate_succ',
      List.append_assoc]
    rfl

theorem magnitude_nat {n : Nat} (hn : 0 < n) : magnitude n 1 = (Nat.log 10 n : Int) + 1 := by
  rw [magnitude, if_pos (Nat.succ_le_of_lt hn), Nat.div_one]

/-- All digits of a whole number read as it. -/
theorem digitsAt_all {n : Nat} (hn : 0 < n) (h : n < 2 ^ 53) : digitsAt n (Nat.log 10 n + 1) = some (n, 0) := by
  have hexp : magnitude n 1 - ((Nat.log 10 n + 1 : Nat) : Int) = 0 := by
    rw [magnitude_nat hn]
    omega
  unfold digitsAt
  simp only [Rat.num_natCast, Rat.den_natCast, Int.natAbs_natCast, hexp]
  have hfloor : ((n : Rat) / 10 ^ (0 : Int)).floor.toNat = n := by
    rw [zpow_zero, div_one, ← Int.cast_natCast (R := Rat), Rat.floor_intCast]
    exact Int.toNat_natCast n
  rw [hfloor, if_pos (.inl (by norm_num))]
  have hlow : 10 ^ (Nat.log 10 n) ≤ n := Nat.pow_log_le_self 10 hn.ne'
  have hhigh : n < 10 ^ (Nat.log 10 n + 1) := Nat.lt_pow_succ_log_self (by decide) n
  have hreads : toDouble (decimal false n 0) = n := by
    simpa [decimal] using toDouble_nat h
  rw [List.findSome?_cons, if_pos ⟨hlow, hhigh, hreads⟩]

/-- The digits of a whole number, up to zeros behind them. -/
theorem shortest_nat {n : Nat} (hn : 0 < n) (h : n < 2 ^ 53) : ∃ s e : Nat, shortest n = (s, (e : Int)) ∧ s * 10 ^ e = n := by
  have hlog : Nat.log 10 n < 17 := Nat.log_lt_of_lt_pow hn.ne' (by omega)
  have hall := digitsAt_all hn h
  obtain ⟨found, hfound⟩ : ∃ found, (List.range 17).findSome? (fun k => digitsAt n (k + 1)) = some found := by
    rw [← Option.isSome_iff_exists, List.findSome?_isSome_iff]
    exact ⟨Nat.log 10 n, List.mem_range.mpr hlog, by rw [hall]; rfl⟩
  obtain ⟨before, k, after, hrange, hk, hnone⟩ := List.findSome?_eq_some_iff.mp hfound
  -- no more digits are tried than there are
  have hle : k ≤ Nat.log 10 n := by
    by_contra hlt
    have hlength : before.length = k := by
      have hget : (List.range 17)[before.length]? = some k := by simp [hrange]
      obtain ⟨hlt, heq⟩ := List.getElem?_eq_some_iff.mp hget
      rw [← heq, List.getElem_range]
    have hmem : Nat.log 10 n ∈ before := by
      have hget : (List.range 17)[Nat.log 10 n]? = some (Nat.log 10 n) := List.getElem?_range hlog
      rw [hrange, List.getElem?_append_left (by omega)] at hget
      exact List.mem_of_getElem? hget
    rw [hnone _ hmem] at hall
    cases hall
  have hexp : magnitude n 1 - ((k + 1 : Nat) : Int) = ((Nat.log 10 n - k : Nat) : Int) := by
    rw [magnitude_nat hn]
    omega
  unfold digitsAt at hk
  simp only [Rat.num_natCast, Rat.den_natCast, Int.natAbs_natCast, hexp] at hk
  obtain ⟨s, -, hs⟩ := List.exists_of_findSome?_eq_some hk
  split at hs
  · rename_i hreads
    obtain rfl := Option.some.inj hs
    refine ⟨s, Nat.log 10 n - k, ?_, eq_of_toDouble h ?_⟩
    · rw [shortest, hfound, Option.getD_some]
    · simpa [decimal] using hreads.2.2
  · cases hs

end Json

theorem JsNumber.toText_nat {n : Nat} (h : n < 2 ^ 53) : toText (int n h) = Nat.toDigits 10 n := by
  show (if ((n : Int) : Rat) = 0 then ['0'] else Json.numberText (decide (((n : Int) : Rat) < 0))
    (Json.shortest |((n : Int) : Rat)|).1 (Json.shortest |((n : Int) : Rat)|).2) = _
  rcases Nat.eq_zero_or_pos n with rfl | hn
  · rfl
  · have hpos : (0 : Rat) < n := Nat.cast_pos.mpr hn
    obtain ⟨s, e, hshort, hvalue⟩ := Json.shortest_nat hn h
    have hs : 0 < s := by
      rcases Nat.eq_zero_or_pos s with rfl | hs
      · omega
      · exact hs
    have hdigits : Nat.toDigits 10 n = Nat.toDigits 10 s ++ List.replicate e '0' := hvalue ▸ Json.toDigits_shift hs e
    have hlength : (Nat.toDigits 10 n).length ≤ 21 := (Nat.length_toDigits_le_iff (by decide) (by decide)).mpr (by omega)
    rw [hdigits, List.length_append, List.length_replicate] at hlength
    rw [Int.cast_natCast, if_neg hpos.ne', abs_of_pos hpos, hshort, decide_eq_false hpos.not_gt, hdigits]
    unfold Json.numberText
    simp only [if_neg hs.ne', if_pos (show (0 : Int) ≤ e ∧ ((Nat.toDigits 10 s).length : Int) + e ≤ 21 by omega),
      Int.toNat_natCast]
    rfl

end Js
