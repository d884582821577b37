/-
  FlowHelm.Lib.JsonNumber — numbers as JSON.stringify writes them, and JSON.parse of that.

  The digits are the fewest that read as the number, as Number::toString of ECMA-262 has it, and
  the nearest of these. NaN and the infinities are written as null.

  - `shortest_reads`: the digits written read as the number.
  - `feeds_number`: the parser takes the text of a number whole.
-/
import Mathlib.Tactic.FieldSimp
import FlowHelm.Lib.JsDouble

namespace Js

inductive JsNumber where
  | nan
  | infinity (neg : Bool)
  /-- The two zeros are one here; JSON writes them alike. -/
  | finite (x : Rat) (double : toDouble x = x ∧ |x| < 2 ^ 1024)
  deriving DecidableEq

namespace Json

/-! ## Digits -/

/-- The digits before the point, or one less than the zeros after it, negated. -/
def magnitude (p q : Nat) : Int :=
  if q ≤ p then (Nat.log 10 (p / q) : Int) + 1 else 1 - (Nat.clog 10 ((q + p - 1) / p) : Int)

/-- `k` digits, and the power of ten of the last, that read as `x`: the nearer of two. -/
def digitsAt (x : Rat) (k : Nat) : Option (Nat × Int) :=
  let exp := magnitude x.num.natAbs x.den - k
  let y := x / 10 ^ exp
  let low := y.floor.toNat
  let below := 2 * (y - low) < 1 ∨ (2 * (y - low) = 1 ∧ low % 2 = 0)
  (if below then [low, low + 1] else [low + 1, low]).findSome? fun s =>
    if 10 ^ (k - 1) ≤ s ∧ s < 10 ^ k ∧ toDouble (decimal false s exp) = x then some (s, exp) else none

/-- All digits of a double. -/
def allDigits (x : Rat) : Nat × Int := match lastBit x.num.natAbs x.den with
  | .ofNat e => (scaled x.num.natAbs x.den (.ofNat e) * 2 ^ e, 0)
  | .negSucc e => (scaled x.num.natAbs x.den (.negSucc e) * 5 ^ (e + 1), .negSucc e)

/-- The fewest digits that read as `x`; 17 are enough. -/
def shortest (x : Rat) : Nat × Int := ((List.range 17).findSome? fun k => digitsAt x (k + 1)).getD (allDigits x)

example : [shortest 1, shortest 100, shortest (1 / 2), shortest (2 ^ 60), shortest (toDouble (1 / 10))] =
    [(1, 0), (1, 2), (5, -1), (1152921504606847, 3), (1, -1)] := by decide +kernel

def ofNumber : JsNumber → Json
  | .nan | .infinity _ => .null
  | .finite x _ => if x = 0 then .num false 0 0 else .num (decide (x < 0)) (shortest |x|).1 (shortest |x|).2

theorem decimal_neg (neg : Bool) (s : Nat) (e : Int) :
    decimal neg s e = if neg then -decimal false s e else decimal false s e := by
  cases neg <;> rfl

theorem allDigits_reads {x : Rat} (hx : 0 < x) (hdouble : toDouble x = x) :
    decimal false (allDigits x).1 (allDigits x).2 = x := by
  conv_rhs => rw [← hdouble, toDouble_of_pos hx, nearest_dyadic]
  unfold allDigits dyadic
  cases lastBit x.num.natAbs x.den with
  | ofNat e =>
    simp only [decimal, Int.ofNat_eq_natCast, two_zpow_natCast]
    push_cast
    simp
  | negSucc e =>
    have hten : ((Nat.pow 10 (e + 1) : Nat) : Rat) = 5 ^ (e + 1) * 2 ^ (e + 1) := by
      rw [← mul_pow]
      norm_num
    simp only [decimal, two_zpow_negSucc, hten]
    push_cast
    field_simp

/-- The digits written read as the number. -/
theorem shortest_reads {x : Rat} (hx : 0 < x) (hdouble : toDouble x = x) :
    toDouble (decimal false (shortest x).1 (shortest x).2) = x := by
  unfold shortest
  cases hfound : (List.range 17).findSome? fun k => digitsAt x (k + 1) with
  | none => rw [Option.getD_none, allDigits_reads hx hdouble, hdouble]
  | some d =>
    obtain ⟨k, -, hk⟩ := List.exists_of_findSome?_eq_some hfound
    obtain ⟨s, -, hs⟩ := List.exists_of_findSome?_eq_some hk
    split at hs
    · rename_i hreads
      obtain rfl := Option.some.inj hs
      exact hreads.2.2
    · cases hs

/-! ## Text -/

/-- Number::toString, of a number with these digits. -/
def numberText (neg : Bool) (digits : Nat) (exp : Int) : List Char :=
  let ds := Nat.toDigits 10 digits
  let n : Int := ds.length + exp
  if digits = 0 then ['0']
  else (if neg then ['-'] else []) ++
    if 0 ≤ exp ∧ n ≤ 21 then ds ++ List.replicate exp.toNat '0'
    else if 0 < n ∧ n ≤ 21 then ds.take n.toNat ++ '.' :: ds.drop n.toNat
    else if -6 < n ∧ n ≤ 0 then '0' :: '.' :: (List.replicate (-n).toNat '0' ++ ds)
    else ds.take 1 ++ (if ds.length = 1 then [] else '.' :: ds.drop 1) ++
      'e' :: (if n < 1 then '-' else '+') :: Nat.toDigits 10 (n - 1).natAbs

/-- The number as JSON.parse reads that text. -/
def rereadNumber (neg : Bool) (digits : Nat) (exp : Int) : Json :=
  if digits = 0 then .num false 0 0
  else if 0 ≤ exp ∧ ((Nat.toDigits 10 digits).length : Int) + exp ≤ 21 then .num neg (digits * 10 ^ exp.toNat) 0
  else .num neg digits exp

example : [numberText false 12 0, numberText true 5 (-1), numberText false 12 3, numberText false 1 21,
    numberText false 15 (-8)] =
    ["12".toList, "-0.5".toList, "12000".toList, "1e+21".toList, "1.5e-7".toList] := by decide

/-- The text is written of digits that have the value, and read as such. -/
theorem rereadNumber_decimal (neg : Bool) (digits : Nat) (exp : Int) : ∃ neg' digits' exp',
    rereadNumber neg digits exp = .num neg' digits' exp' ∧ decimal neg' digits' exp' = decimal neg digits exp := by
  unfold rereadNumber
  by_cases hzero : digits = 0
  · subst hzero
    refine ⟨false, 0, 0, if_pos rfl, ?_⟩
    rw [decimal_neg neg]
    cases exp <;> cases neg <;> simp [decimal]
  rw [if_neg hzero]
  by_cases hplain : 0 ≤ exp ∧ ((Nat.toDigits 10 digits).length : Int) + exp ≤ 21
  · refine ⟨neg, _, 0, if_pos hplain, ?_⟩
    obtain ⟨e, rfl⟩ := Int.eq_ofNat_of_zero_le hplain.1
    rw [decimal_neg neg, decimal_neg neg digits]
    simp [decimal]
  · exact ⟨neg, digits, exp, if_neg hplain, rfl⟩

/-! ## What the parser makes of it -/

/-- The characters take the parser from `p` to `q`. -/
def Feeds (p : Parser) (text : List Char) (q : Parser) : Prop := text.foldlM feed p = some q

theorem Feeds.nil (p : Parser) : Feeds p [] p := rfl

theorem Feeds.append {p q r : Parser} {text more : List Char} (h : Feeds p text q) (hmore : Feeds q more r) :
    Feeds p (text ++ more) r := by
  unfold Feeds at *
  rw [List.foldlM_append, h]
  exact hmore

theorem Feeds.cons {p q r : Parser} {c : Char} {more : List Char} (h : feed p c = some q) (hmore : Feeds q more r) :
    Feeds p (c :: more) r := by
  unfold Feeds at *
  rw [List.foldlM_cons, h]
  exact hmore

theorem digit_val {c : Char} (h : c.isDigit = true) : digit? c = some (c.toNat - '0'.toNat) := if_pos h

variable {stack : List Frame} {neg expNeg : Bool} {digits scale exp : Nat} {ds : List Char}

/-- Digits of the whole part. -/
theorem feeds_int (hds : ∀ c ∈ ds, c.isDigit = true) : Feeds ⟨stack, .num ⟨.int, neg, digits, scale, expNeg, exp⟩⟩ ds
    ⟨stack, .num ⟨.int, neg, Nat.ofDigitChars 10 ds digits, scale, expNeg, exp⟩⟩ := by
  induction ds generalizing digits with
  | nil => exact .nil _
  | cons c ds ih =>
    have hc := digit_val (hds c (.head _))
    rw [Nat.ofDigitChars_cons]
    refine .cons ?_ (ih fun d hd => hds d (.tail _ hd))
    simp only [feed, Num.push, hc, Nat.mul_comm 10]

/-- Digits after the point. -/
theorem feeds_frac (hds : ∀ c ∈ ds, c.isDigit = true) : Feeds ⟨stack, .num ⟨.frac, neg, digits, scale, expNeg, exp⟩⟩ ds
    ⟨stack, .num ⟨.frac, neg, Nat.ofDigitChars 10 ds digits, scale + ds.length, expNeg, exp⟩⟩ := by
  induction ds generalizing digits scale with
  | nil => exact .nil _
  | cons c ds ih =>
    have hc := digit_val (hds c (.head _))
    rw [Nat.ofDigitChars_cons, List.length_cons, Nat.add_comm ds.length, ← Nat.add_assoc]
    refine .cons ?_ (ih fun d hd => hds d (.tail _ hd))
    simp only [feed, Num.push, hc, Nat.mul_comm 10]

/-- Digits of the exponent. -/
theorem feeds_exp (hds : ∀ c ∈ ds, c.isDigit = true) : Feeds ⟨stack, .num ⟨.exp, neg, digits, scale, expNeg, exp⟩⟩ ds
    ⟨stack, .num ⟨.exp, neg, digits, scale, expNeg, Nat.ofDigitChars 10 ds exp⟩⟩ := by
  induction ds generalizing exp with
  | nil => exact .nil _
  | cons c ds ih =>
    have hc := digit_val (hds c (.head _))
    rw [Nat.ofDigitChars_cons]
    refine .cons ?_ (ih fun d hd => hds d (.tail _ hd))
    simp only [feed, Num.push, hc, Nat.mul_comm 10]

/-- A point, and digits. -/
theorem feeds_point {part : NumPart} (hpart : part = .int ∨ part = .zero) (hne : ds ≠ []) (hds : ∀ c ∈ ds, c.isDigit = true) :
    Feeds ⟨stack, .num ⟨part, neg, digits, 0, expNeg, exp⟩⟩ ('.' :: ds)
      ⟨stack, .num ⟨.frac, neg, Nat.ofDigitChars 10 ds digits, ds.length, expNeg, exp⟩⟩ := by
  obtain ⟨c, ds, rfl⟩ := List.exists_cons_of_ne_nil hne
  have hc := digit_val (hds c (.head _))
  rw [Nat.ofDigitChars_cons, List.length_cons, Nat.add_comm ds.length 1]
  refine .cons (q := ⟨stack, .num ⟨.point, neg, digits, 0, expNeg, exp⟩⟩) ?_
    (.cons ?_ (feeds_frac fun d hd => hds d (.tail _ hd)))
  · rcases hpart with rfl | rfl <;> rfl
  · simp only [feed, Num.push, hc, Nat.mul_comm 10]

/-- An exponent. -/
theorem feeds_e {part : NumPart} (hpart : part = .int ∨ part = .frac) (below : Bool) (hne : ds ≠ [])
    (hds : ∀ c ∈ ds, c.isDigit = true) :
    Feeds ⟨stack, .num ⟨part, neg, digits, scale, false, 0⟩⟩ ('e' :: (if below then '-' else '+') :: ds)
      ⟨stack, .num ⟨.exp, neg, digits, scale, below, Nat.ofDigitChars 10 ds 0⟩⟩ := by
  obtain ⟨c, ds, rfl⟩ := List.exists_cons_of_ne_nil hne
  have hc := digit_val (hds c (.head _))
  rw [Nat.ofDigitChars_cons]
  refine .cons (q := ⟨stack, .num ⟨.e, neg, digits, scale, false, 0⟩⟩) ?_
    (.cons (q := ⟨stack, .num ⟨.sign, neg, digits, scale, below, 0⟩⟩) ?_
      (.cons ?_ (feeds_exp fun d hd => hds d (.tail _ hd))))
  · rcases hpart with rfl | rfl <;> rfl
  · cases below <;> rfl
  · simp only [feed, Num.push, hc, Nat.mul_comm 10]

def nonzeroDigits : List Char := ['1', '2', '3', '4', '5', '6', '7', '8', '9']

theorem isDigit_nonzero : ∀ c ∈ nonzeroDigits, c.isDigit = true := List.all_eq_true.mp (by decide)

theorem startValue_digit : ∀ c ∈ nonzeroDigits, startValue stack c = some ⟨stack, number false .int (c.toNat - '0'.toNat)⟩ := by
  intro c hc
  simp only [nonzeroDigits, List.mem_cons, List.not_mem_nil, or_false] at hc
  rcases hc with rfl | rfl | rfl | rfl | rfl | rfl | rfl | rfl | rfl <;> rfl

theorem feed_minus : ∀ c ∈ nonzeroDigits, feed ⟨stack, .num ⟨.minus, neg, 0, 0, false, 0⟩⟩ c =
    some ⟨stack, .num ⟨.int, neg, c.toNat - '0'.toNat, 0, false, 0⟩⟩ := by
  intro c hc
  simp only [nonzeroDigits, List.mem_cons, List.not_mem_nil, or_false] at hc
  rcases hc with rfl | rfl | rfl | rfl | rfl | rfl | rfl | rfl | rfl <;> rfl

/-- The first digits of a number, with its sign. -/
theorem feeds_first {c : Char} (hc : c ∈ nonzeroDigits) (neg : Bool) (hds : ∀ d ∈ ds, d.isDigit = true) :
    Feeds ⟨stack, .value⟩ ((if neg then ['-'] else []) ++ c :: ds)
      ⟨stack, .num ⟨.int, neg, Nat.ofDigitChars 10 (c :: ds) 0, 0, false, 0⟩⟩ := by
  rw [Nat.ofDigitChars_cons, Nat.mul_zero, Nat.zero_add]
  cases neg with
  | false => exact .cons (startValue_digit c hc) (feeds_int hds)
  | true => exact .cons (q := ⟨stack, .num ⟨.minus, true, 0, 0, false, 0⟩⟩) rfl (.cons (feed_minus c hc) (feeds_int hds))

theorem feeds_zero (neg : Bool) : Feeds ⟨stack, .value⟩ ((if neg then ['-'] else []) ++ ['0'])
    ⟨stack, .num ⟨.zero, neg, 0, 0, false, 0⟩⟩ := by
  cases neg <;> rfl

/-- A positive number is written without a zero in front. -/
theorem toDigits_first {n : Nat} (hn : 0 < n) : ∃ c ds, Nat.toDigits 10 n = c :: ds ∧ c ∈ nonzeroDigits := by
  induction n using Nat.strongRecOn with
  | ind n ih =>
    rw [Nat.toDigits_eq_if (by omega)]
    by_cases hlt : n < 10
    · rw [if_pos hlt]
      refine ⟨_, [], rfl, ?_⟩
      have hall : ∀ n < 10, 0 < n → n.digitChar ∈ nonzeroDigits := by decide
      exact hall n hlt hn
    · obtain ⟨c, ds, hds, hc⟩ := ih (n / 10) (by omega) (by omega)
      rw [if_neg hlt, hds]
      exact ⟨c, _, rfl, hc⟩

theorem mem_toDigits {n : Nat} : ∀ c ∈ Nat.toDigits 10 n, c.isDigit = true := fun _ hc =>
  Nat.isDigit_of_mem_toDigits (by decide) (by decide) hc

section Layouts

variable {c : Char} (hc : c ∈ nonzeroDigits) (hds : ∀ d ∈ ds, d.isDigit = true)
  (hvalue : Nat.ofDigitChars 10 (c :: ds) 0 = digits)

include hc hds hvalue

theorem feeds_plain (neg : Bool) (e : Nat) : Feeds ⟨stack, .value⟩
    ((if neg then ['-'] else []) ++ (c :: ds ++ List.replicate e '0'))
    ⟨stack, .num ⟨.int, neg, digits * 10 ^ e, 0, false, 0⟩⟩ := by
  have hall : ∀ d ∈ ds ++ List.replicate e '0', d.isDigit = true := by
    intro d hd
    rcases List.mem_append.mp hd with hd | hd
    · exact hds d hd
    · rw [(List.mem_replicate.mp hd).2]
      rfl
  have hzeros : Nat.ofDigitChars 10 (c :: (ds ++ List.replicate e '0')) 0 = digits * 10 ^ e := by
    rw [← List.cons_append, Nat.ofDigitChars_append, hvalue, Nat.ofDigitChars_replicate_zero, Nat.mul_comm]
  rw [← hzeros]
  exact feeds_first hc neg hall

theorem feeds_mid (neg : Bool) {m : Nat} (hpos : 0 < m) (hlt : m < (c :: ds).length) :
    Feeds ⟨stack, .value⟩ ((if neg then ['-'] else []) ++ ((c :: ds).take m ++ '.' :: (c :: ds).drop m))
      ⟨stack, .num ⟨.frac, neg, digits, (c :: ds).length - m, false, 0⟩⟩ := by
  obtain ⟨m, rfl⟩ := Nat.exists_eq_succ_of_ne_zero hpos.ne'
  have hdrop : ds.drop m ≠ [] := by
    rw [List.length_cons] at hlt
    exact List.drop_eq_nil_iff.not.mpr (by omega)
  have hboth : Nat.ofDigitChars 10 (ds.drop m) (Nat.ofDigitChars 10 (c :: ds.take m) 0) = digits := by
    rw [← Nat.ofDigitChars_append, List.cons_append, List.take_append_drop, hvalue]
  have hlength : (c :: ds).length - (m + 1) = (ds.drop m).length := by
    rw [List.length_drop, List.length_cons]
    omega
  rw [← List.append_assoc, List.take_succ_cons, List.drop_succ_cons, hlength, ← hboth]
  exact (feeds_first hc neg fun d hd => hds d (List.mem_of_mem_take hd)).append
    (feeds_point (.inl rfl) hdrop fun d hd => hds d (List.mem_of_mem_drop hd))

theorem feeds_small (neg : Bool) (z : Nat) :
    Feeds ⟨stack, .value⟩ ((if neg then ['-'] else []) ++ '0' :: '.' :: (List.replicate z '0' ++ c :: ds))
      ⟨stack, .num ⟨.frac, neg, digits, z + (c :: ds).length, false, 0⟩⟩ := by
  have hall : ∀ d ∈ List.replicate z '0' ++ c :: ds, d.isDigit = true := by
    intro d hd
    rcases List.mem_append.mp hd with hd | hd
    · rw [(List.mem_replicate.mp hd).2]
      rfl
    · rcases List.mem_cons.mp hd with rfl | hd
      · exact isDigit_nonzero d hc
      · exact hds d hd
  have hzeros : Nat.ofDigitChars 10 (List.replicate z '0' ++ c :: ds) 0 = digits := by
    rw [Nat.ofDigitChars_append, Nat.ofDigitChars_replicate_zero, Nat.mul_zero, hvalue]
  have hlength : z + (c :: ds).length = (List.replicate z '0' ++ c :: ds).length := by simp
  rw [show (if neg then ['-'] else []) ++ '0' :: '.' :: (List.replicate z '0' ++ c :: ds) =
    ((if neg then ['-'] else []) ++ ['0']) ++ '.' :: (List.replicate z '0' ++ c :: ds) by simp, hlength, ← hzeros]
  exact (feeds_zero neg).append (feeds_point (.inr rfl) (by simp) hall)

theorem feeds_exponent (neg below : Bool) (e : Nat) :
    Feeds ⟨stack, .value⟩ ((if neg then ['-'] else []) ++ ((c :: ds).take 1 ++
        (if (c :: ds).length = 1 then [] else '.' :: (c :: ds).drop 1) ++ 'e' :: (if below then '-' else '+') ::
          Nat.toDigits 10 e))
      ⟨stack, .num ⟨.exp, neg, digits, ds.length, below, e⟩⟩ := by
  have hexp : Nat.ofDigitChars 10 (Nat.toDigits 10 e) 0 = e := Nat.ofDigitChars_ten_toDigits
  have hfirst : Feeds ⟨stack, .value⟩ ((if neg then ['-'] else []) ++ [c])
      ⟨stack, .num ⟨.int, neg, Nat.ofDigitChars 10 [c] 0, 0, false, 0⟩⟩ := feeds_first hc neg nofun
  rw [← List.append_assoc, ← List.append_assoc]
  conv => arg 3; rw [← hexp]
  by_cases hone : ds = []
  · subst hone
    rw [← hvalue]
    simpa using hfirst.append (feeds_e (.inl rfl) below Nat.toDigits_ne_nil mem_toDigits)
  · have hlength : (c :: ds).length ≠ 1 := by
      rw [List.length_cons]
      have := List.length_pos_of_ne_nil hone
      omega
    have hboth : Nat.ofDigitChars 10 ds (Nat.ofDigitChars 10 [c] 0) = digits := by
      rw [← Nat.ofDigitChars_append, List.singleton_append, hvalue]
    rw [if_neg hlength, ← hboth]
    exact (hfirst.append (feeds_point (.inl rfl) hone hds)).append (feeds_e (.inr rfl) below Nat.toDigits_ne_nil mem_toDigits)

end Layouts

/-- The parser takes the text of a number whole. -/
theorem feeds_number (stack : List Frame) (neg : Bool) (digits : Nat) (exp : Int) : ∃ n,
    Feeds ⟨stack, .value⟩ (numberText neg digits exp) ⟨stack, .num n⟩ ∧ n.value = some (rereadNumber neg digits exp) := by
  unfold numberText rereadNumber
  by_cases hzero : digits = 0
  · exact ⟨⟨.zero, false, 0, 0, false, 0⟩, by rw [if_pos hzero]; rfl, by rw [if_pos hzero]; rfl⟩
  simp only [if_neg hzero]
  obtain ⟨c, ds, hds, hc⟩ := toDigits_first (Nat.pos_of_ne_zero hzero)
  have hdigits := mem_toDigits (n := digits)
  have hvalue : Nat.ofDigitChars 10 (Nat.toDigits 10 digits) 0 = digits := Nat.ofDigitChars_ten_toDigits
  rw [hds] at hdigits hvalue ⊢
  have hrest : ∀ d ∈ ds, d.isDigit = true := fun d hd => hdigits d (.tail _ hd)
  by_cases hplain : 0 ≤ exp ∧ ((c :: ds).length : Int) + exp ≤ 21
  · simp only [if_pos hplain]
    exact ⟨_, feeds_plain hc hrest hvalue neg exp.toNat, rfl⟩
  simp only [if_neg hplain]
  by_cases hpoint : 0 < ((c :: ds).length : Int) + exp ∧ ((c :: ds).length : Int) + exp ≤ 21
  · simp only [if_pos hpoint]
    refine ⟨_, feeds_mid hc hrest hvalue neg (by omega) (by omega), ?_⟩
    simp only [Num.value, Bool.false_eq_true, if_false, Option.some.injEq, Json.num.injEq, true_and]
    omega
  simp only [if_neg hpoint]
  by_cases hsmall : -6 < ((c :: ds).length : Int) + exp ∧ ((c :: ds).length : Int) + exp ≤ 0
  · simp only [if_pos hsmall]
    refine ⟨_, feeds_small hc hrest hvalue neg _, ?_⟩
    simp only [Num.value, Bool.false_eq_true, if_false, Option.some.injEq, Json.num.injEq, true_and]
    omega
  · simp only [if_neg hsmall]
    have hfeeds : Feeds ⟨stack, .value⟩ _ _ := feeds_exponent hc hrest hvalue neg (decide (((c :: ds).length : Int) + exp < 1))
      (((c :: ds).length : Int) + exp - 1).natAbs
    simp only [decide_eq_true_eq] at hfeeds
    refine ⟨_, hfeeds, ?_⟩
    simp only [Num.value, Option.some.injEq, Json.num.injEq, true_and, decide_eq_true_eq, List.length_cons]
    split <;> omega

end Json

end Js
