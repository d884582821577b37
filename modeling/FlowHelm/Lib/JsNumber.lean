/-
  FlowHelm.Lib.JsNumber — a rational number as the double nearest to it.

  A double has 53 bits, the last of them worth 2^-1074 at least; of two that are equally
  near the even one is taken. Numbers from 2^1024 on have none.

  - `toDouble_nat`: a whole number of 53 bits is kept.
-/
import Mathlib.Algebra.Order.Field.Rat
import Mathlib.Data.Nat.Log
import FlowHelm.Lib.Js

namespace Js

/-- p / q to the nearest, of two the even one. -/
def roundDiv (p q : Nat) : Nat :=
  if 2 * (p % q) < q ∨ (2 * (p % q) = q ∧ p / q % 2 = 0) then p / q else p / q + 1

/-- The exponent of the last bit of the double nearest to p / q. -/
def lastBit (p q : Nat) : Int :=
  let first : Int := if q ≤ p then (Nat.log2 (p / q) : Int) else -(Nat.clog 2 ((q + p - 1) / p) : Int)
  max (-1074) (first - 52)

/-- The size of the double nearest to p / q. -/
def nearest (p q : Nat) : Rat := match lastBit p q with
  | .ofNat e => (roundDiv p (q * 2 ^ e) * 2 ^ e : Nat)
  | .negSucc e => (roundDiv (p * 2 ^ (e + 1)) q : Nat) / (2 ^ (e + 1) : Nat)

def toDouble (x : Rat) : Rat :=
  if x = 0 then 0
  else if x < 0 then -nearest x.num.natAbs x.den
  else nearest x.num.natAbs x.den

/-- `Number.isInteger` of a decimal: the integer it is read as. -/
def integer? (x : Rat) : Option Int :=
  let d := toDouble x
  if d.den = 1 ∧ d.num.natAbs < 2 ^ 1024 then some d.num else none

theorem roundDiv_one (p : Nat) : roundDiv p 1 = p := by
  unfold roundDiv
  rw [Nat.mod_one, Nat.div_one]
  exact if_pos (.inl Nat.one_pos)

/-- A whole number of at most 53 bits has a last bit that is not above the units. -/
theorem lastBit_nat {n : Nat} (hn : 0 < n) (h : n < 2 ^ 53) : lastBit n 1 ≤ 0 := by
  unfold lastBit
  dsimp only
  rw [if_pos (Nat.succ_le_of_lt hn), Nat.div_one]
  have hlog : Nat.log2 n < 53 := (Nat.log2_lt (by omega)).mpr h
  omega

theorem nearest_nat {n : Nat} (hn : 0 < n) (h : n < 2 ^ 53) : nearest n 1 = n := by
  have hbit := lastBit_nat hn h
  unfold nearest
  cases he : lastBit n 1 with
  | ofNat e =>
    rw [he] at hbit
    obtain rfl : e = 0 := by
      have hle : (e : Int) ≤ 0 := hbit
      omega
    dsimp only
    rw [pow_zero, Nat.mul_one, Nat.mul_one, roundDiv_one]
  | negSucc e =>
    dsimp only
    rw [roundDiv_one, Nat.cast_mul]
    have hpow : ((2 ^ (e + 1) : Nat) : Rat) ≠ 0 := Nat.cast_ne_zero.mpr (Nat.two_pow_pos _).ne'
    rw [mul_div_assoc, div_self hpow, mul_one]

theorem toDouble_nat {n : Nat} (h : n < 2 ^ 53) : toDouble n = n := by
  unfold toDouble
  by_cases hn : n = 0
  · rw [hn]
    rfl
  · have hpos : 0 < n := Nat.pos_of_ne_zero hn
    rw [if_neg (Nat.cast_ne_zero.mpr hn), if_neg (not_lt.mpr (Nat.cast_nonneg n))]
    exact nearest_nat hpos h

end Js
