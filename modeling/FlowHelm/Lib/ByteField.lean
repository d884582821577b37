/-
  FlowHelm.Lib.ByteField — GF(2^8) as the polynomials over GF(2) modulo x^8 + x^4 + x^3 + x^2 + 1
  (0x11D), and a byte as one of its elements: the bits are the coefficients.

  Doubling a number below 256, and taking 0x11D away where it overflows, is multiplication by x.
  From 1 this comes through all the numbers from 1 to 255 and back to 1, so every element other
  than zero is a power of x, and the quotient is a field.

  - `ofByte_xor` / `ofBits_double`: addition is xor, and multiplication by x is the doubling.
  - `ofByte_injective` / `exists_power`: every element is one byte.
  - `isField`: the field.
  - `root_pow_injOn`: the powers of x below 255 are different.
-/
import Mathlib.Algebra.Field.IsField
import Mathlib.Algebra.Field.ZMod
import Mathlib.Dynamics.PeriodicPts.Defs
import Mathlib.NumberTheory.Divisors
import Mathlib.Order.Interval.Finset.Nat
import Mathlib.RingTheory.AdjoinRoot
import Mathlib.Tactic.ComputeDegree

namespace ByteField

open Polynomial

noncomputable def modulus : (ZMod 2)[X] := X ^ 8 + X ^ 4 + X ^ 3 + X ^ 2 + 1

abbrev GF256 := AdjoinRoot modulus

/-- The element x. -/
noncomputable def root : GF256 := AdjoinRoot.root modulus

theorem add_self (a : GF256) : a + a = 0 := by
  rw [← two_smul (ZMod 2) a, show (2 : ZMod 2) = 0 from rfl, zero_smul]

theorem root_pow_eight : root ^ 8 + root ^ 4 + root ^ 3 + root ^ 2 + 1 = 0 := by
  have hroot : AdjoinRoot.mk modulus (X ^ 8 + X ^ 4 + X ^ 3 + X ^ 2 + 1) = 0 := AdjoinRoot.mk_self
  simp only [map_add, map_pow, AdjoinRoot.mk_X, map_one] at hroot
  exact hroot

theorem nontrivial_field : Nontrivial GF256 := by
  refine AdjoinRoot.nontrivial modulus ?_
  have hdegree : modulus.degree = 8 := by
    unfold modulus
    compute_degree!
  rw [hdegree]
  decide

/-! ## Numbers as elements -/

/-- The lowest `k` bits of `n`. -/
noncomputable def ofBits (k n : Nat) : GF256 := ∑ i ∈ Finset.range k, if n.testBit i then root ^ i else 0

noncomputable def ofByte (b : UInt8) : GF256 := ofBits 8 b.toNat

theorem ofBits_xor (k m n : Nat) : ofBits k (m ^^^ n) = ofBits k m + ofBits k n := by
  unfold ofBits
  rw [← Finset.sum_add_distrib]
  refine Finset.sum_congr rfl fun i _ => ?_
  rw [Nat.testBit_xor]
  cases m.testBit i <;> cases n.testBit i <;> simp [add_self]

theorem ofBits_twice (k n : Nat) : ofBits (k + 1) (2 * n) = root * ofBits k n := by
  unfold ofBits
  rw [Finset.sum_range_succ', Finset.mul_sum]
  have hzero : (2 * n).testBit 0 = false := by simp
  rw [hzero, if_neg Bool.false_ne_true, add_zero]
  refine Finset.sum_congr rfl fun i _ => ?_
  have hsucc : (2 * n).testBit (i + 1) = n.testBit i := by rw [Nat.testBit_succ, Nat.mul_div_cancel_left n (by decide)]
  rw [hsucc]
  split
  · rw [pow_succ']
  · rw [mul_zero]

theorem ofBits_small {k n : Nat} (h : n < 2 ^ k) : ofBits (k + 1) n = ofBits k n := by
  unfold ofBits
  rw [Finset.sum_range_succ, Nat.testBit_lt_two_pow h]
  simp

theorem ofBits_modulus : ofBits 9 0x11d = 0 := by
  have hsum : ofBits 9 0x11d = ∑ i ∈ {0, 2, 3, 4, 8}, root ^ i := by
    unfold ofBits
    rw [← Finset.sum_filter]
    refine Finset.sum_congr ?_ fun _ _ => rfl
    decide
  rw [hsum, ← root_pow_eight]
  repeat rw [Finset.sum_insert (by decide)]
  rw [Finset.sum_singleton]
  ring

/-- Twice a number, less the modulus where it overflows. -/
def double (n : Nat) : Nat := if 256 ≤ 2 * n then 2 * n ^^^ 0x11d else 2 * n

theorem double_lt {n : Nat} (h : n < 256) : double n < 256 := by
  unfold double
  split
  case isFalse hsmall => omega
  case isTrue hlarge =>
    -- the eighth bit is set in both, and the bits above it in neither
    have hdouble : 2 * n = 2 ^ 8 * 1 + (2 * n - 256) := by omega
    have hlow : 2 * n - 256 < 2 ^ 8 := by omega
    rw [hdouble, show 0x11d = 2 ^ 8 * 1 + 0x1d from rfl]
    refine Nat.lt_pow_two_of_testBit (n := 8) _ fun i hi => ?_
    have hhigh : ¬i < 8 := Nat.not_lt.mpr hi
    rw [Nat.testBit_xor, Nat.testBit_two_pow_mul_add 1 hlow, Nat.testBit_two_pow_mul_add 1 (by decide),
      if_neg hhigh, if_neg hhigh,
      Bool.xor_self]

theorem ofBits_double {n : Nat} (h : n < 256) : ofBits 8 (double n) = root * ofBits 8 n := by
  have hlt : double n < 2 ^ 8 := double_lt h
  rw [← ofBits_small hlt, ← ofBits_twice]
  unfold double
  split
  · rw [ofBits_xor, ofBits_modulus, add_zero]
  · rfl

theorem ofByte_xor (a b : UInt8) : ofByte (a ^^^ b) = ofByte a + ofByte b := by
  rw [ofByte, UInt8.toNat_xor, ofBits_xor]
  rfl

theorem ofBits_zero (k : Nat) : ofBits k 0 = 0 := by simp [ofBits]

theorem ofBits_one (k : Nat) : ofBits (k + 1) 1 = 1 := by
  unfold ofBits
  rw [Finset.sum_range_succ', Finset.sum_eq_zero]
  · simp
  · intro i _
    simp [Nat.testBit_succ]

@[simp] theorem ofByte_zero : ofByte 0 = 0 := ofBits_zero 8

@[simp] theorem ofByte_one : ofByte 1 = 1 := ofBits_one 7

/-! ## Powers -/

/-- The number x^i is. -/
def power (i : Nat) : Nat := double^[i] 1

theorem power_succ (i : Nat) : power (i + 1) = double (power i) := Function.iterate_succ_apply' ..

theorem power_lt (i : Nat) : power i < 256 := by
  induction i with
  | zero => decide
  | succ i ih =>
    rw [power_succ]
    exact double_lt ih

theorem ofBits_power (i : Nat) : ofBits 8 (power i) = root ^ i := by
  induction i with
  | zero => exact ofBits_one 7
  | succ i ih =>
    rw [power_succ, ofBits_double (power_lt i), pow_succ', ih]

theorem double_ne_zero {n : Nat} (h : n ≠ 0) : double n ≠ 0 := by
  unfold double
  split
  · intro hzero
    have hodd : (2 * n ^^^ 0x11d).testBit 0 = true := by simp
    rw [hzero] at hodd
    exact absurd hodd (by decide)
  · omega

theorem power_ne_zero (i : Nat) : power i ≠ 0 := by
  induction i with
  | zero => decide
  | succ i ih =>
    rw [power_succ]
    exact double_ne_zero ih

/-- Of the steps that could take 1 back to itself, only the last does. -/
theorem power_divisor : ∀ d ∈ Nat.divisors 255, power d = 1 ↔ d = 255 := by decide +kernel

theorem power_255 : power 255 = 1 := (power_divisor 255 (Nat.mem_divisors_self 255 (by decide))).mpr rfl

theorem root_pow_255 : root ^ 255 = 1 := by
  rw [← ofBits_power, power_255, ofBits_one]

theorem root_pow_mod (i : Nat) : root ^ (i % 255) = root ^ i := by
  conv_rhs => rw [← Nat.div_add_mod i 255, pow_add, pow_mul, root_pow_255, one_pow, one_mul]

theorem minimalPeriod_double : Function.minimalPeriod double 1 = 255 := by
  have hperiodic : Function.IsPeriodicPt double 255 1 := power_255
  have hdivisor := Nat.mem_divisors.mpr ⟨hperiodic.minimalPeriod_dvd, by decide⟩
  exact (power_divisor _ hdivisor).mp (Function.isPeriodicPt_minimalPeriod double 1)

theorem power_injOn : Set.InjOn power (Set.Iio 255) := by
  rw [← minimalPeriod_double]
  exact Function.iterate_injOn_Iio_minimalPeriod

/-- 255 different numbers below 256 that are not zero are all of them. -/
theorem exists_power {b : UInt8} (h : b ≠ 0) : ∃ i < 255, power i = b.toNat := by
  have hsub : (Finset.range 255).image power ⊆ Finset.Ioo 0 256 := by
    intro m hm
    obtain ⟨i, -, rfl⟩ := Finset.mem_image.mp hm
    exact Finset.mem_Ioo.mpr ⟨Nat.pos_of_ne_zero (power_ne_zero i), power_lt i⟩
  have hcard : (Finset.Ioo 0 256).card ≤ ((Finset.range 255).image power).card := by
    rw [Finset.card_image_of_injOn (by simpa using power_injOn), Nat.card_Ioo, Finset.card_range]
  have hmem : b.toNat ∈ Finset.Ioo 0 256 :=
    Finset.mem_Ioo.mpr ⟨Nat.pos_of_ne_zero fun h0 => h (UInt8.toNat_inj.mp h0), b.toNat_lt⟩
  rw [← Finset.eq_of_subset_of_card_le hsub hcard, Finset.mem_image] at hmem
  obtain ⟨i, hi, heq⟩ := hmem
  exact ⟨i, Finset.mem_range.mp hi, heq⟩

theorem ofByte_ne_zero {b : UInt8} (h : b ≠ 0) : ofByte b ≠ 0 := by
  obtain ⟨i, hi, hpower⟩ := exists_power h
  have := nontrivial_field
  intro hzero
  rw [ofByte, ← hpower, ofBits_power] at hzero
  have hone : root ^ (255 - i) * root ^ i = 1 := by rw [← pow_add, Nat.sub_add_cancel hi.le, root_pow_255]
  rw [hzero, mul_zero] at hone
  exact zero_ne_one hone

theorem ofByte_injective : Function.Injective ofByte := by
  intro a b hab
  by_contra hne
  refine ofByte_ne_zero (b := a ^^^ b) (fun hzero => hne ?_) ?_
  · exact UInt8.xor_eq_zero_iff.mp hzero
  · rw [ofByte_xor, hab, add_self]

/-! ## The field -/

theorem ofByte_surjective : Function.Surjective ofByte := by
  suffices hall : ∀ a : GF256, ∃ n < 256, ofBits 8 n = a by
    intro a
    obtain ⟨n, hn, rfl⟩ := hall a
    exact ⟨UInt8.ofNat n, by rw [ofByte, UInt8.toNat_ofNat_of_lt' hn]⟩
  intro a
  refine AdjoinRoot.induction_on modulus a fun p => ?_
  induction p using Polynomial.induction_on with
  | C c =>
    obtain rfl | rfl : c = 0 ∨ c = 1 := by
      revert c
      decide
    · exact ⟨0, by decide, by rw [ofBits_zero, map_zero, map_zero]⟩
    · exact ⟨1, by decide, by rw [ofBits_one, map_one, map_one]⟩
  | add p q hp hq =>
    obtain ⟨m, hm, hmp⟩ := hp
    obtain ⟨n, hn, hnq⟩ := hq
    exact ⟨m ^^^ n, Nat.xor_lt_two_pow (n := 8) hm hn, by rw [ofBits_xor, hmp, hnq, map_add]⟩
  | monomial k c h =>
    obtain ⟨n, hn, hnp⟩ := h
    refine ⟨double n, double_lt hn, ?_⟩
    rw [ofBits_double hn, hnp, pow_succ, ← mul_assoc, map_mul _ (C c * X ^ k) X, AdjoinRoot.mk_X, mul_comm]
    rfl

theorem isField : IsField GF256 where
  exists_pair_ne := nontrivial_field.exists_pair_ne
  mul_comm := mul_comm
  mul_inv_cancel {a} ha := by
    obtain ⟨b, rfl⟩ := ofByte_surjective a
    obtain ⟨i, hi, hpower⟩ := exists_power (b := b) fun hb => ha (hb ▸ ofByte_zero)
    refine ⟨root ^ (255 - i), ?_⟩
    rw [ofByte, ← hpower, ofBits_power, ← pow_add, Nat.add_sub_cancel' hi.le, root_pow_255]

instance : IsDomain GF256 := isField.isDomain

theorem root_pow_injOn : Set.InjOn (root ^ ·) (Set.Iio 255) := by
  intro i hi j hj hij
  have hbyte : ofByte (UInt8.ofNat (power i)) = ofByte (UInt8.ofNat (power j)) := by
    unfold ofByte
    rw [UInt8.toNat_ofNat_of_lt' (power_lt i), UInt8.toNat_ofNat_of_lt' (power_lt j), ofBits_power, ofBits_power]
    exact hij
  have hnat := congrArg UInt8.toNat (ofByte_injective hbyte)
  rw [UInt8.toNat_ofNat_of_lt' (power_lt i), UInt8.toNat_ofNat_of_lt' (power_lt j)] at hnat
  exact power_injOn hi hj hnat

end ByteField
