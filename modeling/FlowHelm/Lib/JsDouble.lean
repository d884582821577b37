/-
  FlowHelm.Lib.JsDouble — doubles: the numbers `toDouble` leaves alone.

  A double is a whole number of at most 2^53 times a power of two from 2^-1074 on.

  - `toDouble_dyadic`: such a number is left alone.
  - `toDouble_idem`: what `toDouble` gives is a double.
-/
import Mathlib.Algebra.Order.Field.Power
import Mathlib.Tactic.Linarith
import Mathlib.Tactic.Ring
import FlowHelm.Lib.JsNumber

namespace Js

/-- `m * 2 ^ e`. -/
def dyadic (m : Nat) (e : Int) : Rat := m * 2 ^ e

theorem dyadic_pos {m : Nat} (hm : 0 < m) (e : Int) : 0 < dyadic m e :=
  mul_pos (Nat.cast_pos.mpr hm) (zpow_pos (by norm_num) e)

theorem two_zpow_natCast (k : Nat) : (2 : Rat) ^ (k : Int) = ((2 ^ k : Nat) : Rat) := by
  rw [zpow_natCast, Nat.cast_pow, Nat.cast_ofNat]

theorem two_zpow_negSucc (k : Nat) : (2 : Rat) ^ (Int.negSucc k) = 1 / ((2 ^ (k + 1) : Nat) : Rat) := by
  rw [zpow_negSucc, Nat.cast_pow, Nat.cast_ofNat, one_div]

/-! ## Rounding -/

theorem roundDiv_exact {a b m : Nat} (hb : 0 < b) (h : a = m * b) : roundDiv a b = m := by
  subst h
  unfold roundDiv
  rw [Nat.mul_mod_left, Nat.mul_div_cancel m hb]
  exact if_pos (.inl (by omega))

theorem roundDiv_le {a b m : Nat} (hb : 0 < b) (h : a < m * b) : roundDiv a b ≤ m := by
  have hdiv : a / b < m := (Nat.div_lt_iff_lt_mul hb).mpr h
  unfold roundDiv
  split <;> omega

/-- What is rounded when the last bit is worth `2 ^ e`. -/
def scaled (p q : Nat) : Int → Nat
  | .ofNat e => roundDiv p (q * 2 ^ e)
  | .negSucc e => roundDiv (p * 2 ^ (e + 1)) q

theorem nearest_dyadic (p q : Nat) : nearest p q = dyadic (scaled p q (lastBit p q)) (lastBit p q) := by
  unfold nearest dyadic
  cases lastBit p q with
  | ofNat e =>
    simp only [scaled, Int.ofNat_eq_natCast, two_zpow_natCast]
    push_cast
    rfl
  | negSucc e =>
    simp only [scaled, two_zpow_negSucc]
    rw [mul_one_div]

/-- A number that is a multiple of `2 ^ e` is rounded to itself. -/
theorem scaled_exact {p q m : Nat} {e : Int} (hq : 0 < q) (h : (p : Rat) / q = dyadic m e) : scaled p q e = m := by
  have hq' : (q : Rat) ≠ 0 := Nat.cast_ne_zero.mpr hq.ne'
  unfold dyadic at h
  cases e with
  | ofNat e =>
    rw [Int.ofNat_eq_natCast, two_zpow_natCast, div_eq_iff hq'] at h
    refine roundDiv_exact (Nat.mul_pos hq (Nat.two_pow_pos e)) ?_
    have h' : ((p : Nat) : Rat) = ((m * (q * 2 ^ e) : Nat) : Rat) := by
      rw [h]
      push_cast
      ring
    exact_mod_cast h'
  | negSucc e =>
    have hpow : ((2 ^ (e + 1) : Nat) : Rat) ≠ 0 := Nat.cast_ne_zero.mpr (Nat.two_pow_pos _).ne'
    rw [two_zpow_negSucc, mul_one_div, div_eq_div_iff hq' hpow] at h
    refine roundDiv_exact hq ?_
    exact_mod_cast h

theorem scaled_le {p q m : Nat} {e : Int} (hq : 0 < q) (h : (p : Rat) / q < dyadic m e) : scaled p q e ≤ m := by
  have hq' : (0 : Rat) < q := Nat.cast_pos.mpr hq
  unfold dyadic at h
  cases e with
  | ofNat e =>
    rw [Int.ofNat_eq_natCast, two_zpow_natCast, div_lt_iff₀ hq'] at h
    refine roundDiv_le (Nat.mul_pos hq (Nat.two_pow_pos e)) ?_
    have h' : ((p : Nat) : Rat) < ((m * (q * 2 ^ e) : Nat) : Rat) := by
      push_cast at h ⊢
      linarith
    exact_mod_cast h'
  | negSucc e =>
    have hpow : (0 : Rat) < ((2 ^ (e + 1) : Nat) : Rat) := Nat.cast_pos.mpr (Nat.two_pow_pos _)
    rw [two_zpow_negSucc, mul_one_div, div_lt_div_iff₀ hq' hpow] at h
    exact roundDiv_le hq (by exact_mod_cast h)

/-! ## The last bit -/

/-- The greatest power of two that is not above p / q, by its exponent. -/
def leading (p q : Nat) : Int :=
  if q ≤ p then (Nat.log2 (p / q) : Int) else -(Nat.clog 2 ((q + p - 1) / p) : Int)

theorem lastBit_leading (p q : Nat) : lastBit p q = max (-1074) (leading p q - 52) := rfl

theorem leading_le {p q : Nat} (hp : 0 < p) (hq : 0 < q) : (2 : Rat) ^ leading p q ≤ (p : Rat) / q := by
  have hp' : (0 : Rat) < p := Nat.cast_pos.mpr hp
  have hq' : (0 : Rat) < q := Nat.cast_pos.mpr hq
  unfold leading
  by_cases hle : q ≤ p
  · rw [if_pos hle, two_zpow_natCast, le_div_iff₀ hq']
    have hlog : 2 ^ Nat.log2 (p / q) ≤ p / q := Nat.log2_self_le (Nat.div_pos hle hq).ne'
    have hmul : 2 ^ Nat.log2 (p / q) * q ≤ p := (Nat.le_div_iff_mul_le hq).mp hlog
    exact_mod_cast hmul
  · rw [if_neg hle, zpow_neg, two_zpow_natCast, inv_eq_one_div, div_le_div_iff₀ (Nat.cast_pos.mpr (Nat.two_pow_pos _)) hq']
    have hclog : (q + p - 1) / p ≤ 2 ^ Nat.clog 2 ((q + p - 1) / p) := Nat.le_pow_clog (by norm_num) _
    have hceil : q ≤ (q + p - 1) / p * p := by
      have := Nat.div_add_mod (q + p - 1) p
      have := Nat.mod_lt (q + p - 1) hp
      rw [Nat.mul_comm]
      omega
    have hmul : q ≤ p * 2 ^ Nat.clog 2 ((q + p - 1) / p) := by
      calc q ≤ (q + p - 1) / p * p := hceil
        _ ≤ 2 ^ Nat.clog 2 ((q + p - 1) / p) * p := Nat.mul_le_mul_right p hclog
        _ = p * 2 ^ Nat.clog 2 ((q + p - 1) / p) := Nat.mul_comm _ _
    rw [one_mul]
    exact_mod_cast hmul

theorem lt_leading {p q : Nat} (hp : 0 < p) (hq : 0 < q) : (p : Rat) / q < 2 ^ (leading p q + 1) := by
  have hp' : (0 : Rat) < p := Nat.cast_pos.mpr hp
  have hq' : (0 : Rat) < q := Nat.cast_pos.mpr hq
  unfold leading
  by_cases hle : q ≤ p
  · rw [if_pos hle, ← Nat.cast_succ, two_zpow_natCast, div_lt_iff₀ hq']
    have hlog : p / q < 2 ^ (Nat.log2 (p / q) + 1) := Nat.lt_log2_self
    have hmul : p < 2 ^ (Nat.log2 (p / q) + 1) * q := (Nat.div_lt_iff_lt_mul hq).mp hlog
    exact_mod_cast hmul
  · -- the ceiling of q / p exceeds the power before, and so does q / p
    rw [if_neg hle]
    have htwo : 1 < (q + p - 1) / p := by
      rw [Nat.lt_div_iff_mul_lt hp]
      omega
    obtain ⟨k, hk⟩ : ∃ k, Nat.clog 2 ((q + p - 1) / p) = k + 1 :=
      Nat.exists_eq_succ_of_ne_zero (Nat.clog_pos (by norm_num) htwo).ne'
    have hbelow : 2 ^ k < (q + p - 1) / p := by
      have hpred := Nat.pow_pred_clog_lt_self (by norm_num : 1 < 2) htwo
      rw [hk] at hpred
      exact hpred
    rw [hk, show -((k + 1 : Nat) : Int) + 1 = -(k : Int) by push_cast; ring, zpow_neg, two_zpow_natCast, inv_eq_one_div,
      div_lt_div_iff₀ hq' (Nat.cast_pos.mpr (Nat.two_pow_pos _))]
    have hmul : p * 2 ^ k < q := by
      have hlt : (2 ^ k + 1) * p ≤ q + p - 1 := by
        have hdiv : (q + p - 1) / p * p ≤ q + p - 1 := Nat.div_mul_le_self ..
        exact le_trans (Nat.mul_le_mul_right p hbelow) hdiv
      rw [Nat.add_mul, Nat.one_mul, Nat.mul_comm] at hlt
      omega
    rw [one_mul]
    exact_mod_cast hmul

/-! ## Doubles -/

/-- A number of 53 bits is rounded to itself. -/
theorem nearest_exact {p q m : Nat} {e : Int} (hp : 0 < p) (hq : 0 < q) (hm : m < 2 ^ 53) (he : -1074 ≤ e)
    (h : (p : Rat) / q = dyadic m e) : nearest p q = dyadic m e := by
  have hbit : lastBit p q ≤ e := by
    rw [lastBit_leading]
    have hlead : (2 : Rat) ^ leading p q < 2 ^ (53 + e) := by
      calc (2 : Rat) ^ leading p q ≤ (p : Rat) / q := leading_le hp hq
        _ = m * 2 ^ e := h
        _ < 2 ^ (53 : Int) * 2 ^ e := by
          apply mul_lt_mul_of_pos_right _ (zpow_pos (by norm_num) e)
          exact_mod_cast hm
        _ = 2 ^ (53 + e) := (zpow_add₀ (by norm_num) _ _).symm
    have hexp : leading p q < 53 + e := (zpow_lt_zpow_iff_right₀ (by norm_num : (1 : Rat) < 2)).mp hlead
    omega
  obtain ⟨k, hk⟩ := Int.eq_ofNat_of_zero_le (Int.sub_nonneg_of_le hbit)
  -- the same number, with a last bit that is further down
  have hsame : dyadic m e = dyadic (m * 2 ^ k) (lastBit p q) := by
    unfold dyadic
    rw [show e = (k : Int) + lastBit p q by omega, zpow_add₀ (by norm_num), two_zpow_natCast]
    push_cast
    ring
  rw [nearest_dyadic, hsame, scaled_exact hq (hsame ▸ h)]

theorem toDouble_neg (x : Rat) : toDouble (-x) = -toDouble x := by
  unfold toDouble
  rcases lt_trichotomy x 0 with hneg | rfl | hpos
  · rw [if_neg (by linarith), if_neg (by linarith), if_neg hneg.ne, if_pos hneg, neg_neg, Rat.num_neg_eq_neg_num, Int.natAbs_neg,
      Rat.den_neg_eq_den]
  · simp
  · rw [if_neg (by linarith), if_pos (by linarith), if_neg hpos.ne', if_neg (by linarith), Rat.num_neg_eq_neg_num, Int.natAbs_neg,
      Rat.den_neg_eq_den]

theorem toDouble_of_pos {x : Rat} (hx : 0 < x) : toDouble x = nearest x.num.natAbs x.den := by
  unfold toDouble
  rw [if_neg hx.ne', if_neg hx.not_gt]

theorem natAbs_num_div {x : Rat} (hx : 0 < x) : (x.num.natAbs : Rat) / x.den = x := by
  have hnum : ((x.num.natAbs : Nat) : Int) = x.num := Int.natAbs_of_nonneg (Rat.num_pos.mpr hx).le
  rw [← Int.cast_natCast, hnum]
  exact Rat.num_div_den x

theorem toDouble_dyadic {m : Nat} {e : Int} (hm : m ≤ 2 ^ 53) (he : -1074 ≤ e) : toDouble (dyadic m e) = dyadic m e := by
  rcases Nat.eq_zero_or_pos m with rfl | hpos
  · simp [dyadic, toDouble]
  have hx := dyadic_pos hpos e
  have hnum : 0 < (dyadic m e).num.natAbs := Int.natAbs_pos.mpr (Rat.num_pos.mpr hx).ne'
  rw [toDouble_of_pos hx]
  rcases Nat.lt_or_eq_of_le hm with hlt | rfl
  · exact nearest_exact hnum (Rat.den_pos _) hlt he (natAbs_num_div hx)
  · have hcarry : dyadic (2 ^ 53) e = dyadic (2 ^ 52) (e + 1) := by
      unfold dyadic
      rw [zpow_add₀ (by norm_num), zpow_one]
      push_cast
      ring
    have hexact := nearest_exact hnum (Rat.den_pos _) (m := 2 ^ 52) (e := e + 1) (by norm_num) (by omega)
      ((natAbs_num_div hx).trans hcarry)
    rw [hexact, ← hcarry]

theorem toDouble_idem (x : Rat) : toDouble (toDouble x) = toDouble x := by
  have hpos : ∀ y : Rat, 0 < y → toDouble (toDouble y) = toDouble y := by
    intro y hy
    have hnum : 0 < y.num.natAbs := Int.natAbs_pos.mpr (Rat.num_pos.mpr hy).ne'
    rw [toDouble_of_pos hy, nearest_dyadic]
    have hbit := lastBit_leading y.num.natAbs y.den
    refine toDouble_dyadic (scaled_le (Rat.den_pos y) ?_) (by omega)
    calc (y.num.natAbs : Rat) / y.den < 2 ^ (leading y.num.natAbs y.den + 1) := lt_leading hnum (Rat.den_pos y)
      _ ≤ 2 ^ (53 + lastBit y.num.natAbs y.den) := zpow_le_zpow_right₀ (by norm_num) (by omega)
      _ = dyadic (2 ^ 53) (lastBit y.num.natAbs y.den) := by
        unfold dyadic
        rw [zpow_add₀ (by norm_num)]
        norm_num
  rcases lt_trichotomy x 0 with hneg | rfl | hx
  · have h := hpos (-x) (by linarith)
    rw [toDouble_neg, toDouble_neg, neg_inj] at h
    exact h
  · simp [toDouble]
  · exact hpos x hx

end Js
