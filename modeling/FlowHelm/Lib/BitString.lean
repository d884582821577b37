/-
  FlowHelm.Lib.BitString — bit strings, the most significant bit first, and the bytes they make.

  - `toNat_ofNat` / `ofNat_toNat`: a number from its bits, and bits from their number.
  - `toBytes_ofBytes` / `ofBytes_toBytes`: bytes from their bits, and bits from their bytes.
-/
import Mathlib.Algebra.Group.Nat.Defs
import Mathlib.Data.Nat.Basic

namespace Bits

/-- The low bits of a number. -/
def ofNat : Nat → Nat → List Bool
  | 0, _ => []
  | width + 1, n => n.testBit width :: ofNat width n

def toNat (bits : List Bool) : Nat := bits.foldl (fun n b => 2 * n + b.toNat) 0

@[simp] theorem length_ofNat (width n : Nat) : (ofNat width n).length = width := by
  induction width with
  | zero => rfl
  | succ width ih => rw [ofNat, List.length_cons, ih]

theorem foldl_toNat (bits : List Bool) (n : Nat) :
    bits.foldl (fun n b => 2 * n + b.toNat) n = n * 2 ^ bits.length + toNat bits := by
  unfold toNat
  induction bits generalizing n with
  | nil => simp
  | cons b bits ih =>
    rw [List.foldl_cons, List.foldl_cons, ih, ih (2 * 0 + b.toNat), List.length_cons, Nat.pow_succ]
    simp only [Nat.add_mul, Nat.mul_zero, Nat.zero_add]
    have hswap : 2 * n * 2 ^ bits.length = n * (2 ^ bits.length * 2) := by rw [Nat.mul_comm 2 n, Nat.mul_assoc, Nat.mul_comm 2]
    omega

theorem toNat_cons (b : Bool) (bits : List Bool) : toNat (b :: bits) = b.toNat * 2 ^ bits.length + toNat bits := by
  show bits.foldl _ (2 * 0 + b.toNat) = _
  rw [foldl_toNat, Nat.mul_zero, Nat.zero_add]

theorem toNat_ofNat (width n : Nat) : toNat (ofNat width n) = n % 2 ^ width := by
  induction width with
  | zero => simp [ofNat, toNat, Nat.mod_one]
  | succ width ih =>
    rw [ofNat, toNat_cons, ih, length_ofNat, Nat.mod_pow_succ, Nat.toNat_testBit, Nat.mul_comm]
    omega

theorem toNat_lt (bits : List Bool) : toNat bits < 2 ^ bits.length := by
  induction bits with
  | nil => exact Nat.one_pos
  | cons b bits ih =>
    have hb : b.toNat * 2 ^ bits.length ≤ 1 * 2 ^ bits.length := Nat.mul_le_mul_right _ b.toNat_le
    rw [toNat_cons, List.length_cons, Nat.pow_succ]
    omega

/-- Bits above the width do not count. -/
theorem ofNat_add_mul {width high n : Nat} (k : Nat) (hn : n < 2 ^ high) (h : width ≤ high) :
    ofNat width (2 ^ high * k + n) = ofNat width n := by
  induction width with
  | zero => rfl
  | succ width ih =>
    have hlow : width < high := by omega
    rw [ofNat, ofNat, ih (by omega), Nat.testBit_two_pow_mul_add k hn, if_pos hlow]

theorem ofNat_toNat (bits : List Bool) : ofNat bits.length (toNat bits) = bits := by
  induction bits with
  | nil => rfl
  | cons b bits ih =>
    have hlt := toNat_lt bits
    rw [List.length_cons, ofNat, toNat_cons, Nat.mul_comm, ofNat_add_mul _ hlt (Nat.le_refl _), ih,
      Nat.testBit_two_pow_mul_add _ hlt, if_neg (Nat.lt_irrefl _), Nat.sub_self]
    cases b <;> rfl

/-! ## Bytes -/

def ofByte (b : UInt8) : List Bool := ofNat 8 b.toNat

def ofBytes (bytes : List UInt8) : List Bool := bytes.flatMap ofByte

/-- The first eight bits; those that are missing are zero. -/
def byte (bits : List Bool) : UInt8 := UInt8.ofNat ((List.range 8).foldl (fun n j => 2 * n + (bits.getD j false).toNat) 0)

def toBytes (bits : List Bool) : List UInt8 :=
  if bits = [] then [] else byte bits :: toBytes (bits.drop 8)
termination_by bits.length
decreasing_by
  have hpos := List.length_pos_iff.mpr ‹bits ≠ []›
  rw [List.length_drop]
  omega

@[simp] theorem toBytes_nil : toBytes [] = [] := by
  unfold toBytes
  rfl

theorem toBytes_cons (b : Bool) (bits : List Bool) : toBytes (b :: bits) = byte (b :: bits) :: toBytes ((b :: bits).drop 8) := by
  rw [toBytes, if_neg (List.cons_ne_nil b bits)]

theorem byte_ofByte (b : UInt8) (rest : List Bool) : byte (ofByte b ++ rest) = b := by
  have hall : ∀ n < 256, UInt8.ofNat (toNat (ofNat 8 n)) = UInt8.ofNat n := by
    intro n hn
    rw [toNat_ofNat, Nat.mod_eq_of_lt (show n < 2 ^ 8 from hn)]
  have hb := hall b.toNat b.toNat_lt
  rw [UInt8.ofNat_toNat] at hb
  exact hb

theorem ofByte_byte (b₇ b₆ b₅ b₄ b₃ b₂ b₁ b₀ : Bool) (rest : List Bool) :
    ofByte (byte (b₇ :: b₆ :: b₅ :: b₄ :: b₃ :: b₂ :: b₁ :: b₀ :: rest)) = [b₇, b₆, b₅, b₄, b₃, b₂, b₁, b₀] := by
  have hbyte : byte (b₇ :: b₆ :: b₅ :: b₄ :: b₃ :: b₂ :: b₁ :: b₀ :: rest) =
    UInt8.ofNat (toNat [b₇, b₆, b₅, b₄, b₃, b₂, b₁, b₀]) := rfl
  have hlt : toNat [b₇, b₆, b₅, b₄, b₃, b₂, b₁, b₀] < 2 ^ 8 := toNat_lt _
  rw [hbyte, ofByte, UInt8.toNat_ofNat_of_lt' hlt]
  exact ofNat_toNat [b₇, b₆, b₅, b₄, b₃, b₂, b₁, b₀]

@[simp] theorem length_ofByte (b : UInt8) : (ofByte b).length = 8 := length_ofNat ..

theorem length_ofBytes (bytes : List UInt8) : (ofBytes bytes).length = 8 * bytes.length := by
  induction bytes with
  | nil => rfl
  | cons b bytes ih =>
    rw [ofBytes, List.flatMap_cons, List.length_append, length_ofByte, List.length_cons]
    rw [ofBytes] at ih
    omega

theorem toBytes_ofByte (b : UInt8) (rest : List Bool) : toBytes (ofByte b ++ rest) = b :: toBytes rest := by
  have hcons : ofByte b ++ rest = (b.toNat.testBit 7) :: (ofNat 7 b.toNat ++ rest) := rfl
  have hdrop : (ofByte b ++ rest).drop 8 = rest := List.drop_left' (length_ofByte b)
  rw [hcons, toBytes_cons, ← hcons, byte_ofByte, hdrop]

theorem toBytes_append (bytes : List UInt8) (rest : List Bool) : toBytes (ofBytes bytes ++ rest) = bytes ++ toBytes rest := by
  induction bytes with
  | nil => rfl
  | cons b bytes ih =>
    rw [ofBytes, List.flatMap_cons, List.append_assoc, toBytes_ofByte]
    rw [ofBytes] at ih
    rw [ih, List.cons_append]

theorem toBytes_ofBytes (bytes : List UInt8) : toBytes (ofBytes bytes) = bytes := by
  rw [← List.append_nil (ofBytes bytes), toBytes_append, toBytes_nil, List.append_nil]

/-- Eight bits and the rest. -/
theorem eight {bits : List Bool} (h : 8 ≤ bits.length) :
    ∃ b₇ b₆ b₅ b₄ b₃ b₂ b₁ b₀ rest, bits = b₇ :: b₆ :: b₅ :: b₄ :: b₃ :: b₂ :: b₁ :: b₀ :: rest := by
  match bits, h with
  | b₇ :: b₆ :: b₅ :: b₄ :: b₃ :: b₂ :: b₁ :: b₀ :: rest, _ => exact ⟨_, _, _, _, _, _, _, _, _, rfl⟩

theorem ofBytes_toBytes {bits : List Bool} (h : bits.length % 8 = 0) : ofBytes (toBytes bits) = bits := by
  induction hn : bits.length using Nat.strong_induction_on generalizing bits with
  | _ n ih =>
    subst hn
    by_cases hnil : bits = []
    · rw [hnil, toBytes_nil]
      rfl
    · have hpos := List.length_pos_iff.mpr hnil
      obtain ⟨b₇, b₆, b₅, b₄, b₃, b₂, b₁, b₀, rest, rfl⟩ := eight (show 8 ≤ bits.length by omega)
      have hrest := ih rest.length (by simp only [List.length_cons]; omega) (by simp only [List.length_cons] at h; omega) rfl
      rw [toBytes_cons, ofBytes, List.flatMap_cons, ofByte_byte]
      rw [ofBytes] at hrest
      show _ ++ List.flatMap ofByte (toBytes rest) = _
      rw [hrest]
      rfl

theorem length_toBytes {bits : List Bool} (h : bits.length % 8 = 0) : (toBytes bits).length = bits.length / 8 := by
  have hlength := length_ofBytes (toBytes bits)
  rw [ofBytes_toBytes h] at hlength
  omega

end Bits
