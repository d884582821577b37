/-
  FlowHelm.Lib.Utf16 — characters and the one or two code units they are made of.

  - `utf16_unit`: a code unit that is no surrogate is a character.
  - `utf16_pair`: so is a pair of surrogates.
  - `toWellFormed_ofString`: the characters of a text are read back from its code units.
-/
import FlowHelm.Lib.JsText
import FlowHelm.Lib.Utf8

namespace Js

/-- The character of a pair of surrogates. -/
def pairChar (high low : UInt16) : Char := Char.ofNat (0x10000 + (high.toNat - 0xD800) * 0x400 + (low.toNat - 0xDC00))

theorem charOf_toNat {n : Nat} (h : n < 0xD800 ∨ (0xDFFF < n ∧ n < 0x110000)) : (Char.ofNat n).toNat = n := by
  have hvalid : n.isValidChar := h
  rw [Char.ofNat, dif_pos hvalid]
  rfl

theorem surrogate_false {u : UInt16} : isHighSurrogate u = false ∧ isLowSurrogate u = false ↔ u.toNat < 0xD800 ∨
    0xDFFF < u.toNat := by
  simp only [isHighSurrogate, isLowSurrogate, Bool.and_eq_false_iff, decide_eq_false_iff_not, UInt16.le_iff_toNat_le]
  simp
  omega

theorem utf16_unit {u : UInt16} (hhigh : isHighSurrogate u = false) (hlow : isLowSurrogate u = false) :
    utf16 (Char.ofNat u.toNat) = [u] := by
  have hbound := u.toNat_lt
  have hrange := surrogate_false.mp ⟨hhigh, hlow⟩
  have hchar : (Char.ofNat u.toNat).toNat = u.toNat := charOf_toNat (by omega)
  have hval : (Char.ofNat u.toNat).val.toNat = u.toNat := hchar
  unfold utf16
  rw [if_pos (by rw [UInt32.lt_iff_toNat_lt, hval]; exact hbound)]
  congr 1
  apply UInt16.toNat_inj.mp
  rw [UInt32.toNat_toUInt16, hval]
  omega

theorem pairChar_toNat {u v : UInt16} (hhigh : isHighSurrogate u = true) (hlow : isLowSurrogate v = true) :
    (0xD800 ≤ u.toNat ∧ u.toNat ≤ 0xDBFF) ∧ (0xDC00 ≤ v.toNat ∧ v.toNat ≤ 0xDFFF) ∧
      (pairChar u v).toNat = 0x10000 + (u.toNat - 0xD800) * 0x400 + (v.toNat - 0xDC00) := by
  simp only [isHighSurrogate, isLowSurrogate, Bool.and_eq_true, decide_eq_true_eq, UInt16.le_iff_toNat_le] at hhigh hlow
  exact ⟨hhigh, hlow, charOf_toNat (by simp at hhigh hlow; omega)⟩

theorem pairChar_large {u v : UInt16} (hhigh : isHighSurrogate u = true) (hlow : isLowSurrogate v = true) :
    0x10000 ≤ (pairChar u v).toNat := by
  obtain ⟨-, -, hchar⟩ := pairChar_toNat hhigh hlow
  omega

theorem utf16_pair {u v : UInt16} (hhigh : isHighSurrogate u = true) (hlow : isLowSurrogate v = true) :
    utf16 (pairChar u v) = [u, v] := by
  obtain ⟨hhigh, hlow, hval⟩ := pairChar_toNat hhigh hlow
  change (pairChar u v).val.toNat = _ at hval
  unfold utf16
  rw [if_neg (by rw [UInt32.lt_iff_toNat_lt, hval]; simp; omega)]
  have hsub : ((pairChar u v).val - 0x10000).toNat = (u.toNat - 0xD800) * 0x400 + (v.toNat - 0xDC00) := by
    rw [UInt32.toNat_sub_of_le _ _ (by rw [UInt32.le_iff_toNat_le, hval]; simp; omega), hval]
    simp
    omega
  refine List.cons_eq_cons.mpr ⟨?_, List.cons_eq_cons.mpr ⟨?_, rfl⟩⟩
  · apply UInt16.toNat_inj.mp
    simp [UInt32.toNat_toUInt16, UInt32.toNat_shiftRight, hsub, Nat.shiftRight_eq_div_pow]
    omega
  · apply UInt16.toNat_inj.mp
    rw [UInt32.toNat_toUInt16, UInt32.toNat_add, UInt32.toNat_and, hsub, show (0x3FF : UInt32).toNat = 2 ^ 10 - 1 from rfl,
      Nat.and_two_pow_sub_one_eq_mod]
    simp
    omega

/-! ## Text of code units -/

/-- The characters; a surrogate without its other half becomes U+FFFD. -/
def toWellFormed : JsString → List Char
  | [] => []
  | u :: v :: rest =>
    if isHighSurrogate u && isLowSurrogate v then pairChar u v :: toWellFormed rest
    else (if isHighSurrogate u || isLowSurrogate u then Utf8.replacement else Char.ofNat u.toNat) :: toWellFormed (v :: rest)
  | [u] => [if isHighSurrogate u || isLowSurrogate u then Utf8.replacement else Char.ofNat u.toNat]

/-- The unit of a character below 0x10000. -/
theorem utf16_small {c : Char} (h : c.toNat < 0x10000) :
    ∃ u : UInt16, utf16 c = [u] ∧ u.toNat = c.toNat ∧ isHighSurrogate u = false ∧ isLowSurrogate u = false := by
  have hval : c.val.toNat < 0x10000 := h
  have hvalid : c.toNat < 0xD800 ∨ (0xDFFF < c.toNat ∧ c.toNat < 0x110000) := c.valid
  have hunit : c.val.toUInt16.toNat = c.toNat := by
    rw [UInt32.toNat_toUInt16]
    exact Nat.mod_eq_of_lt h
  have hclass := surrogate_false.mpr (show c.val.toUInt16.toNat < 0xD800 ∨ 0xDFFF < c.val.toUInt16.toNat by omega)
  refine ⟨c.val.toUInt16, ?_, hunit, hclass.1, hclass.2⟩
  rw [utf16, if_pos (UInt32.lt_iff_toNat_lt.mpr hval)]

/-- The two units of a character from 0x10000 on. -/
theorem utf16_large {c : Char} (h : 0x10000 ≤ c.toNat) :
    ∃ u v : UInt16, utf16 c = [u, v] ∧ isHighSurrogate u = true ∧ isLowSurrogate v = true ∧ pairChar u v = c := by
  have hval : 0x10000 ≤ c.val.toNat := h
  have hvalid : c.toNat < 0xD800 ∨ (0xDFFF < c.toNat ∧ c.toNat < 0x110000) := c.valid
  have hsub : (c.val - 0x10000).toNat = c.toNat - 0x10000 := UInt32.toNat_sub_of_le _ _ (UInt32.le_iff_toNat_le.mpr hval)
  have hhigh : ((0xD800 : UInt32) + ((c.val - 0x10000) >>> 10)).toUInt16.toNat = 0xD800 + (c.toNat - 0x10000) / 0x400 := by
    simp [UInt32.toNat_toUInt16, UInt32.toNat_shiftRight, hsub, Nat.shiftRight_eq_div_pow]
    omega
  have hlow : ((0xDC00 : UInt32) + ((c.val - 0x10000) &&& 0x3FF)).toUInt16.toNat = 0xDC00 + (c.toNat - 0x10000) % 0x400 := by
    rw [UInt32.toNat_toUInt16, UInt32.toNat_add, UInt32.toNat_and, hsub, show (0x3FF : UInt32).toNat = 2 ^ 10 - 1 from rfl,
      Nat.and_two_pow_sub_one_eq_mod]
    simp
    omega
  have hunits : utf16 c = [((0xD800 : UInt32) + ((c.val - 0x10000) >>> 10)).toUInt16,
    ((0xDC00 : UInt32) + ((c.val - 0x10000) &&& 0x3FF)).toUInt16] := by
    have hnot : ¬c.val < 0x10000 := fun hlt => absurd (UInt32.lt_iff_toNat_lt.mp hlt) (Nat.not_lt_of_le hval)
    rw [utf16, if_neg hnot]
  refine ⟨_, _, hunits, ?_, ?_, ?_⟩
  · simp only [isHighSurrogate, Bool.and_eq_true, decide_eq_true_eq, UInt16.le_iff_toNat_le]
    rw [hhigh]
    simp
    omega
  · simp only [isLowSurrogate, Bool.and_eq_true, decide_eq_true_eq, UInt16.le_iff_toNat_le]
    rw [hlow]
    simp
    omega
  · unfold pairChar
    rw [hhigh, hlow, show 0x10000 + (0xD800 + (c.toNat - 0x10000) / 0x400 - 0xD800) * 0x400 +
      (0xDC00 + (c.toNat - 0x10000) % 0x400 - 0xDC00) = c.toNat by omega, Char.ofNat_toNat]

theorem toWellFormed_utf16 (c : Char) (rest : JsString) : toWellFormed (utf16 c ++ rest) = c :: toWellFormed rest := by
  by_cases h : c.toNat < 0x10000
  · obtain ⟨u, hunits, hval, hhigh, hlow⟩ := utf16_small h
    have hchar : Char.ofNat u.toNat = c := by rw [hval, Char.ofNat_toNat]
    rw [hunits, List.singleton_append]
    cases rest with
    | nil => simp [toWellFormed, hhigh, hlow, hchar]
    | cons v rest => simp [toWellFormed, hhigh, hlow, hchar]
  · obtain ⟨u, v, hunits, hhigh, hlow, hchar⟩ := utf16_large (Nat.le_of_not_lt h)
    rw [hunits]
    simp [toWellFormed, hhigh, hlow, hchar]

theorem toWellFormed_ofString (s : String) : toWellFormed (ofString s) = s.toList := by
  unfold ofString
  induction s.toList with
  | nil => rfl
  | cons c cs ih => rw [List.flatMap_cons, toWellFormed_utf16, ih]

end Js
