/-
  FlowHelm.Lib.Buffer — Node's Buffer: the bytes of a string, and bytes as text, in UTF-8 and
  in base64.

  `fromBase64` takes either alphabet, skips what is in neither, and stops at padding.

  - `toUtf8_fromUtf8`: a well-formed string comes back.
  - `fromBase64_digits`: so do bytes, written without padding.
-/
import Mathlib.Data.List.TakeWhile
import FlowHelm.Lib.JsSlice

namespace Buffer

open Js

/-- `Buffer.from(s, 'utf-8')`. -/
def fromUtf8 (s : JsString) : List UInt8 := Utf8.encode (toWellFormed s)

/-- `buffer.toString('utf-8')`. -/
def toUtf8 (bytes : List UInt8) : JsString := (Utf8.decode bytes).flatMap utf16

@[simp] theorem fromUtf8_nil : fromUtf8 [] = [] := rfl

theorem toWellFormed_flatMap (text : List Char) : toWellFormed (text.flatMap utf16) = text := by
  induction text with
  | nil => rfl
  | cons c text ih => rw [List.flatMap_cons, toWellFormed_utf16, ih]

theorem toUtf8_fromUtf8 {s : JsString} (h : isWellFormed s = true) : toUtf8 (fromUtf8 s) = s := by
  obtain ⟨text, rfl⟩ := isWellFormed_iff.mp h
  rw [fromUtf8, toUtf8, toWellFormed_flatMap, Utf8.decode_encode]

theorem isWellFormed_toUtf8 (bytes : List UInt8) : isWellFormed (toUtf8 bytes) = true := isWellFormed_flatMap _

/-! ## ASCII -/

variable {u : UInt16} {s t : JsString}

theorem plain_of_lt (h : u.toNat < 0x80) : isHighSurrogate u = false ∧ isLowSurrogate u = false := surrogate_false.mpr (by omega)

theorem toWellFormed_append (hhigh : isHighSurrogate u = false) (hlow : isLowSurrogate u = false) (s t : JsString) :
    toWellFormed (s ++ u :: t) = toWellFormed s ++ Char.ofNat u.toNat :: toWellFormed t := by
  have hcons : toWellFormed (u :: t) = Char.ofNat u.toNat :: toWellFormed t := by
    cases t with
    | nil => simp [toWellFormed, hhigh, hlow]
    | cons v t => simp [toWellFormed, hhigh, hlow]
  fun_induction toWellFormed s with
  | case1 => exact hcons
  | case2 v w rest hpair ih => simp [toWellFormed, hpair, ih]
  | case3 v w rest hpair ih =>
    rw [List.cons_append, List.cons_append, toWellFormed, if_neg hpair, ← List.cons_append, ih]
    rfl
  | case4 v => simp [toWellFormed, hlow, hcons]

theorem encodeChar_ascii {c : Char} (h : c.toNat < 0x80) : Utf8.encodeChar c = [UInt8.ofNat c.toNat] := by
  have hval : c.val.toNat = c.toNat := rfl
  unfold Utf8.encodeChar String.utf8EncodeChar
  simp only [hval]
  rw [if_pos (by omega)]

theorem fromUtf8_append (h : u.toNat < 0x80) (s t : JsString) :
    fromUtf8 (s ++ u :: t) = fromUtf8 s ++ UInt8.ofNat u.toNat :: fromUtf8 t := by
  have hplain := plain_of_lt h
  have hval : (Char.ofNat u.toNat).toNat = u.toNat := charOf_toNat (by omega)
  rw [fromUtf8, toWellFormed_append hplain.1 hplain.2, Utf8.encode_append, Utf8.encode_cons, encodeChar_ascii (by omega), hval]
  rfl

/-- A unit by itself that becomes a character of ASCII is that character. -/
theorem unit_of_char {c : Char} (h : (if isHighSurrogate u || isLowSurrogate u then Utf8.replacement else Char.ofNat u.toNat) = c)
    (hc : c.toNat < 0x80) : u.toNat = c.toNat := by
  subst h
  split at hc
  · exact absurd hc (by decide)
  · rename_i hplain
    rw [if_neg hplain]
    rw [Bool.or_eq_true, not_or, Bool.not_eq_true, Bool.not_eq_true] at hplain
    have hbound := u.toNat_lt
    have hrange := surrogate_false.mp hplain
    exact (charOf_toNat (by omega)).symm

theorem head_of_toWellFormed {c : Char} {text : List Char} (hc : c.toNat < 0x80) (h : toWellFormed s = c :: text) :
    ∃ u t, s = u :: t ∧ u.toNat = c.toNat := by
  cases s with
  | nil => cases h
  | cons u t =>
    refine ⟨u, t, rfl, ?_⟩
    cases t with
    | nil => exact unit_of_char (List.cons.inj h).1 hc
    | cons v t =>
      rw [toWellFormed] at h
      split at h
      · rename_i hpair
        rw [Bool.and_eq_true] at hpair
        have hlarge := pairChar_large hpair.1 hpair.2
        rw [(List.cons.inj h).1] at hlarge
        omega
      · exact unit_of_char (List.cons.inj h).1 hc

theorem mem_of_toWellFormed {c : Char} (hc : c.toNat < 0x80) (h : c ∈ toWellFormed s) : ∃ u ∈ s, u.toNat = c.toNat := by
  fun_induction toWellFormed s with
  | case1 => cases h
  | case2 u v rest hpair ih =>
    rcases List.mem_cons.mp h with heq | h
    · rw [Bool.and_eq_true] at hpair
      have hlarge := pairChar_large hpair.1 hpair.2
      rw [← heq] at hlarge
      omega
    · obtain ⟨w, hw, hval⟩ := ih h
      exact ⟨w, by simp [hw], hval⟩
  | case3 u v rest hpair ih =>
    rcases List.mem_cons.mp h with heq | h
    · exact ⟨u, by simp, unit_of_char heq.symm hc⟩
    · obtain ⟨w, hw, hval⟩ := ih h
      exact ⟨w, List.mem_cons_of_mem _ hw, hval⟩
  | case4 u => exact ⟨u, by simp, unit_of_char (List.mem_singleton.mp h).symm hc⟩

/-- What the first byte tells of the first unit. -/
theorem head_of_fromUtf8 {b : UInt8} {bytes : List UInt8} (hb : b.toNat < 0x80) (h : fromUtf8 s = b :: bytes) :
    ∃ u t, s = u :: t ∧ u.toNat = b.toNat := by
  have hval : (Char.ofNat b.toNat).toNat = b.toNat := charOf_toNat (by omega)
  have hdecode : toWellFormed s = Char.ofNat b.toNat :: Utf8.decode bytes := by
    rw [← Utf8.decode_encode (toWellFormed s), ← fromUtf8, h, Utf8.decode, Utf8.decodeFrom_cons]
    simp only [Utf8.step, Utf8.first]
    rw [if_pos hb]
    rfl
  rw [← hval]
  exact head_of_toWellFormed (by omega) hdecode

theorem fromUtf8_eq_nil (h : fromUtf8 s = []) : s = [] := by
  have hdecode : toWellFormed s = [] := by
    rw [← Utf8.decode_encode (toWellFormed s), ← fromUtf8, h]
    rfl
  cases s with
  | nil => rfl
  | cons u t =>
    cases t with
    | nil => cases hdecode
    | cons v t =>
      rw [toWellFormed] at hdecode
      split at hdecode
      · cases hdecode
      · cases hdecode

/-- A byte of ASCII is that of a unit. -/
theorem mem_of_fromUtf8 {b : UInt8} (hb : b.toNat < 0x80) (h : b ∈ fromUtf8 s) : ∃ u ∈ s, u.toNat = b.toNat := by
  obtain ⟨c, hc, hmem⟩ := List.mem_flatMap.mp h
  have hval : c.toNat = b.toNat := by
    rcases Utf8.encodeChar_cases c with ⟨a, ha, hac, -⟩ | ⟨a, bytes, q, ha, hfirst, hbytes⟩
    · rw [ha, List.mem_singleton] at hmem
      rw [hmem, hac]
    · rw [ha] at hmem
      rcases List.mem_cons.mp hmem with rfl | hmem
      · rw [Utf8.first, if_pos hb] at hfirst
        cases (Prod.mk.inj hfirst).2
      · have htrail := (hbytes.trail b hmem).1
        omega
  rw [← hval]
  exact mem_of_toWellFormed (by omega) hc

/-! ## Base64 -/

/-- The unit of six bits. -/
def digit (n : Nat) : UInt16 :=
  if n < 26 then UInt16.ofNat (0x41 + n)
  else if n < 52 then UInt16.ofNat (0x61 + (n - 26))
  else if n < 62 then UInt16.ofNat (0x30 + (n - 52))
  else if n = 62 then 0x2B else 0x2F

/-- The six bits of a unit of either alphabet. -/
def value (u : UInt16) : Option Nat :=
  if 0x41 ≤ u ∧ u ≤ 0x5A then some (u.toNat - 0x41)
  else if 0x61 ≤ u ∧ u ≤ 0x7A then some (u.toNat - 0x61 + 26)
  else if 0x30 ≤ u ∧ u ≤ 0x39 then some (u.toNat - 0x30 + 52)
  else if u = 0x2B ∨ u = 0x2D then some 62
  else if u = 0x2F ∨ u = 0x5F then some 63
  else none

def padding : UInt16 := 0x3D

def digits : List UInt8 → List Nat
  | a :: b :: c :: rest =>
    [a.toNat / 4, a.toNat % 4 * 16 + b.toNat / 16, b.toNat % 16 * 4 + c.toNat / 64, c.toNat % 64] ++ digits rest
  | [a, b] => [a.toNat / 4, a.toNat % 4 * 16 + b.toNat / 16, b.toNat % 16 * 4]
  | [a] => [a.toNat / 4, a.toNat % 4 * 16]
  | [] => []

/-- The bytes of groups of six bits; what is left of less than a byte is dropped. -/
def undigits : List Nat → List UInt8
  | p :: q :: r :: s :: rest =>
    [UInt8.ofNat (p * 4 + q / 16), UInt8.ofNat (q % 16 * 16 + r / 4), UInt8.ofNat (r % 4 * 64 + s)] ++ undigits rest
  | [p, q, r] => [UInt8.ofNat (p * 4 + q / 16), UInt8.ofNat (q % 16 * 16 + r / 4)]
  | [p, q] => [UInt8.ofNat (p * 4 + q / 16)]
  | _ => []

/-- `buffer.toString('base64')`. -/
def toBase64 (bytes : List UInt8) : JsString :=
  (digits bytes).map digit ++ List.replicate ((3 - bytes.length % 3) % 3) padding

/-- `Buffer.from(s, 'base64')`. -/
def fromBase64 (s : JsString) : List UInt8 := undigits ((s.takeWhile (· ≠ padding)).filterMap value)

theorem value_digit {n : Nat} (h : n < 64) : value (digit n) = some n ∧ digit n ≠ padding := by
  have hall : ∀ n < 64, value (digit n) = some n ∧ digit n ≠ padding := by decide
  exact hall n h

theorem digits_lt (bytes : List UInt8) : ∀ n ∈ digits bytes, n < 64 := by
  fun_induction digits bytes with
  | case1 a b c rest ih =>
    have ha := a.toNat_lt
    have hb := b.toNat_lt
    have hc := c.toNat_lt
    simp only [List.cons_append, List.nil_append, List.forall_mem_cons]
    exact ⟨by omega, by omega, by omega, by omega, ih⟩
  | case2 a b =>
    have ha := a.toNat_lt
    have hb := b.toNat_lt
    simp only [List.forall_mem_cons]
    exact ⟨by omega, by omega, by omega, by simp⟩
  | case3 a =>
    have ha := a.toNat_lt
    simp only [List.forall_mem_cons]
    exact ⟨by omega, by omega, by simp⟩
  | case4 => simp

theorem ofNat_eq {a : UInt8} {n : Nat} (h : n = a.toNat) : UInt8.ofNat n = a := by rw [h, UInt8.ofNat_toNat]

theorem undigits_digits (bytes : List UInt8) : undigits (digits bytes) = bytes := by
  fun_induction digits bytes with
  | case1 a b c rest ih =>
    have ha := a.toNat_lt
    have hb := b.toNat_lt
    have hc := c.toNat_lt
    simp only [List.cons_append, List.nil_append, undigits, ih]
    have hfirst : a.toNat / 4 * 4 + (a.toNat % 4 * 16 + b.toNat / 16) / 16 = a.toNat := by omega
    have hsecond : (a.toNat % 4 * 16 + b.toNat / 16) % 16 * 16 + (b.toNat % 16 * 4 + c.toNat / 64) / 4 = b.toNat := by omega
    have hthird : (b.toNat % 16 * 4 + c.toNat / 64) % 4 * 64 + c.toNat % 64 = c.toNat := by omega
    rw [ofNat_eq hfirst, ofNat_eq hsecond, ofNat_eq hthird]
  | case2 a b =>
    have ha := a.toNat_lt
    have hb := b.toNat_lt
    simp only [undigits]
    have hfirst : a.toNat / 4 * 4 + (a.toNat % 4 * 16 + b.toNat / 16) / 16 = a.toNat := by omega
    have hsecond : (a.toNat % 4 * 16 + b.toNat / 16) % 16 * 16 + b.toNat % 16 * 4 / 4 = b.toNat := by omega
    rw [ofNat_eq hfirst, ofNat_eq hsecond]
  | case3 a =>
    have ha := a.toNat_lt
    simp only [undigits]
    have hfirst : a.toNat / 4 * 4 + a.toNat % 4 * 16 / 16 = a.toNat := by omega
    rw [ofNat_eq hfirst]
  | case4 => rfl

theorem takeWhile_digits {ns : List Nat} (h : ∀ n ∈ ns, n < 64) : (ns.map digit).takeWhile (· ≠ padding) = ns.map digit := by
  rw [List.takeWhile_eq_self_iff]
  intro u hu
  obtain ⟨n, hn, rfl⟩ := List.mem_map.mp hu
  simp [(value_digit (h n hn)).2]

theorem filterMap_digits {ns : List Nat} (h : ∀ n ∈ ns, n < 64) : (ns.map digit).filterMap value = ns := by
  induction ns with
  | nil => rfl
  | cons n ns ih =>
    obtain ⟨hn, hns⟩ := List.forall_mem_cons.mp h
    rw [List.map_cons, List.filterMap_cons_some (value_digit hn).1, ih hns]

/-- Padding is not needed. -/
theorem fromBase64_digits (bytes : List UInt8) : fromBase64 ((digits bytes).map digit) = bytes := by
  have hlt := digits_lt bytes
  rw [fromBase64, takeWhile_digits hlt, filterMap_digits hlt, undigits_digits]

end Buffer
