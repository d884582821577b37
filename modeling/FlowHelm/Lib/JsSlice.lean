/-
  FlowHelm.Lib.JsSlice — strings searched, trimmed and cut, and text without half a
  surrogate pair.

  - `units_induction`: an induction along the pairs and the single units of a text.
  - `isWellFormed_iff`: the code units of characters are well formed, and no others.
  - `isWellFormed_cut`: a cut keeps both parts so unless the first part ends in the first
    half of a pair.
  - `lastIndexOf_spec`: the index found is that of the unit, not behind the position asked for.
-/
import FlowHelm.Lib.Utf16

namespace Js

/-- `s.isWellFormed()`. -/
def isWellFormed : JsString → Bool
  | [] => true
  | [u] => !isHighSurrogate u && !isLowSurrogate u
  | u :: v :: rest =>
    if isHighSurrogate u then isLowSurrogate v && isWellFormed rest
    else !isLowSurrogate u && isWellFormed (v :: rest)

/-- The last unit is the first half of a pair. -/
def endsHigh (s : JsString) : Bool := s.getLast?.any isHighSurrogate

variable {u v : UInt16} {p q s : JsString}

theorem isLow_of_high (h : isHighSurrogate u = true) : isLowSurrogate u = false := by
  simp only [isHighSurrogate, isLowSurrogate, Bool.and_eq_true, Bool.and_eq_false_iff, decide_eq_true_eq, decide_eq_false_iff_not,
    UInt16.le_iff_toNat_le] at h ⊢
  simp at h ⊢
  omega

@[simp] theorem isWellFormed_nil : isWellFormed [] = true := rfl

theorem isWellFormed_singleton : isWellFormed [u] = (!isHighSurrogate u && !isLowSurrogate u) := rfl

theorem isWellFormed_pair (hhigh : isHighSurrogate u = true) :
    isWellFormed (u :: v :: s) = (isLowSurrogate v && isWellFormed s) := if_pos hhigh

theorem isWellFormed_cons (hhigh : isHighSurrogate u = false) :
    isWellFormed (u :: s) = (!isLowSurrogate u && isWellFormed s) := by
  cases s with
  | nil => simp [isWellFormed_singleton, hhigh]
  | cons v s => exact if_neg (Bool.eq_false_iff.mp hhigh)

/-- Text is read from its front: the first half of a pair with the unit behind it, or one unit. -/
@[elab_as_elim] theorem units_induction {motive : JsString → Prop} (nil : motive []) (single : ∀ u, motive [u])
    (pair : ∀ u v rest, isHighSurrogate u = true → motive rest → motive (u :: v :: rest))
    (cons : ∀ u v rest, isHighSurrogate u = false → motive (v :: rest) → motive (u :: v :: rest)) (s : JsString) : motive s := by
  fun_induction isWellFormed s with
  | case1 => exact nil
  | case2 u => exact single u
  | case3 u v rest hhigh ih => exact pair u v rest hhigh ih
  | case4 u v rest hhigh ih => exact cons u v rest (Bool.eq_false_iff.mpr hhigh) ih

theorem isWellFormed_plain (hhigh : isHighSurrogate u = false) (hlow : isLowSurrogate u = false) :
    isWellFormed (u :: s) = isWellFormed s := by
  simp [isWellFormed_cons hhigh, hlow]

theorem isWellFormed_utf16 (c : Char) : isWellFormed (utf16 c ++ s) = isWellFormed s := by
  by_cases h : c.toNat < 0x10000
  · obtain ⟨u, hunits, -, hhigh, hlow⟩ := utf16_small h
    rw [hunits, List.singleton_append, isWellFormed_plain hhigh hlow]
  · obtain ⟨u, v, hunits, hhigh, hlow, -⟩ := utf16_large (Nat.le_of_not_lt h)
    simp [hunits, isWellFormed_pair hhigh, hlow]

theorem isWellFormed_flatMap (text : List Char) : isWellFormed (text.flatMap utf16) = true := by
  induction text with
  | nil => rfl
  | cons c text ih => rw [List.flatMap_cons, isWellFormed_utf16, ih]

/-- Well-formed text is that of some characters. -/
theorem isWellFormed_iff : isWellFormed s = true ↔ ∃ text : List Char, s = text.flatMap utf16 := by
  constructor
  · intro h
    induction s using units_induction with
    | nil => exact ⟨[], rfl⟩
    | single u =>
      simp only [isWellFormed_singleton, Bool.and_eq_true, Bool.not_eq_true'] at h
      exact ⟨[Char.ofNat u.toNat], by simp [utf16_unit h.1 h.2]⟩
    | pair u v rest hhigh ih =>
      rw [isWellFormed_pair hhigh, Bool.and_eq_true] at h
      obtain ⟨text, rfl⟩ := ih h.2
      exact ⟨pairChar u v :: text, by simp [utf16_pair hhigh h.1]⟩
    | cons u v rest hhigh ih =>
      simp only [isWellFormed_cons hhigh, Bool.and_eq_true, Bool.not_eq_true'] at h ih
      obtain ⟨text, htext⟩ := ih h.2
      exact ⟨Char.ofNat u.toNat :: text, by simp [utf16_unit hhigh h.1, ← htext]⟩
  · rintro ⟨text, rfl⟩
    exact isWellFormed_flatMap text

theorem isWellFormed_append (hp : isWellFormed p = true) (hq : isWellFormed q = true) : isWellFormed (p ++ q) = true := by
  obtain ⟨text, rfl⟩ := isWellFormed_iff.mp hp
  obtain ⟨more, rfl⟩ := isWellFormed_iff.mp hq
  rw [← List.flatMap_append]
  exact isWellFormed_flatMap _

/-- Any text may be cut at a unit that is no surrogate. -/
theorem isWellFormed_append_plain (hhigh : isHighSurrogate u = false) (hlow : isLowSurrogate u = false) :
    isWellFormed (p ++ u :: q) = (isWellFormed p && isWellFormed q) := by
  induction p using units_induction with
  | nil => simp [isWellFormed_plain hhigh hlow]
  | single v =>
    by_cases hv : isHighSurrogate v = true
    · simp [isWellFormed_pair hv, isWellFormed_singleton, hv, hlow]
    · rw [List.singleton_append, isWellFormed_cons (Bool.eq_false_iff.mpr hv), isWellFormed_plain hhigh hlow]
      simp [isWellFormed_singleton, hv]
  | pair v w rest hv ih => simp [isWellFormed_pair hv, ih, Bool.and_assoc]
  | cons v w rest hv ih =>
    rw [List.cons_append, isWellFormed_cons hv, ih, isWellFormed_cons hv, Bool.and_assoc]

theorem isWellFormed_join {xs : List JsString} (hsep : isWellFormed s = true) (h : ∀ x ∈ xs, isWellFormed x = true) :
    isWellFormed (join s xs) = true := by
  induction xs with
  | nil => rfl
  | cons x xs ih =>
    obtain ⟨hx, hxs⟩ := List.forall_mem_cons.mp h
    cases xs with
    | nil => exact hx
    | cons y xs =>
      rw [join]
      exact isWellFormed_append (isWellFormed_append hx hsep) (ih hxs)

/-! ## Cuts -/

@[simp] theorem endsHigh_nil : endsHigh [] = false := rfl

@[simp] theorem endsHigh_singleton : endsHigh [u] = isHighSurrogate u := by simp [endsHigh]

@[simp] theorem endsHigh_cons_cons : endsHigh (u :: v :: s) = endsHigh (v :: s) := by simp [endsHigh, List.getLast?_cons_cons]

/-- What ends in the first half of a pair lacks the second. -/
theorem isWellFormed_endsHigh (h : endsHigh s = true) : isWellFormed s = false := by
  induction s using units_induction with
  | nil => simp at h
  | single u => simp [isWellFormed_singleton, show isHighSurrogate u = true by simpa using h]
  | pair u v rest hhigh ih =>
    rw [isWellFormed_pair hhigh]
    cases rest with
    | nil =>
      have hv : isHighSurrogate v = true := by simpa using h
      simp [isLow_of_high hv]
    | cons w rest => simp [ih (by simpa using h)]
  | cons u v rest hhigh ih => simp [isWellFormed_cons hhigh, ih (by simpa using h)]

theorem isWellFormed_cut (h : isWellFormed (p ++ q) = true) (hend : endsHigh p = false) :
    isWellFormed p = true ∧ isWellFormed q = true := by
  induction p using units_induction with
  | nil => exact ⟨rfl, h⟩
  | single u =>
    have hhigh : isHighSurrogate u = false := by simpa using hend
    rw [List.singleton_append, isWellFormed_cons hhigh, Bool.and_eq_true] at h
    exact ⟨by rw [isWellFormed_cons hhigh, h.1, isWellFormed_nil, Bool.and_self], h.2⟩
  | pair u v rest hhigh ih =>
    rw [List.cons_append, List.cons_append, isWellFormed_pair hhigh, Bool.and_eq_true] at h
    have hrest : endsHigh rest = false := by
      cases rest with
      | nil => rfl
      | cons w rest => simpa using hend
    have hparts := ih h.2 hrest
    exact ⟨by rw [isWellFormed_pair hhigh, h.1, hparts.1, Bool.and_self], hparts.2⟩
  | cons u v rest hhigh ih =>
    rw [List.cons_append, isWellFormed_cons hhigh, Bool.and_eq_true] at h
    have hparts := ih h.2 (by simpa using hend)
    exact ⟨by rw [isWellFormed_cons hhigh, h.1, hparts.1, Bool.and_self], hparts.2⟩

/-- Behind the first half of a pair comes the second. -/
theorem isLow_of_endsHigh (h : isWellFormed (p ++ u :: q) = true) (hend : endsHigh p = true) : isLowSurrogate u = true := by
  induction p using units_induction with
  | nil => simp at hend
  | single v =>
    have hhigh : isHighSurrogate v = true := by simpa using hend
    rw [List.singleton_append, isWellFormed_pair hhigh, Bool.and_eq_true] at h
    exact h.1
  | pair v w rest hhigh ih =>
    rw [List.cons_append, List.cons_append, isWellFormed_pair hhigh, Bool.and_eq_true] at h
    cases rest with
    | nil =>
      have hw : isHighSurrogate w = true := by simpa using hend
      simp [isLow_of_high hw] at h
    | cons x rest => exact ih h.2 (by simpa using hend)
  | cons v w rest hhigh ih =>
    rw [List.cons_append, isWellFormed_cons hhigh, Bool.and_eq_true] at h
    exact ih h.2 (by simpa using hend)

/-! ## Trimming and searching -/

def isWhiteUnit (u : UInt16) : Bool := isWhite (Char.ofNat u.toNat)

/-- `s.trimStart()`. -/
def trimStart (s : JsString) : JsString := s.dropWhile isWhiteUnit

/-- `s.lastIndexOf(unit, position)`; `none` is -1. -/
def lastIndexOf (unit : UInt16) (s : JsString) : Nat → Option Nat
  | 0 => if s[0]? = some unit then some 0 else none
  | n + 1 => if s[n + 1]? = some unit then some (n + 1) else lastIndexOf unit s n

theorem isWhiteUnit_plain (h : isWhiteUnit u = true) : isHighSurrogate u = false ∧ isLowSurrogate u = false := by
  apply surrogate_false.mpr
  by_cases hvalid : u.toNat.isValidChar
  · exact hvalid.imp_right And.left
  · rw [isWhiteUnit, Char.ofNat, dif_neg hvalid] at h
    exact absurd h (by decide)

theorem isWellFormed_trimStart (h : isWellFormed s = true) : isWellFormed (trimStart s) = true := by
  induction s with
  | nil => rfl
  | cons u s ih =>
    by_cases hwhite : isWhiteUnit u = true
    · rw [trimStart, List.dropWhile_cons_of_pos hwhite]
      have hplain := isWhiteUnit_plain hwhite
      exact ih (isWellFormed_plain hplain.1 hplain.2 ▸ h)
    · rwa [trimStart, List.dropWhile_cons_of_neg hwhite]

theorem trimStart_length_le (s : JsString) : (trimStart s).length ≤ s.length := (List.dropWhile_sublist _).length_le

theorem lastIndexOf_spec {unit : UInt16} {position i : Nat} (h : lastIndexOf unit s position = some i) :
    i ≤ position ∧ s[i]? = some unit := by
  induction position with
  | zero =>
    simp only [lastIndexOf, Option.ite_none_right_eq_some, Option.some.injEq] at h
    obtain ⟨hunit, rfl⟩ := h
    exact ⟨Nat.le_refl _, hunit⟩
  | succ n ih =>
    rw [lastIndexOf] at h
    split at h
    · rename_i hunit
      obtain rfl := Option.some.inj h
      exact ⟨Nat.le_refl _, hunit⟩
    · have hi := ih h
      exact ⟨by omega, hi.2⟩

theorem lastIndexOf_none {unit : UInt16} (h : unit ∉ s) (position : Nat) : lastIndexOf unit s position = none := by
  cases hindex : lastIndexOf unit s position with
  | none => rfl
  | some i => exact absurd (List.mem_of_getElem? (lastIndexOf_spec hindex).2) h

end Js
