/-
  FlowHelm.Lib.ReedSolomon — words that a polynomial's roots make a code.

  A word is its coefficients, the highest degree first, and `evalAt` its value at a point. Where a
  word that is not zero has the roots x^0, ..., x^(e-1), more than `e` of its coefficients are not
  zero: the Vandermonde matrix at the places of fewer is regular. So two words with these roots
  differ in more than `e` places, and half as many damaged ones leave them apart.

  - `evalAt_append` / `evalAt_modify`: the value of words put together, and of a coefficient changed.
  - `weight_lt`: the weight of a word with these roots.
  - `codes_apart` / `decodes_once`: for two of them.
-/
import Mathlib.Data.List.GetD
import Mathlib.LinearAlgebra.Vandermonde

namespace ReedSolomon

section Values

variable {R : Type*} [CommRing R]

def evalAt (x : R) (cs : List R) : R := cs.foldl (fun acc c => acc * x + c) 0

@[simp] theorem evalAt_nil (x : R) : evalAt x [] = 0 := rfl

theorem evalAt_concat (x : R) (cs : List R) (c : R) : evalAt x (cs ++ [c]) = evalAt x cs * x + c := by
  simp [evalAt, List.foldl_append]

theorem evalAt_append (x : R) (cs ds : List R) : evalAt x (cs ++ ds) = evalAt x cs * x ^ ds.length + evalAt x ds := by
  induction ds using List.reverseRecOn with
  | nil => simp
  | append_singleton ds d ih =>
    rw [← List.append_assoc, evalAt_concat, evalAt_concat, ih, List.length_append, List.length_singleton, pow_succ]
    ring

theorem evalAt_cons (x : R) (c : R) (cs : List R) : evalAt x (c :: cs) = c * x ^ cs.length + evalAt x cs := by
  have happend := evalAt_append x [c] cs
  simpa [evalAt] using happend

@[simp] theorem evalAt_zeros (x : R) (n : Nat) : evalAt x (List.replicate n 0) = 0 := by
  induction n with
  | zero => rfl
  | succ n ih => rw [List.replicate_succ, evalAt_cons, ih]; ring

/-- One coefficient changed by `d`. -/
theorem evalAt_modify (x d : R) {cs : List R} {k : Nat} (hk : k < cs.length) :
    evalAt x (cs.modify k (· + d)) = evalAt x cs + d * x ^ (cs.length - 1 - k) := by
  induction cs generalizing k with
  | nil => simp at hk
  | cons c cs ih =>
    cases k with
    | zero =>
      rw [List.modify_zero_cons, evalAt_cons, evalAt_cons]
      simp only [List.length_cons, Nat.add_sub_cancel, Nat.sub_zero]
      ring
    | succ k =>
      have hk' : k < cs.length := by simpa using hk
      rw [List.modify_succ_cons, evalAt_cons, evalAt_cons, ih hk', List.length_modify, List.length_cons,
        show cs.length + 1 - 1 - (k + 1) = cs.length - 1 - k by omega]
      ring

theorem evalAt_sub (x : R) {cs ds : List R} (h : cs.length = ds.length) :
    evalAt x (List.zipWith (· - ·) cs ds) = evalAt x cs - evalAt x ds := by
  induction cs generalizing ds with
  | nil => simp [List.length_eq_zero_iff.mp h.symm]
  | cons c cs ih =>
    cases ds with
    | nil => simp at h
    | cons d ds =>
      have hlength : cs.length = ds.length := by simpa using h
      rw [List.zipWith_cons_cons, evalAt_cons, evalAt_cons, evalAt_cons, ih hlength, List.length_zipWith, ← hlength, Nat.min_self]
      ring

theorem evalAt_eq_sum (x : R) (cs : List R) :
    evalAt x cs = ∑ k ∈ Finset.range cs.length, cs.getD k 0 * x ^ (cs.length - 1 - k) := by
  induction cs with
  | nil => simp
  | cons c cs ih =>
    rw [evalAt_cons, ih, List.length_cons, Finset.sum_range_succ']
    simp only [List.getD_cons_succ, List.getD_cons_zero, Nat.add_sub_cancel, Nat.sub_zero]
    rw [add_comm]
    congr 1
    refine Finset.sum_congr rfl fun k _ => ?_
    rw [show cs.length - (k + 1) = cs.length - 1 - k by omega]

/-! ## Weights -/

/-- The places that are not zero. -/
def support [DecidableEq R] (cs : List R) : Finset Nat := (Finset.range cs.length).filter fun k => cs.getD k 0 ≠ 0

variable [DecidableEq R]

theorem card_support (cs : List R) : (support cs).card = cs.countP (· ≠ 0) := by
  induction cs using List.reverseRecOn with
  | nil => rfl
  | append_singleton cs c ih =>
    unfold support at ih ⊢
    rw [List.length_append, List.length_singleton, Finset.range_add_one, Finset.filter_insert, List.countP_append, ← ih]
    have hsame : (Finset.range cs.length).filter (fun k => (cs ++ [c]).getD k 0 ≠ 0) =
        (Finset.range cs.length).filter fun k => cs.getD k 0 ≠ 0 := by
      refine Finset.filter_congr fun k hk => ?_
      rw [List.getD_append _ _ _ _ (Finset.mem_range.mp hk)]
    rw [hsame]
    by_cases hc : c = 0
    · simp [hc]
    · simp [hc]

variable [IsDomain R]

/-- A word with the roots x^0, ..., x^(e-1) and no more than `e` places is zero. -/
theorem support_eq_empty {x : R} {cs : List R} {e : Nat} (hx : Set.InjOn (x ^ ·) (Set.Iio cs.length))
    (hroots : ∀ i < e, evalAt (x ^ i) cs = 0) (hfew : (support cs).card ≤ e) : support cs = ∅ := by
  let place : Fin (support cs).card ≃ support cs := (support cs).equivFin.symm
  have hlt : ∀ j, (place j : Nat) < cs.length := fun j => Finset.mem_range.mp (Finset.mem_filter.mp (place j).2).1
  have hinj : Function.Injective fun j => x ^ (cs.length - 1 - (place j : Nat)) := by
    intro j k hjk
    have hj := hlt j
    have hk := hlt k
    have heq := hx (by simp only [Set.mem_Iio]; omega) (by simp only [Set.mem_Iio]; omega) hjk
    exact place.injective (Subtype.ext (by omega))
  have hzero : (fun j => cs.getD (place j) 0) = 0 := by
    refine Matrix.eq_zero_of_forall_pow_sum_mul_pow_eq_zero hinj fun i => ?_
    have hroot := hroots i (lt_of_lt_of_le i.2 hfew)
    rw [evalAt_eq_sum] at hroot
    calc ∑ j, cs.getD (place j) 0 * (x ^ (cs.length - 1 - (place j : Nat))) ^ (i : Nat)
        = ∑ k : support cs, cs.getD k 0 * (x ^ (cs.length - 1 - (k : Nat))) ^ (i : Nat) :=
          place.sum_comp fun k : support cs => cs.getD k 0 * (x ^ (cs.length - 1 - (k : Nat))) ^ (i : Nat)
      _ = ∑ k ∈ support cs, cs.getD k 0 * (x ^ (cs.length - 1 - k)) ^ (i : Nat) :=
          Finset.sum_coe_sort (support cs) fun k => cs.getD k 0 * (x ^ (cs.length - 1 - k)) ^ (i : Nat)
      _ = ∑ k ∈ Finset.range cs.length, cs.getD k 0 * (x ^ (cs.length - 1 - k)) ^ (i : Nat) := by
          refine Finset.sum_subset (Finset.filter_subset ..) fun k hk hnot => ?_
          have hc : cs.getD k 0 = 0 := by
            by_contra hc
            exact hnot (Finset.mem_filter.mpr ⟨hk, hc⟩)
          rw [hc, zero_mul]
      _ = 0 := by
          refine (Finset.sum_congr rfl fun k _ => ?_).trans hroot
          rw [← pow_mul, ← pow_mul, Nat.mul_comm]
  by_contra hne
  obtain ⟨k, hk⟩ := Finset.nonempty_iff_ne_empty.mpr hne
  have hk0 := congrFun hzero (place.symm ⟨k, hk⟩)
  simp only [Equiv.apply_symm_apply, Pi.zero_apply] at hk0
  exact (Finset.mem_filter.mp hk).2 hk0

theorem weight_lt {x : R} {cs : List R} {e : Nat} (hx : Set.InjOn (x ^ ·) (Set.Iio cs.length))
    (hroots : ∀ i < e, evalAt (x ^ i) cs = 0) (hne : ∃ c ∈ cs, c ≠ 0) : e < cs.countP (· ≠ 0) := by
  by_contra hfew
  rw [not_lt, ← card_support] at hfew
  have hcard : cs.countP (· ≠ 0) = 0 := by
    rw [← card_support, support_eq_empty hx hroots hfew, Finset.card_empty]
  obtain ⟨c, hc, hc0⟩ := hne
  exact List.countP_eq_zero.mp hcard c hc (decide_eq_true hc0)

end Values

/-! ## Distances -/

section Distances

variable {A B : Type*} [DecidableEq A] [DecidableEq B]

/-- In how many places two words differ. -/
def distance (as bs : List A) : Nat := (as.zip bs).countP fun p => p.1 ≠ p.2

@[simp] theorem distance_cons (a b : A) (as bs : List A) :
    distance (a :: as) (b :: bs) = distance as bs + if a = b then 0 else 1 := by
  unfold distance
  rw [List.zip_cons_cons, List.countP_cons]
  by_cases hab : a = b <;> simp [hab]

theorem distance_comm (as bs : List A) : distance as bs = distance bs as := by
  induction as generalizing bs with
  | nil => cases bs <;> simp [distance]
  | cons a as ih =>
    cases bs with
    | nil => simp [distance]
    | cons b bs => simp [ih bs, eq_comm]

theorem distance_triangle {as bs cs : List A} (hab : as.length = bs.length) (hbc : bs.length = cs.length) :
    distance as cs ≤ distance as bs + distance bs cs := by
  induction as generalizing bs cs with
  | nil => simp [distance]
  | cons a as ih =>
    obtain ⟨b, bs, rfl⟩ := List.exists_cons_of_length_eq_add_one hab.symm
    obtain ⟨c, cs, rfl⟩ := List.exists_cons_of_length_eq_add_one (hbc.symm.trans hab.symm)
    have hab' : as.length = bs.length := by simpa using hab
    have hbc' : bs.length = cs.length := by simpa using hbc
    have hle := ih hab' hbc'
    have hone : (if a = c then 0 else 1) ≤ (if a = b then 0 else 1) + if b = c then 0 else 1 := by
      by_cases heq : a = b
      · simp [heq]
      · rw [if_neg heq]
        split <;> omega
    simp only [distance_cons]
    omega

theorem distance_map {f : A → B} (hf : Function.Injective f) (as bs : List A) :
    distance (as.map f) (bs.map f) = distance as bs := by
  induction as generalizing bs with
  | nil => simp [distance]
  | cons a as ih =>
    cases bs with
    | nil => simp [distance]
    | cons b bs => simp [ih bs, hf.eq_iff]

/-- Words of one length that are near to what was received are one. -/
theorem decodes_once {as bs received : List A} {e : Nat} (ha : as.length = received.length) (hb : bs.length = received.length)
    (hapart : as ≠ bs → e < distance as bs) (hnear : distance as received ≤ e / 2) (hnear' : distance bs received ≤ e / 2) :
    as = bs := by
  by_contra hne
  have hfar := hapart hne
  have htriangle := distance_triangle ha hb.symm
  rw [distance_comm bs] at hnear'
  omega

variable {R : Type*} [CommRing R] [DecidableEq R]

theorem distance_eq_countP {as bs : List R} : distance as bs = (List.zipWith (· - ·) as bs).countP (· ≠ 0) := by
  induction as generalizing bs with
  | nil => simp [distance]
  | cons a as ih =>
    cases bs with
    | nil => simp [distance]
    | cons b bs =>
      rw [distance_cons, List.zipWith_cons_cons, List.countP_cons, ih]
      by_cases hab : a = b
      · simp [hab]
      · simp [hab, sub_ne_zero.mpr hab]

theorem codes_apart [IsDomain R] {x : R} {as bs : List R} {e : Nat} (hx : Set.InjOn (x ^ ·) (Set.Iio as.length))
    (hlength : as.length = bs.length) (ha : ∀ i < e, evalAt (x ^ i) as = 0) (hb : ∀ i < e, evalAt (x ^ i) bs = 0)
    (hne : as ≠ bs) :
    e < distance as bs := by
  rw [distance_eq_countP]
  refine weight_lt (x := x) (by simpa [hlength] using hx) (fun i hi => ?_) ?_
  · rw [evalAt_sub _ hlength, ha i hi, hb i hi, sub_zero]
  · by_contra hzero
    simp only [not_exists, not_and, not_not] at hzero
    refine hne (List.ext_getElem hlength fun k hk hk' => sub_eq_zero.mp (hzero _ ?_))
    rw [← List.getElem_zipWith (h := by simpa using ⟨hk, hk'⟩) (f := (· - ·))]
    exact List.getElem_mem _

end Distances

end ReedSolomon
