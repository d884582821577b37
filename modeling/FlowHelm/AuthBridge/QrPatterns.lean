/-
  FlowHelm.AuthBridge.QrPatterns — qr.ts: the function patterns of the symbols.

  The eighth bit of the second copy of the format information is written on the dark module, and
  the module it belongs to, at (8, size - 8), stays light. All else is as prescribed.

  - `generated_patterns`: what every symbol has.
  - `never_intact`: one of the two modules is always wrong.
-/
import FlowHelm.AuthBridge.QrRoundTrip
import FlowHelm.Lib.QrReader

namespace FlowHelm.AuthBridge

open Js Qr Filling

/-! ## What is placed -/

variable {d : Draft} {p : Int × Int}

theorem matrix_place_of_ne {q : Int × Int} (h : p ≠ q) (dark : Bool) : (d.place q dark).matrix p = d.matrix p :=
  Function.update_of_ne h ..

theorem matrix_reserve (q : Int × Int) : (d.reserve q).matrix = d.matrix := by
  unfold Draft.reserve
  split
  · rfl
  · rfl

/-- A module that is placed with `b` wherever it is placed. -/
theorem matrix_place_iff {q : Int × Int} {dark b : Bool} (h : p = q → dark = b) :
    (d.place q dark).matrix p = some b ↔ d.matrix p = some b ∨ p = q := by
  by_cases hpq : p = q
  · subst hpq
    simp [Draft.place, h rfl]
  · rw [matrix_place_of_ne hpq, or_iff_left hpq]

theorem placeFinder_matrix {size row col : Int} (h : InFinder size row col p) :
    (d.placeFinder size row col).matrix p = some (Draft.finderDark (p.1 - row) (p.2 - col)) := by
  have hmarks := mem_finder.mpr h
  refine (foldl_iff₂ (P := fun d : Draft => d.matrix p = some (Draft.finderDark (p.1 - row) (p.2 - col)))
    (fun d r c => ?_) _ _ _).mpr (.inr hmarks)
  dsimp only
  split
  · rename_i hout
    rw [or_iff_left fun h => absurd h.1 (by omega)]
  · rename_i hin
    rw [matrix_place_iff, and_iff_right (by omega)]
    rintro rfl
    simp

theorem placeFinder_other {size row col : Int} (h : ¬InFinder size row col p) :
    (d.placeFinder size row col).matrix p = d.matrix p := by
  rw [← mem_finder] at h
  unfold Draft.placeFinder
  refine List.foldlRecOn (motive := fun d' : Draft => d'.matrix p = d.matrix p) _ _ rfl fun d' hd r hr =>
    List.foldlRecOn (motive := fun d' : Draft => d'.matrix p = d.matrix p) _ _ hd fun d' hd c hc => ?_
  dsimp only
  split
  · exact hd
  · rw [matrix_place_of_ne, hd]
    rintro rfl
    exact h ⟨r, hr, c, hc, by omega, rfl⟩

theorem placeAlignmentAt_matrix {row col : Int} (h : InAlignment row col p) :
    (d.placeAlignmentAt row col).matrix p =
      some ((p.1 - row).natAbs == 2 || (p.2 - col).natAbs == 2 || (p.1 - row == 0 && p.2 - col == 0)) := by
  refine (foldl_iff₂ (P := fun d : Draft => d.matrix p = some ((p.1 - row).natAbs == 2 || (p.2 - col).natAbs == 2 ||
    (p.1 - row == 0 && p.2 - col == 0))) (fun d r c => ?_) _ _ _).mpr (.inr (mem_alignment.mpr h))
  rw [matrix_place_iff]
  rintro rfl
  simp

theorem placeAlignmentAt_other {row col : Int} (h : ¬InAlignment row col p) :
    (d.placeAlignmentAt row col).matrix p = d.matrix p := by
  rw [← mem_alignment] at h
  unfold Draft.placeAlignmentAt
  refine List.foldlRecOn (motive := fun d' : Draft => d'.matrix p = d.matrix p) _ _ rfl fun d' hd r hr =>
    List.foldlRecOn (motive := fun d' : Draft => d'.matrix p = d.matrix p) _ _ hd fun d' hd c hc => ?_
  rw [matrix_place_of_ne, hd]
  rintro rfl
  exact h ⟨r, hr, c, hc, rfl⟩

/-- A timing module that is not there yet. -/
theorem placeTiming_matrix {size : Int} {b : Bool} (hb : ∀ i, p = (6, i) ∨ p = (i, 6) → b = (i % 2 == 0)) (h : InTiming size p)
    (hnew : d.matrix p = none) : (d.placeTiming size).matrix p = some b := by
  have hplace : ∀ (d : Draft) (q : Int × Int) (dark : Bool), (p = q → dark = b) → (d.matrix p = none ∨ d.matrix p = some b) →
      ((if d.matrix q = none then d.place q dark else d).matrix p = none ∨
        (if d.matrix q = none then d.place q dark else d).matrix p = some b) ∧
      ((if d.matrix q = none then d.place q dark else d).matrix p = some b ↔ d.matrix p = some b ∨ p = q) := by
    intro d q dark hdark hd
    split
    · rename_i hq
      have hiff := matrix_place_iff (d := d) hdark
      refine ⟨?_, hiff⟩
      by_cases hpq : p = q
      · exact .inr (hiff.mpr (.inr hpq))
      · rw [matrix_place_of_ne hpq]
        exact hd
    · rename_i hq
      refine ⟨hd, ⟨.inl, fun hp => hp.elim id ?_⟩⟩
      rintro rfl
      exact hd.resolve_left hq
  refine (foldl_marks (I := fun d : Draft => d.matrix p = none ∨ d.matrix p = some b) (P := fun d : Draft => d.matrix p = some b)
    (fun d i hd => ?_) (fun d i hd => ?_) _ (.inl hnew)).2.mpr (.inr (mem_timing.mpr h))
  · have hrow := hplace d (6, i) (i % 2 == 0) (fun hp => (hb i (.inl hp)).symm) hd
    exact (hplace _ (i, 6) (i % 2 == 0) (fun hp => (hb i (.inr hp)).symm) hrow.1).1
  · have hrow := hplace d (6, i) (i % 2 == 0) (fun hp => (hb i (.inl hp)).symm) hd
    exact (hplace _ (i, 6) (i % 2 == 0) (fun hp => (hb i (.inr hp)).symm) hrow.1).2.trans (by rw [hrow.2, or_assoc])

theorem placeTiming_other {size : Int} (h : ¬InTiming size p) : (d.placeTiming size).matrix p = d.matrix p := by
  rw [← mem_timing] at h
  have hplace : ∀ (d : Draft) (q : Int × Int) (dark : Bool), p ≠ q →
      (if d.matrix q = none then d.place q dark else d).matrix p = d.matrix p := by
    intro d q dark hpq
    split
    · exact matrix_place_of_ne hpq dark
    · rfl
  refine List.foldlRecOn (motive := fun d' : Draft => d'.matrix p = d.matrix p) _ _ rfl fun d' hd i hi => ?_
  dsimp only
  rw [hplace _ (i, 6) _ fun hp => h ⟨i, hi, .inr hp⟩, hplace _ (6, i) _ fun hp => h ⟨i, hi, .inl hp⟩, hd]

theorem reserveFormat_matrix (size : Int) (d : Draft) : (d.reserveFormat size).matrix = d.matrix := by
  unfold Draft.reserveFormat
  refine List.foldlRecOn (motive := fun d' : Draft => d'.matrix = d.matrix) _ _
    (List.foldlRecOn (motive := fun d' : Draft => d'.matrix = d.matrix) _ _
      (List.foldlRecOn (motive := fun d' : Draft => d'.matrix = d.matrix) _ _ rfl fun d' hd i _ => ?_)
      fun d' hd i _ => ?_)
    fun d' hd i _ => ?_
  · rw [matrix_reserve, matrix_reserve, hd]
  · rw [matrix_reserve, hd]
  · rw [matrix_reserve, hd]

/-! ## What there is when data is placed -/

variable {v : Version}

theorem timed_matrix (h : ¬InTiming v.size p) : (timed v).matrix p =
    (((Draft.empty.placeFinder v.size 0 0).placeFinder v.size 0 (v.size - 7)).placeFinder v.size (v.size - 7) 0).matrix p :=
  placeTiming_other h

/-- The dark module and the alignment pattern aside, finders and timing are left alone. -/
theorem functionPatterns_timed (hdark : p ≠ ((v.size : Int) - 8, 8)) (h : v ≠ .v1 → ¬InAlignment (v.size - 7) (v.size - 7) p) :
    (functionPatterns v).matrix p = (timed v).matrix p := by
  unfold functionPatterns
  dsimp only
  rw [reserveFormat_matrix, matrix_place_of_ne hdark]
  show ((timed v).placeAlignment v.alignmentPositions).matrix p = _
  rw [aligned_eq]
  split
  · rfl
  · rename_i hv
    exact placeAlignmentAt_other (h hv)

theorem size_of_ne (h : v ≠ .v1) : 25 ≤ v.size := by
  cases v with
  | v1 => exact absurd rfl h
  | _ => decide

theorem finder_matrix {row col : Int} (hcorner : (row = 0 ∧ col = 0) ∨ (row = 0 ∧ col = v.size - 7) ∨
    (row = v.size - 7 ∧ col = 0))
    (h : InFinder v.size row col p) : (functionPatterns v).matrix p = some (Draft.finderDark (p.1 - row) (p.2 - col)) := by
  have hsize := size_ge v
  have hin := h
  obtain ⟨hrow, hcol, hr, hc⟩ := hin
  rw [functionPatterns_timed, timed_matrix]
  · rcases hcorner with ⟨rfl, rfl⟩ | ⟨rfl, rfl⟩ | ⟨rfl, rfl⟩
    · rw [placeFinder_other, placeFinder_other, placeFinder_matrix h]
      all_goals
        unfold InFinder
        omega
    · rw [placeFinder_other, placeFinder_matrix h]
      unfold InFinder
      omega
    · exact placeFinder_matrix h
  · unfold InTiming
    omega
  · rintro rfl
    dsimp only at hrow hcol
    omega
  · intro hv
    have := size_of_ne hv
    unfold InAlignment
    omega

theorem timing_matrix {b : Bool} (hb : ∀ i, p = (6, i) ∨ p = (i, 6) → b = (i % 2 == 0)) (h : InTiming v.size p) :
    (functionPatterns v).matrix p = some b := by
  have hsize := size_ge v
  have hin := h
  unfold InTiming at hin
  rw [functionPatterns_timed]
  · refine placeTiming_matrix hb h ?_
    rw [placeFinder_other, placeFinder_other, placeFinder_other]
    · rfl
    all_goals
      unfold InFinder
      omega
  · rintro rfl
    dsimp only at hin
    omega
  · intro hv
    have := size_of_ne hv
    unfold InAlignment
    omega

theorem alignment_matrix (hv : v ≠ .v1) (h : InAlignment (v.size - 7) (v.size - 7) p) : (functionPatterns v).matrix p =
    some ((p.1 - (v.size - 7)).natAbs == 2 || (p.2 - (v.size - 7)).natAbs == 2 ||
      (p.1 - (v.size - 7) == 0 && p.2 - (v.size - 7) == 0)) := by
  have hsize := size_of_ne hv
  have hdark : p ≠ ((v.size : Int) - 8, 8) := by
    rintro rfl
    unfold InAlignment at h
    dsimp only at h
    omega
  unfold functionPatterns
  dsimp only
  rw [reserveFormat_matrix, matrix_place_of_ne hdark]
  show ((timed v).placeAlignment v.alignmentPositions).matrix p = _
  rw [aligned_eq, if_neg hv, placeAlignmentAt_matrix h]

/-- The module that is reserved for the eighth bit of the second copy. -/
theorem corner_matrix (v : Version) : (functionPatterns v).matrix (8, (v.size : Int) - 8) = none := by
  have hsize := size_ge v
  rw [functionPatterns_timed, timed_matrix, placeFinder_other, placeFinder_other, placeFinder_other]
  · rfl
  · unfold InFinder
    omega
  · unfold InFinder
    omega
  · unfold InFinder
    omega
  · unfold InTiming
    omega
  · simp only [ne_eq, Prod.mk.injEq]
    omega
  · intro hv
    have := size_of_ne hv
    unfold InAlignment
    omega

/-! ## What is left at the end -/

theorem buildMatrix_reserved (h : (functionPatterns v).reserved p = true) (codewords : List UInt8) :
    buildMatrix codewords v p = ((functionPatterns v).matrix p == some true) := by
  have hsame : ((visits v.size).foldl (placeBit (functionPatterns v).reserved (codewords.flatMap fun cw => Bits.ofNat 8 cw.toNat))
      ((functionPatterns v).matrix, 0)).1 p = (functionPatterns v).matrix p := by
    refine List.foldlRecOn (motive := fun s : (Int × Int → Option Bool) × Nat => s.1 p = (functionPatterns v).matrix p) _ _ rfl
      fun s hs q _ => ?_
    unfold placeBit
    split
    · exact hs
    · rename_i hq
      refine (Function.update_of_ne ?_ ..).trans hs
      rintro rfl
      exact hq h
  unfold buildMatrix
  rw [hsame]

/-- Where the format information is written. -/
def Written (size : Int) (p : Int × Int) : Prop :=
  (p.1 = 8 ∧ p.2 ≠ 6 ∧ (0 ≤ p.2 ∧ p.2 ≤ 8 ∨ size - 7 ≤ p.2 ∧ p.2 < size)) ∨
    (p.2 = 8 ∧ p.1 ≠ 6 ∧ (0 ≤ p.1 ∧ p.1 ≤ 8 ∨ size - 8 ≤ p.1 ∧ p.1 < size))

theorem writeFormatInfo_other {size : Int} (h : ¬Written size p) (matrix : Int × Int → Bool) (m : Nat) (hsize : 21 ≤ size) :
    writeFormatInfo size matrix m p = matrix p := by
  have hne : ∀ q : Int × Int, Written size q → p ≠ q := by
    rintro q hq rfl
    exact h hq
  unfold Written at hne
  refine List.foldlRecOn (motive := fun matrix' : Int × Int → Bool => matrix' p = matrix p) _ _ rfl fun matrix' hsame i hi => ?_
  have hi := List.mem_range.mp hi
  by_cases hfirst : i < 8
  · rw [if_pos hfirst, if_pos hfirst, Function.update_of_ne (hne (_, 8) (by dsimp only; omega))]
    refine (Function.update_of_ne (hne (8, _) ?_) ..).trans hsame
    dsimp only
    split <;> omega
  · rw [if_neg hfirst, if_neg hfirst, Function.update_of_ne (hne (8, _) (by dsimp only; omega))]
    refine (Function.update_of_ne (hne (_, 8) ?_) ..).trans hsame
    dsimp only
    split <;> omega

theorem masked_reserved (h : Reserved v p) (hwritten : ¬Written v.size p) (codewords : List UInt8) (m : Nat) :
    masked v (buildMatrix codewords v) m p = ((functionPatterns v).matrix p == some true) := by
  have hsize := size_ge v
  unfold masked
  rw [writeFormatInfo_other hwritten _ _ (by omega), applyMask, (reservedMask_iff v p).mpr h,
    buildMatrix_reserved ((reserved_iff v p).mpr h)]
  rfl

theorem finderDark_rings : ∀ r ∈ Int.range (-1) 8, ∀ c ∈ Int.range (-1) 8,
    Draft.finderDark r c = (distance (r, c) (3, 3) != 2 && distance (r, c) (3, 3) != 4) := by decide

theorem alignment_rings : ∀ r ∈ Int.range (-2) 3, ∀ c ∈ Int.range (-2) 3,
    (r.natAbs == 2 || c.natAbs == 2 || (r == 0 && c == 0)) = (distance (r, c) (0, 0) != 1) := by decide

theorem distance_sub (p q : Int × Int) (row col : Int) :
    distance (p.1 - row, p.2 - col) q = distance p (q.1 + row, q.2 + col) := by
  unfold distance
  congr 2
  all_goals
    dsimp only
    omega

/-! ## Every symbol -/

/-- Finders, timing and alignment are as prescribed, whatever the data and the mask. -/
theorem masked_patterns (v : Version) (codewords : List UInt8) (m : Nat) :
    Patterns ⟨v.size, masked v (buildMatrix codewords v) m⟩ := by
  have hsize := size_ge v
  constructor
  · intro centre hcentre p hrow hcol hring
    dsimp only at hrow hcol ⊢
    have hcorner : ((centre.1 - 3 = 0 ∧ centre.2 - 3 = 0) ∨ (centre.1 - 3 = 0 ∧ centre.2 - 3 = v.size - 7) ∨
        (centre.1 - 3 = v.size - 7 ∧ centre.2 - 3 = 0)) := by
      simp only [finderCentres, List.mem_cons, List.not_mem_nil, or_false] at hcentre
      rcases hcentre with rfl | rfl | rfl
      all_goals
        dsimp only
        omega
    have hin : InFinder v.size (centre.1 - 3) (centre.2 - 3) p := by
      unfold distance at hring
      exact ⟨by omega, by omega, hrow, hcol⟩
    have hrings := finderDark_rings (p.1 - (centre.1 - 3)) (by rw [Int.mem_range_iff]; obtain ⟨h, -⟩ := hin; omega)
      (p.2 - (centre.2 - 3)) (by rw [Int.mem_range_iff]; obtain ⟨-, h, -⟩ := hin; omega)
    have hcentre : (3 + (centre.1 - 3), 3 + (centre.2 - 3)) = centre := by
      ext
      all_goals
        dsimp only
        omega
    rw [distance_sub, hcentre] at hrings
    obtain ⟨h₁, h₂, -⟩ := id hin
    have hwritten : ¬Written v.size p := by
      unfold Written
      omega
    have hreserved : Reserved v p := by
      have hfinder := hin
      rcases hcorner with ⟨hr, hc⟩ | ⟨hr, hc⟩ | ⟨hr, hc⟩
      · rw [hr, hc] at hfinder
        exact .finder (.inl hfinder)
      · rw [hr, hc] at hfinder
        exact .finder (.inr (.inl hfinder))
      · rw [hr, hc] at hfinder
        exact .finder (.inr (.inr hfinder))
    rw [masked_reserved hreserved hwritten, finder_matrix hcorner hin, ← hrings]
    simp
  · intro i hlow hhigh
    dsimp only at hhigh ⊢
    have hvalue : ∀ p : Int × Int, (∀ j, p = (6, j) ∨ p = (j, 6) → (i % 2 == 0) = (j % 2 == 0)) → InTiming v.size p →
        masked v (buildMatrix codewords v) m p = (i % 2 == 0) := by
      intro p hp hin
      have hwritten : ¬Written v.size p := by
        unfold InTiming at hin
        unfold Written
        omega
      rw [masked_reserved (.timing hin) hwritten, timing_matrix hp hin]
      simp
    refine ⟨hvalue (6, i) ?_ (.inl ⟨rfl, hlow, hhigh⟩), hvalue (i, 6) ?_ (.inr ⟨rfl, hlow, hhigh⟩)⟩
    all_goals
      intro j hj
      simp only [Prod.mk.injEq] at hj
      congr 2
      omega
  · intro hlarge p hring
    dsimp only at hlarge hring ⊢
    have hv : v ≠ .v1 := by
      rintro rfl
      exact absurd hlarge (by decide)
    have hin : InAlignment (v.size - 7) (v.size - 7) p := by
      unfold distance at hring
      exact ⟨by omega, by omega⟩
    have hrings := alignment_rings (p.1 - (v.size - 7)) (by rw [Int.mem_range_iff]; obtain ⟨h, -⟩ := hin; omega)
      (p.2 - (v.size - 7)) (by rw [Int.mem_range_iff]; obtain ⟨-, h⟩ := hin; omega)
    rw [distance_sub] at hrings
    simp only [zero_add] at hrings
    have hwritten : ¬Written v.size p := by
      obtain ⟨h₁, h₂⟩ := hin
      unfold Written
      omega
    rw [masked_reserved (.alignment hv hin) hwritten, alignment_matrix hv hin, hrings]
    simp

theorem mirror_read (v : Version) (matrix : Int × Int → Bool) (m : Nat) :
    (mirrorModules v.size).map (writeFormatInfo v.size matrix m) =
    (Bits.ofNat 15 (formatBits m)).set 7 (matrix (8, (v.size : Int) - 8)) := by
  cases v <;> rfl

theorem dark_module (v : Version) (matrix : Int × Int → Bool) (m : Nat) :
    writeFormatInfo v.size matrix m ((v.size : Int) - 8, 8) = (formatBits m).testBit 7 := by
  cases v <;> rfl

/-- All but two modules: the dark module is the eighth bit of the second copy, and the module for
    that bit is light. -/
structure Shifted (s : Symbol) (format : Nat) : Prop extends Patterns s where
  formatInfo : formatModules.map s.dark = Bits.ofNat 15 format
  mirrored : (mirrorModules s.size).map s.dark = (Bits.ofNat 15 format).set 7 false
  darkModule : s.dark ((s.size : Int) - 8, 8) = format.testBit 7

theorem generated_patterns (text : JsString) (h : (encodeText text).length ≤ 62) :
    ∃ s, generateQRMatrix text = some s ∧ ∃ m < 8, Shifted s (formatBits m) := by
  obtain ⟨v, hv⟩ := selectVersion_some h
  obtain ⟨m, hm, hpick⟩ := pickMask_eq v (buildMatrix (buildCodewords (encodeData (encodeText text) v) v) v)
  refine ⟨⟨v.size, masked v (buildMatrix (buildCodewords (encodeData (encodeText text) v) v) v) m⟩, ?_, m, hm,
    masked_patterns v _ m, format_read v _ m, ?_, dark_module v _ m⟩
  · simp only [generateQRMatrix, hv, Option.bind_eq_bind, Option.bind_some, hpick]
  · have hreserved : Reserved v (8, (v.size : Int) - 8) := .format (.inl ⟨rfl, .inr ⟨le_refl _, by dsimp only; omega⟩⟩)
    unfold masked
    dsimp only
    rw [mirror_read, applyMask, (reservedMask_iff v _).mpr hreserved, buildMatrix_reserved ((reserved_iff v _).mpr hreserved),
      corner_matrix]
    rfl

/-- A dark eighth bit is missing at its module; a light one is on the dark module. -/
theorem Shifted.not_intact {s : Symbol} {k : Nat} (hk : k < 8) (h : Shifted s (formatBits k)) (m : Nat) :
    ¬Intact s (formatBits m) := by
  intro hintact
  have hlight : ∀ k < 8, Bits.ofNat 15 (formatBits k) = (Bits.ofNat 15 (formatBits k)).set 7 false →
      (formatBits k).testBit 7 = false := by
    decide
  have hsame : Bits.ofNat 15 (formatBits k) = (Bits.ofNat 15 (formatBits k)).set 7 false := by
    rw [← h.mirrored, hintact.mirrored, ← hintact.formatInfo, h.formatInfo]
  have hdark := hintact.darkModule
  rw [h.darkModule, hlight k hk hsame] at hdark
  cases hdark

theorem hi_is_not_intact : ¬∀ text : JsString, (encodeText text).length ≤ 62 →
    ∃ s, generateQRMatrix text = some s ∧ ∃ m < 8, Intact s (formatBits m) := by
  intro hclaim
  obtain ⟨s, hs, m, -, hintact⟩ := hclaim (ofString "hi") (by decide)
  obtain ⟨t, ht, k, hk, hshifted⟩ := generated_patterns (ofString "hi") (by decide)
  obtain rfl := Option.some.inj (hs.symm.trans ht)
  exact hshifted.not_intact hk m hintact

/-- No symbol is intact, whichever mask is taken for the one that was applied. -/
theorem never_intact (text : JsString) (h : (encodeText text).length ≤ 62) :
    ∃ s, generateQRMatrix text = some s ∧ ∀ m, ¬Intact s (formatBits m) := by
  obtain ⟨s, hs, k, hk, hshifted⟩ := generated_patterns text h
  exact ⟨s, hs, hshifted.not_intact hk⟩

theorem hi_has_a_symbol : ∃ s, generateQRMatrix (ofString "hi") = some s ∧ ∀ m, ¬Intact s (formatBits m) :=
  never_intact (ofString "hi") (by decide)

end FlowHelm.AuthBridge
