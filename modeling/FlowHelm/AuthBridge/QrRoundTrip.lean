/-
  FlowHelm.AuthBridge.QrRoundTrip — qr.ts: what a reader of QR codes makes of the symbols.

  The code says twice which modules are not for data, where it places the codewords and where it
  masks them; the standard says it once more.

  - `reserved_eq` / `reservedMask_eq`: the three agree.
  - `visits_eq`: the codewords are placed in the standard's order.
  - `generated_reads`: the text's bytes are read back.
-/
import FlowHelm.AuthBridge.QrMatrix

namespace FlowHelm.AuthBridge

open Js Qr Filling

/-! ## Function patterns -/

/-- Where a finder lies, its separator around it. -/
def InFinder (size row col : Int) (p : Int × Int) : Prop :=
  (row - 1 ≤ p.1 ∧ p.1 ≤ row + 7) ∧ (col - 1 ≤ p.2 ∧ p.2 ≤ col + 7) ∧ (0 ≤ p.1 ∧ p.1 < size) ∧ 0 ≤ p.2 ∧ p.2 < size

def InTiming (size : Int) (p : Int × Int) : Prop := (p.1 = 6 ∧ 8 ≤ p.2 ∧ p.2 < size - 8) ∨ (p.2 = 6 ∧ 8 ≤ p.1 ∧ p.1 < size - 8)

def InAlignment (row col : Int) (p : Int × Int) : Prop := (row - 2 ≤ p.1 ∧ p.1 ≤ row + 2) ∧ col - 2 ≤ p.2 ∧ p.2 ≤ col + 2

def InFormat (size : Int) (p : Int × Int) : Prop :=
  (p.1 = 8 ∧ (0 ≤ p.2 ∧ p.2 ≤ 8 ∨ size - 8 ≤ p.2 ∧ p.2 < size)) ∨ (p.2 = 8 ∧ (0 ≤ p.1 ∧ p.1 ≤ 8 ∨ size - 8 ≤ p.1 ∧ p.1 < size))

theorem mark_iff {reserved : Int × Int → Bool} {q p : Int × Int} : mark reserved q p = true ↔ reserved p = true ∨ p = q := by
  unfold mark
  by_cases h : p = q
  · simp [h]
  · simp [h]

theorem placed_iff {d : Draft} {q p : Int × Int} {dark : Bool} :
    (d.place q dark).reserved p = true ↔ d.reserved p = true ∨ p = q := mark_iff

theorem reserve_iff {d : Draft} {q p : Int × Int} : (d.reserve q).reserved p = true ↔ d.reserved p = true ∨ p = q := by
  unfold Draft.reserve
  split
  · rename_i hq
    refine ⟨.inl, fun h => h.elim id ?_⟩
    rintro rfl
    exact hq
  · exact mark_iff

/-- A module, counted from another. -/
theorem eq_offset (row col : Int) (p : Int × Int) : p = (row + (p.1 - row), col + (p.2 - col)) := by
  ext
  · exact (add_sub_cancel row p.1).symm
  · exact (add_sub_cancel col p.2).symm

theorem mem_finder {size row col : Int} {p : Int × Int} :
    (∃ r ∈ Int.range (-1) 8, ∃ c ∈ Int.range (-1) 8, (0 ≤ row + r ∧ row + r < size ∧ 0 ≤ col + c ∧ col + c < size) ∧
      p = (row + r, col + c)) ↔
      InFinder size row col p := by
  simp only [Int.mem_range_iff]
  constructor
  · rintro ⟨r, hr, c, hc, hin, rfl⟩
    exact ⟨by omega, by omega, by omega, by omega⟩
  · rintro ⟨hrow, hcol, hsize, hsize'⟩
    exact ⟨p.1 - row, by omega, p.2 - col, by omega, by omega, eq_offset row col p⟩

theorem markFinder_iff {size row col : Int} {reserved : Int × Int → Bool} {p : Int × Int} :
    markFinder size row col reserved p = true ↔ reserved p = true ∨ InFinder size row col p := by
  rw [← mem_finder]
  refine foldl_iff₂ (P := fun reserved : Int × Int → Bool => reserved p = true) (fun reserved r c => ?_) _ _ _
  by_cases hin : 0 ≤ row + r ∧ row + r < size ∧ 0 ≤ col + c ∧ col + c < size
  · rw [if_pos hin, mark_iff, and_iff_right hin]
  · rw [if_neg hin, or_iff_left fun h => hin h.1]

theorem placeFinder_iff {size row col : Int} {d : Draft} {p : Int × Int} :
    (d.placeFinder size row col).reserved p = true ↔ d.reserved p = true ∨ InFinder size row col p := by
  rw [← mem_finder]
  refine foldl_iff₂ (P := fun d : Draft => d.reserved p = true) (fun d r c => ?_) _ _ _
  dsimp only
  split
  · rename_i hout
    rw [or_iff_left fun h => absurd h.1 (by omega)]
  · rename_i hin
    rw [placed_iff, and_iff_right (by omega)]

theorem mem_alignment {row col : Int} {p : Int × Int} :
    (∃ r ∈ Int.range (-2) 3, ∃ c ∈ Int.range (-2) 3, p = (row + r, col + c)) ↔ InAlignment row col p := by
  simp only [Int.mem_range_iff]
  constructor
  · rintro ⟨r, hr, c, hc, rfl⟩
    exact ⟨by omega, by omega⟩
  · rintro ⟨hrow, hcol⟩
    exact ⟨p.1 - row, by omega, p.2 - col, by omega, eq_offset row col p⟩

theorem markAlignmentAt_iff {row col : Int} {reserved : Int × Int → Bool} {p : Int × Int} :
    markAlignmentAt row col reserved p = true ↔ reserved p = true ∨ InAlignment row col p := by
  rw [← mem_alignment]
  refine foldl_iff₂ (P := fun reserved : Int × Int → Bool => reserved p = true) (fun _ _ _ => ?_) _ _ _
  exact mark_iff

theorem placeAlignmentAt_iff {row col : Int} {d : Draft} {p : Int × Int} :
    (d.placeAlignmentAt row col).reserved p = true ↔ d.reserved p = true ∨ InAlignment row col p := by
  rw [← mem_alignment]
  refine foldl_iff₂ (P := fun d : Draft => d.reserved p = true) (fun _ _ _ => ?_) _ _ _
  exact placed_iff

/-- The modules of the timing patterns. -/
theorem mem_timing {size : Int} {p : Int × Int} : (∃ i ∈ Int.range 8 (size - 8), p = (6, i) ∨ p = (i, 6)) ↔ InTiming size p := by
  simp only [Int.mem_range_iff]
  constructor
  · rintro ⟨i, hi, rfl | rfl⟩
    · exact .inl ⟨rfl, hi⟩
    · exact .inr ⟨rfl, hi⟩
  · rintro (⟨hrow, hin⟩ | ⟨hcol, hin⟩)
    · exact ⟨p.2, hin, .inl (Prod.ext hrow rfl)⟩
    · exact ⟨p.1, hin, .inr (Prod.ext rfl hcol)⟩

/-- What is placed is reserved. -/
def Draft.Consistent (d : Draft) : Prop := ∀ p, d.matrix p ≠ none → d.reserved p = true

theorem Draft.Consistent.place {d : Draft} (h : d.Consistent) (q : Int × Int) (dark : Bool) : (d.place q dark).Consistent := by
  intro p hp
  rw [placed_iff]
  by_cases hpq : p = q
  · exact .inr hpq
  · left
    apply h p
    have hsame : (d.place q dark).matrix p = d.matrix p := Function.update_of_ne hpq ..
    rwa [hsame] at hp

/-- A module that is placed unless something is there. -/
theorem placeNew {d : Draft} (h : d.Consistent) (q : Int × Int) (dark : Bool) :
    (if d.matrix q = none then d.place q dark else d).Consistent ∧
      ∀ p, (if d.matrix q = none then d.place q dark else d).reserved p = true ↔ d.reserved p = true ∨ p = q := by
  split
  · exact ⟨h.place q dark, fun p => placed_iff⟩
  · rename_i hsome
    refine ⟨h, fun p => ⟨.inl, fun hp => hp.elim id ?_⟩⟩
    rintro rfl
    exact h p hsome

theorem placeTiming_iff {size : Int} {d : Draft} (h : d.Consistent) {p : Int × Int} :
    (d.placeTiming size).reserved p = true ↔ d.reserved p = true ∨ InTiming size p := by
  rw [← mem_timing]
  refine (foldl_marks (I := Draft.Consistent) (P := fun d : Draft => d.reserved p = true) (fun d i hd => ?_)
    (fun d i hd => ?_) _ h).2
  · exact (placeNew (placeNew hd (6, i) _).1 (i, 6) _).1
  · have hrow := placeNew hd (6, i) (i % 2 == 0)
    exact ((placeNew hrow.1 (i, 6) _).2 p).trans (by rw [hrow.2 p, or_assoc])

/-- The format information, and the dark module among it. -/
theorem mem_format {size : Int} {p : Int × Int} :
    ((∃ i ∈ Int.range 0 9, p = (8, i) ∨ p = (i, 8)) ∨ ∃ i ∈ Int.range 0 8, p = (8, size - 1 - i) ∨ p = (size - 1 - i, 8)) ↔
    InFormat size p := by
  simp only [Int.mem_range_iff]
  constructor
  · rintro (⟨i, hi, rfl | rfl⟩ | ⟨i, hi, rfl | rfl⟩)
    · exact .inl ⟨rfl, .inl (by omega)⟩
    · exact .inr ⟨rfl, .inl (by omega)⟩
    · exact .inl ⟨rfl, .inr (by omega)⟩
    · exact .inr ⟨rfl, .inr (by omega)⟩
  · rintro (⟨hrow, hin | hin⟩ | ⟨hcol, hin | hin⟩)
    · exact .inl ⟨p.2, by omega, .inl (Prod.ext hrow rfl)⟩
    · exact .inr ⟨size - 1 - p.2, by omega, .inl (Prod.ext hrow (by dsimp only; omega))⟩
    · exact .inl ⟨p.1, by omega, .inr (Prod.ext rfl hcol)⟩
    · exact .inr ⟨size - 1 - p.1, by omega, .inr (Prod.ext (by dsimp only; omega) hcol)⟩

theorem reserveLoop_iff {f : Int → Int × Int} {xs : List Int} {d : Draft} {p : Int × Int} :
    (xs.foldl (fun d i => d.reserve (f i)) d).reserved p = true ↔ d.reserved p = true ∨ ∃ i ∈ xs, p = f i :=
  foldl_iff (P := fun d : Draft => d.reserved p = true) (fun _ _ => by rw [reserve_iff]) xs d

theorem reserveTwice_iff {f g : Int → Int × Int} {xs : List Int} {d : Draft} {p : Int × Int} :
    (xs.foldl (fun d i => (d.reserve (f i)).reserve (g i)) d).reserved p = true ↔ d.reserved p = true ∨
    ∃ i ∈ xs, p = f i ∨ p = g i :=
  foldl_iff (P := fun d : Draft => d.reserved p = true) (fun d i => by rw [reserve_iff, reserve_iff, or_assoc]) xs d

theorem markTwice_iff {f g : Int → Int × Int} {xs : List Int} {reserved : Int × Int → Bool} {p : Int × Int} :
    xs.foldl (fun reserved i => mark (mark reserved (f i)) (g i)) reserved p = true ↔ reserved p = true ∨
        ∃ i ∈ xs, p = f i ∨ p = g i :=
  foldl_iff (P := fun reserved : Int × Int → Bool => reserved p = true)
    (fun _ _ => by rw [mark_iff, mark_iff, or_assoc]) xs reserved

theorem reserveFormat_iff {size : Int} {d : Draft} {p : Int × Int} :
    (d.reserveFormat size).reserved p = true ↔ d.reserved p = true ∨ InFormat size p := by
  unfold Draft.reserveFormat
  dsimp only
  rw [reserveLoop_iff, reserveLoop_iff, reserveTwice_iff, ← mem_format]
  simp only [or_assoc, and_or_left, exists_or]

/-! ## The two tables of reserved modules -/

/-- All of them. -/
def Reserved (v : Version) (p : Int × Int) : Prop :=
  (((((InFinder v.size 0 0 p ∨ InFinder v.size 0 (v.size - 7) p) ∨ InFinder v.size (v.size - 7) 0 p) ∨ InTiming v.size p) ∨
    (v ≠ .v1 ∧ InAlignment (v.size - 7) (v.size - 7) p)) ∨ p = ((v.size : Int) - 8, 8)) ∨ InFormat v.size p

theorem reservedMask_iff (v : Version) (p : Int × Int) : buildReservedMask v p = true ↔ Reserved v p := by
  have halign : ∀ reserved : Int × Int → Bool,
      markAlignment v.size v.alignmentPositions reserved p = true ↔
        reserved p = true ∨ (v ≠ .v1 ∧ InAlignment (v.size - 7) (v.size - 7) p) := by
    intro reserved
    cases v with
    | v1 => simp [markAlignment, Version.alignmentPositions]
    | _ => exact markAlignmentAt_iff.trans (or_congr_right (by simp [Version.size, Version.number]))
  unfold buildReservedMask Reserved
  rw [markTwice_iff, markTwice_iff, mark_iff, halign, markTwice_iff, mem_timing, markFinder_iff, markFinder_iff, markFinder_iff,
    ← mem_format]
  simp only [Bool.false_eq_true, false_or, or_assoc]

theorem Draft.Consistent.placeFinder {d : Draft} (h : d.Consistent) (size row col : Int) :
    (d.placeFinder size row col).Consistent := by
  unfold Draft.placeFinder
  refine List.foldlRecOn _ _ h fun d hd r _ => List.foldlRecOn _ _ hd fun d hd c _ => ?_
  dsimp only
  split
  · exact hd
  · exact hd.place _ _

/-- Finders and timing patterns. -/
def timed (v : Version) : Draft :=
  (((Draft.empty.placeFinder v.size 0 0).placeFinder v.size 0 (v.size - 7)).placeFinder v.size (v.size - 7) 0).placeTiming v.size

theorem timed_iff (v : Version) (p : Int × Int) : (timed v).reserved p = true ↔
    ((InFinder v.size 0 0 p ∨ InFinder v.size 0 (v.size - 7) p) ∨ InFinder v.size (v.size - 7) 0 p) ∨ InTiming v.size p := by
  have hempty : Draft.empty.Consistent := fun _ hp => absurd rfl hp
  have hfinders := ((hempty.placeFinder v.size 0 0).placeFinder v.size 0 (v.size - 7)).placeFinder v.size (v.size - 7) 0
  rw [timed, placeTiming_iff hfinders, placeFinder_iff, placeFinder_iff, placeFinder_iff]
  simp only [Draft.empty, Bool.false_eq_true, false_or]

/-- The alignment pattern in the corner is placed; the other positions are reserved. -/
theorem aligned_eq (v : Version) : (timed v).placeAlignment v.alignmentPositions =
    if v = .v1 then timed v else (timed v).placeAlignmentAt (v.size - 7) (v.size - 7) := by
  have honce : ∀ a : Int, (timed v).reserved (6, 6) = true → (timed v).reserved (6, a) = true → (timed v).reserved (a, 6) = true →
      ¬(timed v).reserved (a, a) = true → (timed v).placeAlignment [6, a] = (timed v).placeAlignmentAt a a := by
    intro a h₁ h₂ h₃ h₄
    simp only [Draft.placeAlignment, List.foldl_cons, List.foldl_nil]
    rw [if_pos h₁, if_pos h₂, if_pos h₃, if_neg h₄]
  cases v with
  | v1 => simp [Draft.placeAlignment, Version.alignmentPositions]
  | _ =>
    rw [if_neg (by decide)]
    refine honce _ ?_ ?_ ?_ ?_
    all_goals
      rw [timed_iff]
      unfold InFinder InTiming Version.size Version.number
      dsimp only
      omega

theorem reserved_iff (v : Version) (p : Int × Int) : (functionPatterns v).reserved p = true ↔ Reserved v p := by
  have halign : ((timed v).placeAlignment v.alignmentPositions).reserved p = true ↔
      (timed v).reserved p = true ∨ (v ≠ .v1 ∧ InAlignment (v.size - 7) (v.size - 7) p) := by
    rw [aligned_eq]
    by_cases hv : v = .v1
    · simp [hv]
    · rw [if_neg hv, placeAlignmentAt_iff, and_iff_right hv]
  unfold functionPatterns Reserved
  dsimp only
  rw [reserveFormat_iff, placed_iff, ← timed_iff, ← halign]
  rfl

theorem Reserved.finder {v : Version} {p : Int × Int}
    (h : InFinder v.size 0 0 p ∨ InFinder v.size 0 (v.size - 7) p ∨ InFinder v.size (v.size - 7) 0 p) : Reserved v p :=
  .inl (.inl (.inl (.inl (or_assoc.mpr h))))

theorem Reserved.timing {v : Version} {p : Int × Int} (h : InTiming v.size p) : Reserved v p := .inl (.inl (.inl (.inr h)))

theorem Reserved.alignment {v : Version} {p : Int × Int} (hv : v ≠ .v1) (h : InAlignment (v.size - 7) (v.size - 7) p) :
    Reserved v p :=
  .inl (.inl (.inr ⟨hv, h⟩))

theorem Reserved.format {v : Version} {p : Int × Int} (h : InFormat v.size p) : Reserved v p := .inr h

theorem size_ge (v : Version) : 21 ≤ v.size := by
  cases v <;> decide

theorem number_ge {v : Version} : 2 ≤ v.number ↔ v ≠ .v1 := by
  cases v <;> decide

theorem sizeOf_number (v : Version) : Qr.sizeOf v.number = v.size := by
  cases v <;> rfl

/-- Inside the symbol, they are the standard's. -/
theorem isFunction_iff {v : Version} {p : Int × Int} (hrow : 0 ≤ p.1 ∧ p.1 < v.size) (hcol : 0 ≤ p.2 ∧ p.2 < v.size) :
    Qr.isFunction v.number p = true ↔ Reserved v p := by
  have hsize := size_ge v
  unfold Qr.isFunction
  simp only [sizeOf_number, Bool.or_eq_true, Bool.and_eq_true, decide_eq_true_eq, beq_iff_eq, number_ge]
  constructor
  · -- a corner is a finder but for its row or column 8
    have hcorner : (p.1 ≤ 8 ∧ p.2 ≤ 8) ∨ (p.1 ≤ 8 ∧ (v.size : Int) - 8 ≤ p.2) ∨ ((v.size : Int) - 8 ≤ p.1 ∧ p.2 ≤ 8) →
        Reserved v p := by
      intro h
      by_cases height : p.1 = 8 ∨ p.2 = 8
      · exact .format (by unfold InFormat; omega)
      · rcases h with h | h | h
        · exact .finder (.inl ⟨by omega, by omega, hrow, hcol⟩)
        · exact .finder (.inr (.inl ⟨by omega, by omega, hrow, hcol⟩))
        · exact .finder (.inr (.inr ⟨by omega, by omega, hrow, hcol⟩))
    rintro (((((h | h) | h) | h) | h) | ⟨⟨⟨⟨hv, h₁⟩, h₂⟩, h₃⟩, h₄⟩)
    · exact hcorner (.inl h)
    · exact hcorner (.inr (.inl h))
    · exact hcorner (.inr (.inr h))
    · by_cases hin : 8 ≤ p.2 ∧ p.2 < (v.size : Int) - 8
      · exact .timing (.inl ⟨h, hin⟩)
      · exact hcorner (by omega)
    · by_cases hin : 8 ≤ p.1 ∧ p.1 < (v.size : Int) - 8
      · exact .timing (.inr ⟨h, hin⟩)
      · exact hcorner (by omega)
    · exact .alignment hv ⟨by omega, by omega⟩
  · rintro ((((((h | h) | h) | h) | ⟨hv, h⟩) | h) | h)
    · obtain ⟨h₁, h₂, -⟩ := h
      exact .inl (.inl (.inl (.inl (.inl (by omega)))))
    · obtain ⟨h₁, h₂, -⟩ := h
      exact .inl (.inl (.inl (.inl (.inr (by omega)))))
    · obtain ⟨h₁, h₂, -⟩ := h
      exact .inl (.inl (.inl (.inr (by omega))))
    · rcases h with ⟨h, -⟩ | ⟨h, -⟩
      · exact .inl (.inl (.inr h))
      · exact .inl (.inr h)
    · obtain ⟨h₁, h₂⟩ := h
      exact .inr ⟨⟨⟨⟨hv, by omega⟩, by omega⟩, by omega⟩, by omega⟩
    · obtain ⟨h₁, h₂⟩ := Prod.mk.inj h
      exact .inl (.inl (.inl (.inr (by omega))))
    · rcases h with ⟨h, hin | hin⟩ | ⟨h, hin | hin⟩
      · exact .inl (.inl (.inl (.inl (.inl (by omega)))))
      · exact .inl (.inl (.inl (.inl (.inr (by omega)))))
      · exact .inl (.inl (.inl (.inl (.inl (by omega)))))
      · exact .inl (.inl (.inl (.inr (by omega))))

theorem reserved_eq {v : Version} {p : Int × Int} (hrow : 0 ≤ p.1 ∧ p.1 < v.size) (hcol : 0 ≤ p.2 ∧ p.2 < v.size) :
    (functionPatterns v).reserved p = Qr.isFunction v.number p :=
  Bool.eq_iff_iff.mpr ((reserved_iff v p).trans (isFunction_iff hrow hcol).symm)

theorem reservedMask_eq {v : Version} {p : Int × Int} (hrow : 0 ≤ p.1 ∧ p.1 < v.size) (hcol : 0 ≤ p.2 ∧ p.2 < v.size) :
    buildReservedMask v p = Qr.isFunction v.number p :=
  Bool.eq_iff_iff.mpr ((reservedMask_iff v p).trans (isFunction_iff hrow hcol).symm)

/-! ## The order of the modules -/

/-- The right column of a pair. -/
def right (size k : Nat) : Nat := if size - 1 - 2 * k ≤ 6 then size - 2 - 2 * k else size - 1 - 2 * k

theorem strips_eq (v : Version) : strips v.size = (List.range ((v.size - 1) / 2)).map (right v.size) := by
  cases v <;> decide

theorem map_product {α β γ : Type} (xs : List α) (ys : List β) (f : α × β → γ) :
    (xs ×ˢ ys).map f = xs.flatMap fun x => ys.map fun y => f (x, y) := by
  show (xs.flatMap fun x => ys.map (Prod.mk x)).map f = _
  rw [List.map_flatMap]
  exact List.flatMap_congr fun x _ => by rw [List.map_map]; rfl

/-- The loop goes through the modules in the standard's order. -/
theorem visits_eq (v : Version) : visits v.size = Qr.zigzag v.size := by
  have hsize := size_ge v
  unfold visits Qr.zigzag
  rw [strips_eq, List.flatMap_map, map_product]
  refine List.flatMap_congr fun k hk => ?_
  have hk := List.mem_range.mp hk
  have hstrip : (if 7 ≤ right v.size k then (v.size - 1 - right v.size k) / 2 else (v.size - 2 - right v.size k) / 2) = k := by
    unfold right
    split <;> split <;> omega
  have hleft : 1 ≤ right v.size k ∧ right v.size k < v.size := by
    unfold right
    split <;> omega
  rw [map_product]
  dsimp only
  rw [hstrip]
  refine List.flatMap_congr fun i hi => ?_
  have hi := List.mem_range.mp hi
  have hfirst : ¬((right v.size k : Int) + 0 < 0 ∨ (v.size : Int) ≤ (right v.size k : Int) + 0) := by omega
  have hsecond : ¬((right v.size k : Int) + -1 < 0 ∨ (v.size : Int) ≤ (right v.size k : Int) + -1) := by omega
  have hrow : ((if (k % 2 == 0) = true then v.size - 1 - i else i : Nat) : Int) =
      if k % 2 = 0 then ((v.size - 1 - i : Nat) : Int) else (i : Int) := by
    simp only [beq_iff_eq]
    split <;> rfl
  simp only [List.filterMap_cons, List.filterMap_nil, if_neg hfirst, if_neg hsecond, hrow]
  rfl

/-- The data modules are inside the symbol. -/
theorem visits_inside {v : Version} {p : Int × Int} (h : p ∈ visits v.size) :
    (0 ≤ p.1 ∧ p.1 < v.size) ∧ 0 ≤ p.2 ∧ p.2 < v.size := by
  obtain ⟨col, -, h⟩ := List.mem_flatMap.mp h
  obtain ⟨i, hi, h⟩ := List.mem_flatMap.mp h
  obtain ⟨dc, -, h⟩ := List.mem_filterMap.mp h
  have hi := List.mem_range.mp hi
  dsimp only at h
  split at h
  · cases h
  · rename_i hin
    obtain rfl := Option.some.inj h
    have hrow : ∀ up : Bool, (if up then v.size - 1 - i else i) < v.size
      | true => by
        rw [if_pos rfl]
        omega
      | false => hi
    exact ⟨⟨Int.natCast_nonneg _, Int.ofNat_lt.mpr (hrow _)⟩, by dsimp only; omega⟩

/-- The modules that the codewords are placed at. -/
theorem placed_eq (v : Version) : ((visits v.size).filter fun p => !(functionPatterns v).reserved p) =
    Qr.dataModules v.number := by
  unfold Qr.dataModules
  rw [sizeOf_number, ← visits_eq]
  refine List.filter_congr fun p hp => ?_
  obtain ⟨hrow, hcol⟩ := visits_inside hp
  rw [reserved_eq hrow hcol]

theorem mem_dataModules {v : Version} {p : Int × Int} (h : p ∈ Qr.dataModules v.number) :
    Qr.isFunction v.number p = false ∧ (0 ≤ p.1 ∧ p.1 < v.size) ∧ 0 ≤ p.2 ∧ p.2 < v.size := by
  obtain ⟨hp, hdata⟩ := List.mem_filter.mp h
  rw [sizeOf_number, ← visits_eq] at hp
  exact ⟨by simpa using hdata, visits_inside hp⟩

/-! ## The codewords read back -/

theorem foldl_placeBit (v : Version) (bits : List Bool) (s : (Int × Int → Option Bool) × Nat) :
    (visits v.size).foldl (placeBit (functionPatterns v).reserved bits) s =
      (Qr.dataModules v.number).foldl
        (Filling.write fun bitIdx => some (if bitIdx < bits.length then bits.getD bitIdx false else false)) s := by
  rw [← placed_eq, List.foldl_filter]
  congr 1
  funext s p
  unfold placeBit
  cases (functionPatterns v).reserved p <;> rfl

theorem dataModules_nodup (v : Version) : (Qr.dataModules v.number).Nodup := (Qr.zigzag_nodup _).filter _

/-- What the data modules hold. -/
theorem buildMatrix_bits (codewords : List UInt8) (v : Version) :
    (Qr.dataModules v.number).map (buildMatrix codewords v) =
      (List.range (Qr.dataModules v.number).length).map fun k => (Bits.ofBytes codewords).getD k false := by
  have hwrite := Filling.foldl_write (fun bitIdx => some (if bitIdx < (Bits.ofBytes codewords).length then
    (Bits.ofBytes codewords).getD bitIdx false else false)) (dataModules_nodup v) ((functionPatterns v).matrix, 0)
  rw [← foldl_placeBit, ← List.range_eq_range'] at hwrite
  have hread := congrArg (List.map (· == some true)) hwrite
  rw [List.map_map, List.map_map] at hread
  refine hread.trans (List.map_congr_left fun k _ => ?_)
  dsimp only [Function.comp]
  split
  · cases (Bits.ofBytes codewords).getD k false <;> rfl
  · rename_i hend
    rw [List.getD_eq_getElem?_getD, List.getElem?_eq_none (by omega)]
    rfl

theorem capacity (v : Version) : 8 * (v.info.dataCW + v.info.ecPerBlock * v.info.blocks) ≤ (Qr.dataModules v.number).length := by
  cases v <;> decide +kernel

/-- The codewords are read back, and the modules that are left as zeros. -/
theorem buildMatrix_codewords {dataBytes : List UInt8} {v : Version} (h : dataBytes.length = v.info.dataCW) :
    ∃ rest, Bits.toBytes ((Qr.dataModules v.number).map (buildMatrix (buildCodewords dataBytes v) v)) =
      buildCodewords dataBytes v ++ rest := by
  have hfits : (Bits.ofBytes (buildCodewords dataBytes v)).length ≤ (Qr.dataModules v.number).length := by
    rw [Bits.length_ofBytes, length_buildCodewords h]
    exact capacity v
  rw [buildMatrix_bits]
  generalize (Qr.dataModules v.number).length = n at hfits
  obtain ⟨more, rfl⟩ := Nat.exists_eq_add_of_le hfits
  exact ⟨Bits.toBytes (List.replicate more false), by rw [Filling.map_getD_range, Bits.toBytes_append]⟩

/-! ## Masks and format information -/

theorem format_read (v : Version) (matrix : Int × Int → Bool) (m : Nat) :
    Qr.formatModules.map (writeFormatInfo v.size matrix m) = Bits.ofNat 15 (formatBits m) := by
  cases v <;> rfl

theorem format_level {m : Nat} (h : m < 8) : Qr.format? (Bits.toNat (Bits.ofNat 15 (formatBits m))) = some (0, m) := by
  revert m
  decide

theorem writeFormatInfo_data {v : Version} {p : Int × Int} (h : p ∈ Qr.dataModules v.number)
    (matrix : Int × Int → Bool) (m : Nat) :
    writeFormatInfo v.size matrix m p = matrix p := by
  obtain ⟨hdata, hrow, hcol⟩ := mem_dataModules h
  -- the information is in row 8 and column 8, in the corners
  have hcorner : ∀ q : Int × Int, (q.1 ≤ 8 ∧ q.2 ≤ 8) ∨ (q.1 ≤ 8 ∧ (v.size : Int) - 8 ≤ q.2) ∨
    ((v.size : Int) - 8 ≤ q.1 ∧ q.2 ≤ 8) →
    p ≠ q := by
    rintro q hq rfl
    have hfunction : Qr.isFunction v.number p = true := by
      unfold Qr.isFunction
      simp only [sizeOf_number, Bool.or_eq_true, Bool.and_eq_true, decide_eq_true_eq]
      exact .inl (.inl (.inl (or_assoc.mpr hq)))
    rw [hdata] at hfunction
    cases hfunction
  refine List.foldlRecOn (motive := fun matrix' : Int × Int → Bool => matrix' p = matrix p) _ _ rfl fun matrix' hsame i hi => ?_
  have hi := List.mem_range.mp hi
  by_cases hfirst : i < 8
  · have hcol' : (if i < 6 then (i : Int) else i + 1) ≤ 8 := by
      split <;> omega
    rw [if_pos hfirst, if_pos hfirst, Function.update_of_ne (hcorner (_, 8) (.inr (.inr ⟨by dsimp only; omega, Int.le_refl 8⟩)))]
    exact (Function.update_of_ne (hcorner (8, _) (.inl ⟨Int.le_refl 8, hcol'⟩)) ..).trans hsame
  · have hrow' : (if i = 8 then (7 : Int) else 14 - i) ≤ 8 := by
      split <;> omega
    rw [if_neg hfirst, if_neg hfirst, Function.update_of_ne (hcorner (8, _) (.inr (.inl ⟨Int.le_refl 8, by dsimp only; omega⟩)))]
    exact (Function.update_of_ne (hcorner (_, 8) (.inl ⟨hrow', Int.le_refl 8⟩)) ..).trans hsame

theorem masked_data {v : Version} {p : Int × Int} (h : p ∈ Qr.dataModules v.number) (matrix : Int × Int → Bool) (m : Nat) :
    (masked v matrix m p ^^ Qr.condition m p.1 p.2) = matrix p := by
  obtain ⟨hdata, hrow, hcol⟩ := mem_dataModules h
  have hcondition : maskFunction m p.1 p.2 = Qr.condition m p.1 p.2 := rfl
  unfold masked
  rw [writeFormatInfo_data h, applyMask, reservedMask_eq hrow hcol, hdata, hcondition]
  cases Qr.condition m p.1 p.2 <;> cases matrix p <;> rfl

theorem read_masked {data : List UInt8} {v : Version} (h : data.length ≤ v.byteCapacity) {m : Nat} (hm : m < 8) :
    Qr.read ⟨v.size, masked v (buildMatrix (buildCodewords (encodeData data v) v) v) m⟩ = some data := by
  have hlength := (encodeData_bits h).2
  obtain ⟨rest, hrest⟩ := buildMatrix_codewords hlength
  obtain ⟨l, hlayout, hdata⟩ := deinterleave_buildCodewords hlength rest
  have hversion : (v.size - 17) / 4 = v.number := by
    unfold Version.size
    omega
  have hformat : Qr.format? (Bits.toNat (Qr.formatModules.map
    (masked v (buildMatrix (buildCodewords (encodeData data v) v) v) m))) =
      some (0, m) := by
    unfold masked
    rw [format_read, format_level hm]
  have hbits : ((Qr.dataModules v.number).map fun p =>
      masked v (buildMatrix (buildCodewords (encodeData data v) v) v) m p ^^ Qr.condition m p.1 p.2) =
      (Qr.dataModules v.number).map (buildMatrix (buildCodewords (encodeData data v) v) v) :=
    List.map_congr_left fun p hp => masked_data hp _ _
  unfold Qr.read
  simp only [hversion, hlayout, hformat, Option.bind_eq_bind, Option.bind_some]
  rw [if_neg (by rw [sizeOf_number]; simp), hbits, hrest, hdata]
  exact parse_encodeData h

/-- A text of at most 62 bytes is read back, byte by byte. -/
theorem generated_reads (text : JsString) (h : (encodeText text).length ≤ 62) :
    ∃ s, generateQRMatrix text = some s ∧ Qr.read s = some (encodeText text) := by
  obtain ⟨v, hv⟩ := selectVersion_some h
  obtain ⟨m, hm, hpick⟩ := pickMask_eq v (buildMatrix (buildCodewords (encodeData (encodeText text) v) v) v)
  refine ⟨⟨v.size, masked v (buildMatrix (buildCodewords (encodeData (encodeText text) v) v) v) m⟩, ?_, read_masked (fits hv) hm⟩
  simp only [generateQRMatrix, hv, Option.bind_eq_bind, Option.bind_some, hpick]

theorem generated_reads_hi : ∃ s, generateQRMatrix (ofString "hi") = some s ∧ Qr.read s = some [104, 105] :=
  generated_reads (ofString "hi") (by decide)

end FlowHelm.AuthBridge
