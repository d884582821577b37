/-
  FlowHelm.Lib.FirstFit — the lowest free slot, found in one pass over the taken ones.

  Slots are `base`, `base + width`, `base + 2 * width`, and so on. The taken ones come in
  ascending order; the pass steps over each one that is where it stands.

  - `search_least`: what it ends at is the lowest slot that is not taken.
-/
import Mathlib.Order.Bounds.Basic

namespace FirstFit

def Slot (base width x : Nat) : Prop := ∃ k, x = base + k * width

def search (width : Nat) (next : Nat) (taken : List Nat) : Nat :=
  taken.foldl (fun next used => if next = used then used + width else next) next

variable {base width x y : Nat}

theorem Slot.self (base width : Nat) : Slot base width base := ⟨0, by simp⟩

theorem Slot.le (h : Slot base width x) : base ≤ x := by
  obtain ⟨k, rfl⟩ := h
  omega

theorem Slot.next (h : Slot base width x) (hx : x ≠ base) : Slot (base + width) width x := by
  obtain ⟨k, rfl⟩ := h
  cases k with
  | zero => simp at hx
  | succ k => exact ⟨k, by rw [Nat.add_mul]; omega⟩

theorem Slot.trans (h : Slot base width x) (hy : Slot x width y) : Slot base width y := by
  obtain ⟨k, rfl⟩ := h
  obtain ⟨l, rfl⟩ := hy
  exact ⟨k + l, by rw [Nat.add_mul]; omega⟩

/-- Two slots are the same or a width apart. -/
theorem Slot.apart (hx : Slot base width x) (hy : Slot base width y) (hlt : x < y) : x + width ≤ y := by
  obtain ⟨k, rfl⟩ := hx
  obtain ⟨l, rfl⟩ := hy
  have hkl : k < l := by
    by_contra hle
    have := Nat.mul_le_mul_right width (show l ≤ k by omega)
    omega
  have := Nat.mul_le_mul_right width (show k + 1 ≤ l by omega)
  rw [Nat.add_mul] at this
  omega

theorem search_behind {taken : List Nat} (h : ∀ u ∈ taken, base < u) : search width base taken = base := by
  induction taken with
  | nil => rfl
  | cons u taken ih =>
    have hu := h u (.head _)
    rw [search, List.foldl_cons, if_neg (by omega)]
    exact ih fun v hv => h v (.tail _ hv)

theorem search_least {taken : List Nat} (hwidth : 0 < width) (horder : taken.Pairwise (· < ·))
    (hslots : ∀ u ∈ taken, Slot base width u) : IsLeast {x | Slot base width x ∧ x ∉ taken} (search width base taken) := by
  induction taken generalizing base with
  | nil => exact ⟨⟨.self base width, List.not_mem_nil⟩, fun x hx => hx.1.le⟩
  | cons u taken ih =>
    obtain ⟨hu, hrest⟩ := List.pairwise_cons.mp horder
    by_cases hbase : base = u
    · subst hbase
      have hstep : search width base (base :: taken) = search width (base + width) taken := by
        rw [search, List.foldl_cons, if_pos rfl, search]
      -- the others are slots from the next one on
      have hslots : ∀ v ∈ taken, Slot (base + width) width v := fun v hv =>
        (hslots v (.tail _ hv)).next (by have := hu v hv; omega)
      obtain ⟨⟨hslot, hfree⟩, hleast⟩ := ih hrest hslots
      rw [hstep]
      have hnext : Slot base width (base + width) := ⟨1, by omega⟩
      refine ⟨⟨hnext.trans hslot, fun hmem => ?_⟩, fun x hx => ?_⟩
      · rcases List.mem_cons.mp hmem with heq | hmem
        · have := hslot.le
          omega
        · exact hfree hmem
      · obtain ⟨hxslot, hxfree⟩ := hx
        rw [List.mem_cons, not_or] at hxfree
        exact hleast ⟨hxslot.next hxfree.1, hxfree.2⟩
    · have hbehind : ∀ v ∈ u :: taken, base < v := by
        intro v hv
        have hlt : base < u := lt_of_le_of_ne (hslots u (.head _)).le hbase
        rcases List.mem_cons.mp hv with rfl | hv
        · exact hlt
        · exact lt_trans hlt (hu v hv)
      rw [search_behind hbehind]
      exact ⟨⟨.self base width, fun hmem => (hbehind base hmem).ne rfl⟩, fun x hx => hx.1.le⟩

end FirstFit
