/-
  FlowHelm.Lib.FifoSet — a bounded set that drops its oldest element, as a memory of a log.

  The log lists what was ever added, the newest first. A set that is added to only what it does
  not have holds the newest `cap` entries of the log (`newest_add`), so an entry of the log comes
  again only after `cap` others (`spaced_add`).
-/
import Mathlib.Data.Finset.Card

namespace FifoSet

variable {α : Type} {cap : Nat}

/-- The elements in the order they came in. -/
def add [DecidableEq α] (cap : Nat) (ids : List α) (x : α) : List α :=
  let more := if x ∈ ids then ids else ids ++ [x]
  if cap < more.length then more.tail else more

/-- What the set holds is the newest part of the log. -/
structure Newest (cap : Nat) (ids log : List α) : Prop where
  eq : ids.reverse = log.take cap
  nodup : ids.Nodup

/-- Between two entries for one element there are `cap` others. -/
def Spaced [DecidableEq α] (cap : Nat) (log : List α) : Prop :=
  ∀ newer between older x, log = newer ++ x :: (between ++ x :: older) → x ∉ between → cap ≤ between.toFinset.card

theorem Newest.nil : Newest cap ([] : List α) [] := ⟨by simp, List.nodup_nil⟩

theorem Newest.length_le {ids log : List α} (h : Newest cap ids log) : ids.length ≤ cap := by
  have hlength := congrArg List.length h.eq
  simp only [List.length_reverse, List.length_take] at hlength
  omega

theorem Newest.mem {ids log : List α} (h : Newest cap ids log) {x : α} : x ∈ ids ↔ x ∈ log.take cap := by
  rw [← h.eq, List.mem_reverse]

variable [DecidableEq α]

theorem newest_add {ids log : List α} (h : Newest cap ids log) {x : α} (hx : x ∉ ids) :
    Newest cap (add cap ids x) (x :: log) := by
  have hlength := h.length_le
  have hnodup : (ids ++ [x]).Nodup := by
    rw [List.nodup_append_comm]
    exact List.nodup_cons.mpr ⟨hx, h.nodup⟩
  simp only [add, if_neg hx]
  by_cases hfull : cap < (ids ++ [x]).length
  · rw [if_pos hfull]
    have hcap : ids.length = cap := by
      simp only [List.length_append, List.length_singleton] at hfull
      omega
    refine ⟨?_, hnodup.sublist (List.tail_sublist _)⟩
    -- the oldest is the last of the newest entries and the one before
    have hall : (ids ++ [x]).reverse = (x :: log).take (cap + 1) := by simp [h.eq]
    rw [← List.dropLast_reverse, hall, List.dropLast_eq_take, List.take_take]
    congr 1
    have hlong : (ids ++ [x]).reverse.length = cap + 1 := by simp [hcap]
    rw [hall] at hlong
    omega
  · rw [if_neg hfull]
    refine ⟨?_, hnodup⟩
    simp only [List.length_append, List.length_singleton, not_lt] at hfull
    have hshort : log.length ≤ cap - 1 := by
      have htake := congrArg List.length h.eq
      simp only [List.length_reverse, List.length_take] at htake
      omega
    rw [List.reverse_append, h.eq, List.take_of_length_le (by omega), List.take_of_length_le (by simp; omega)]
    simp

theorem spaced_nil : Spaced cap ([] : List α) := by
  intro newer between older x h
  simp at h

theorem spaced_add {ids log : List α} (h : Newest cap ids log) (hs : Spaced cap log) {x : α} (hx : x ∉ ids) :
    Spaced cap (x :: log) := by
  intro newer between older y hlog hy
  cases newer with
  | cons z newer =>
    obtain ⟨-, rfl⟩ := List.cons.inj hlog
    exact hs newer between older y rfl hy
  | nil =>
    obtain ⟨rfl, rfl⟩ := List.cons.inj hlog
    have hmem : x ∉ (between ++ x :: older).take cap := fun hin => hx (h.mem.mpr hin)
    have hlong : cap ≤ between.length := by
      by_contra hshort
      apply hmem
      rw [List.take_append]
      obtain ⟨n, hn⟩ : ∃ n, cap - between.length = n + 1 := ⟨cap - between.length - 1, by omega⟩
      simp [hn]
    have htake : (between ++ x :: older).take cap = between.take cap := List.take_append_of_le_length hlong
    have hnodup : (between.take cap).Nodup := by
      rw [← htake, ← h.eq]
      exact List.nodup_reverse.mpr h.nodup
    calc cap = (between.take cap).length := by simp [hlong]
      _ = (between.take cap).toFinset.card := (List.toFinset_card_of_nodup hnodup).symm
      _ ≤ between.toFinset.card := Finset.card_le_card fun z hz => by
        rw [List.mem_toFinset] at hz ⊢
        exact List.mem_of_mem_take hz

end FifoSet
