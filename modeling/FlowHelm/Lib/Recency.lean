/-
  FlowHelm.Lib.Recency — keys in the order they were last used.

  The log lists the uses, the newest first. Of keys that stand from the least recently used on,
  all behind one were used since it was; so the first of them is dropped for another only when
  as many others have been used since as there are keys.

  - `Ordered.use`: a key used moves to the end.
  - `Ordered.evict`: what a full list says about its first key.
-/
import Mathlib.Data.Finset.Card

namespace Recency

variable {K : Type} [DecidableEq K] {log keys : List K} {key other : K}

/-- The uses of other keys since the last one of `key`. -/
def since (log : List K) (key : K) : List K := log.takeWhile (· ≠ key)

/-- How many other keys were used since. -/
def usedSince (log : List K) (key : K) : Nat := (since log key).toFinset.card

/-- From the least recently used on. -/
def Ordered (log keys : List K) : Prop := keys.Pairwise fun a b => b ∈ since log a

@[simp] theorem since_other (log : List K) (h : other ≠ key) : since (other :: log) key = other :: since log key := by
  simp [since, h]

theorem usedSince_mono (log : List K) (h : other ≠ key) : usedSince log key ≤ usedSince (other :: log) key := by
  unfold usedSince
  rw [since_other log h, List.toFinset_cons]
  exact Finset.card_le_card (Finset.subset_insert ..)

theorem ordered_nil (log : List K) : Ordered log [] := List.Pairwise.nil

theorem Ordered.sublist {part : List K} (h : Ordered log keys) (hpart : part.Sublist keys) : Ordered log part :=
  List.Pairwise.sublist hpart h

theorem Ordered.use (h : Ordered log keys) (hkey : key ∉ keys) : Ordered (key :: log) (keys ++ [key]) := by
  have hne : ∀ {a}, a ∈ keys → key ≠ a := fun ha heq => hkey (heq ▸ ha)
  refine List.pairwise_append.mpr ⟨?_, List.pairwise_singleton .., ?_⟩
  · refine List.Pairwise.imp_of_mem ?_ h
    intro a b ha _ hb
    simp [hne ha, hb]
  · intro a ha b hb
    simp [hne ha, List.mem_singleton.mp hb]

theorem Ordered.evict {first : K} {rest : List K} (h : Ordered log (first :: rest)) (hnodup : (first :: rest).Nodup)
    (hkey : key ∉ first :: rest) : (first :: rest).length ≤ usedSince (key :: log) first := by
  obtain ⟨hfirst, hrest⟩ : key ≠ first ∧ key ∉ rest := by simpa using hkey
  -- the others that are there, and the one that comes in
  have hsub : (key :: rest).toFinset ⊆ (since (key :: log) first).toFinset := by
    intro b hb
    rw [since_other log hfirst]
    simp only [List.mem_toFinset, List.mem_cons] at hb ⊢
    exact hb.imp_right fun hb => List.rel_of_pairwise_cons h hb
  have hcard : (key :: rest).toFinset.card = (first :: rest).length := by
    rw [List.toFinset_card_of_nodup (List.nodup_cons.mpr ⟨hrest, hnodup.of_cons⟩)]
    rfl
  exact hcard ▸ Finset.card_le_card hsub

end Recency
