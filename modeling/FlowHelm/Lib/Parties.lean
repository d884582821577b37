/-
  FlowHelm.Lib.Parties — the entries of a list that run side by side: one of them takes a
  step, and is replaced by what it has become or leaves the list.

  - `splits` / `put_splits`: the list around the entry that moves.
  - `mem_splits` / `mem_others` / `mem_moved`: who is there besides it, and behind its move.
  - `count_put`: how often a property of the entries occurs behind a move.
  - `joined` / `changed`: who stands where behind one that joins, or becomes another.
-/

namespace Parties

variable {α : Type}

/-- A list at a position it has, and what erasing or replacing there leaves. -/
theorem splits {l : List α} {k : Nat} {a : α} (h : l[k]? = some a) :
    ∃ pre post, l = pre ++ a :: post ∧ l.eraseIdx k = pre ++ post ∧ ∀ b, l.set k b = pre ++ b :: post := by
  obtain ⟨hk, rfl⟩ := List.getElem?_eq_some_iff.mp h
  refine ⟨l.take k, l.drop (k + 1), ?_, ?_, ?_⟩
  · simp
  · exact List.eraseIdx_eq_take_drop_succ l k
  · intro b
    exact List.set_eq_take_append_cons_drop.trans (if_pos hk)

/-- The others are in the list. -/
theorem mem_others {l pre post : List α} {a x : α} (hl : l = pre ++ a :: post) (hx : x ∈ pre ++ post) : x ∈ l := by
  rw [hl]
  rcases List.mem_append.mp hx with hx | hx
  · exact List.mem_append_left _ hx
  · exact List.mem_append_right _ (List.mem_cons_of_mem _ hx)

/-- Whoever is in the list is the one that moves or one of the others. -/
theorem mem_splits {l pre post : List α} {a x : α} (hl : l = pre ++ a :: post) (hx : x ∈ l) : x = a ∨ x ∈ pre ++ post := by
  rw [hl] at hx
  rcases List.mem_append.mp hx with hx | hx
  · exact Or.inr (List.mem_append_left _ hx)
  rcases List.mem_cons.mp hx with hx | hx
  · exact Or.inl hx
  · exact Or.inr (List.mem_append_right _ hx)

/-- Behind the move of `a` to `b`: one of the others, or `b`. -/
theorem mem_moved {l pre post : List α} {a b x : α} (hl : l = pre ++ a :: post) (hx : x ∈ pre ++ b :: post) :
    x = b ∨ x ∈ l := by
  rcases List.mem_append.mp hx with hx | hx
  · exact Or.inr (mem_others hl (List.mem_append_left _ hx))
  rcases List.mem_cons.mp hx with hx | hx
  · exact Or.inl hx
  · exact Or.inr (mem_others hl (List.mem_append_right _ hx))

/-- The entry at `k` has become `o`, or left. -/
def put (l : List α) (k : Nat) : Option α → List α
  | some a => l.set k a
  | none => l.eraseIdx k

theorem put_splits {l : List α} {k : Nat} {a : α} (h : l[k]? = some a) :
    ∃ pre post, l = pre ++ a :: post ∧ ∀ o, put l k o = pre ++ (o.toList ++ post) := by
  obtain ⟨pre, post, hl, he, hs⟩ := splits h
  refine ⟨pre, post, hl, ?_⟩
  intro o
  cases o with
  | none => exact he
  | some b => exact hs b

theorem count_put {β : Type} [BEq β] (f : α → β) {l : List α} {k : Nat} {a : α} (h : l[k]? = some a) (o : Option α) (x : β) :
    ((put l k o).map f).count x + [f a].count x = (l.map f).count x + (o.toList.map f).count x := by
  obtain ⟨pre, post, hl, hput⟩ := put_splits h
  rw [hput o, hl]
  simp only [List.map_append, List.map_cons, List.count_append, List.count_cons, List.count_nil]
  omega

theorem joined {l : List α} {a x : α} {k : Nat} (h : (l ++ [a])[k]? = some x) : l[k]? = some x ∨ (k = l.length ∧ x = a) := by
  rcases Nat.lt_or_ge k l.length with hk | hk
  · exact .inl ((List.getElem?_append_left hk).symm.trans h)
  · rw [List.getElem?_append_right hk, List.getElem?_singleton] at h
    split at h
    · rename_i hzero
      exact .inr ⟨by omega, (Option.some.inj h).symm⟩
    · cases h

theorem changed {l : List α} {a x : α} {i k : Nat} (h : (l.set i a)[k]? = some x) :
    (k = i ∧ x = a) ∨ (k ≠ i ∧ l[k]? = some x) := by
  rw [List.getElem?_set] at h
  split at h
  · rename_i hk
    split at h
    · exact .inl ⟨hk.symm, (Option.some.inj h).symm⟩
    · cases h
  · rename_i hk
    exact .inr ⟨fun h => hk h.symm, h⟩

theorem length_put_le (l : List α) (k : Nat) (o : Option α) : (put l k o).length ≤ l.length := by
  cases o with
  | none => exact List.length_eraseIdx_le l k
  | some b => exact Nat.le_of_eq (List.length_set ..)

end Parties
