/-
  FlowHelm.Lib.Dependencies — a register of entries, each under a name, each requiring others
  by theirs.

  - `put_closed` / `drop_closed`: entering one whose needs are met, and dropping one that no other
    entry requires, leave every need met.
-/
import Mathlib.Data.List.Nodup

namespace Dependencies

variable {ε α : Type} (name : ε → α) (requires : ε → List α)

def names (es : List ε) : List α := es.map name

/-- What an entry requires is there. -/
def Closed (es : List ε) : Prop := ∀ e ∈ es, ∀ n ∈ requires e, n ∈ names name es

variable {name} in
theorem mem_names {es : List ε} {n : α} : n ∈ names name es ↔ ∃ e ∈ es, name e = n := List.mem_map

variable [DecidableEq α]

/-- In place of the first entry of its name, or at the end. -/
def put (e : ε) (es : List ε) : List ε := match es.findIdx? (name · = name e) with
  | some i => es.set i e
  | none => es ++ [e]

/-- Without the first entry of a name. -/
def drop (n : α) (es : List ε) : List ε := match es.findIdx? (name · = n) with
  | some i => es.eraseIdx i
  | none => es

variable {name requires}

/-! ## Entering -/

theorem names_put (e : ε) (es : List ε) :
    names name (put name e es) = if name e ∈ names name es then names name es else names name es ++ [name e] := by
  unfold put names
  cases hfind : es.findIdx? (name · = name e) with
  | some i =>
    obtain ⟨hi, hname, -⟩ := List.findIdx?_eq_some_iff_getElem.mp hfind
    have hname : name es[i] = name e := by simpa using hname
    have hin : name e ∈ es.map name := List.mem_map.mpr ⟨es[i], List.getElem_mem hi, hname⟩
    rw [if_pos hin]
    show (es.set i e).map name = _
    rw [List.map_set, ← hname, ← List.getElem_map name (h := by simpa using hi), List.set_getElem_self]
  | none =>
    have hnone : name e ∉ es.map name := by
      intro hin
      obtain ⟨x, hx, hname⟩ := List.mem_map.mp hin
      have := List.findIdx?_eq_none_iff.mp hfind x hx
      simp [hname] at this
    rw [if_neg hnone, List.map_append, List.map_singleton]

theorem mem_put {e x : ε} {es : List ε} (h : x ∈ put name e es) : x = e ∨ x ∈ es := by
  unfold put at h
  split at h
  · exact (List.mem_or_eq_of_mem_set h).symm
  · rcases List.mem_append.mp h with h | h
    · exact .inr h
    · exact .inl (List.mem_singleton.mp h)

theorem mem_put_self (e : ε) (es : List ε) : e ∈ put name e es := by
  unfold put
  split
  · rename_i i hfind
    obtain ⟨hi, -, -⟩ := List.findIdx?_eq_some_iff_getElem.mp hfind
    exact List.mem_set hi e
  · exact List.mem_append_right _ (List.mem_singleton_self e)

theorem names_put_iff {e : ε} {es : List ε} {n : α} : n ∈ names name (put name e es) ↔ n = name e ∨ n ∈ names name es := by
  rw [names_put]
  split
  · rename_i hin
    constructor
    · exact .inr
    · intro h
      rcases h with rfl | h
      · exact hin
      · exact h
  · rw [List.mem_append, List.mem_singleton, or_comm]

theorem put_nodup {e : ε} {es : List ε} (h : (names name es).Nodup) : (names name (put name e es)).Nodup := by
  rw [names_put]
  split
  · exact h
  · rename_i hout
    rw [List.nodup_append_comm, List.singleton_append]
    exact List.nodup_cons.mpr ⟨hout, h⟩

theorem put_closed {e : ε} {es : List ε} (h : Closed name requires es) (he : ∀ n ∈ requires e, n = name e ∨ n ∈ names name es) :
    Closed name requires (put name e es) := by
  intro x hx n hn
  rw [names_put_iff]
  rcases mem_put hx with rfl | hx
  · exact he n hn
  · exact .inr (h x hx n hn)

/-! ## Dropping -/

theorem drop_eq (n : α) (es : List ε) : drop name n es = es.eraseP (name · = n) := by
  rw [List.eraseP_eq_eraseIdx, drop]
  cases es.findIdx? (name · = n) <;> rfl

theorem mem_drop {n : α} {x : ε} {es : List ε} (h : x ∈ drop name n es) : x ∈ es := by
  rw [drop_eq] at h
  exact List.mem_of_mem_eraseP h

theorem drop_nodup {n : α} {es : List ε} (h : (names name es).Nodup) : (names name (drop name n es)).Nodup := by
  rw [drop_eq]
  exact h.sublist (List.eraseP_sublist.map _)

/-- The other entries stay. -/
theorem mem_drop_of_ne {n : α} {x : ε} {es : List ε} (h : x ∈ es) (hne : name x ≠ n) : x ∈ drop name n es := by
  rw [drop_eq]
  exact (List.mem_eraseP_of_neg (by simpa using hne)).mpr h

theorem ne_of_mem_drop {n : α} {x : ε} {es : List ε} (hnodup : (names name es).Nodup) (h : x ∈ drop name n es) : name x ≠ n := by
  rw [drop_eq] at h
  induction es with
  | nil => cases h
  | cons e es ih =>
    obtain ⟨hout, hnodup⟩ := List.nodup_cons.mp hnodup
    by_cases he : name e = n
    · rw [List.eraseP_cons_of_pos (by simpa using he)] at h
      intro hx
      exact hout (mem_names.mpr ⟨x, h, hx.trans he.symm⟩)
    · rw [List.eraseP_cons_of_neg (by simpa using he)] at h
      rcases List.mem_cons.mp h with rfl | h
      · exact he
      · exact ih hnodup h

theorem drop_closed {n : α} {es : List ε} (h : Closed name requires es) (hnodup : (names name es).Nodup)
    (hfree : ∀ e ∈ es, name e ≠ n → n ∉ requires e) : Closed name requires (drop name n es) := by
  intro x hx m hm
  have hxn := ne_of_mem_drop hnodup hx
  obtain ⟨y, hy, hym⟩ := mem_names.mp (h x (mem_drop hx) m hm)
  have hmn : m ≠ n := fun heq => hfree x (mem_drop hx) hxn (heq ▸ hm)
  exact mem_names.mpr ⟨y, mem_drop_of_ne hy (hym.trans_ne hmn), hym⟩

end Dependencies
