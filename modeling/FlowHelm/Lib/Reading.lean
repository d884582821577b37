/-
  FlowHelm.Lib.Reading — what a program that only reads can come to, and when two states
  are alike for it.

  `Can answers s p r`: where no operation fails, `p` can end with `r` in the state `s`,
  each of its operations getting one of the answers it has there.

  - `can_bind` / `can_forConcat` / `forConcat_can`: the ends of a composed program.
  - `alike_perform` / `alike_bind` / `alike_forConcat`: two states a program cannot tell apart.
-/
import FlowHelm.Lib.Script

namespace Script

open Prog

variable {Op : Type} {Ans : Op → Type} {S α β γ : Type}

def Can (answers : (o : Op) → S → Ans o → Prop) (s : S) : Prog Op Ans α → Except (Exn Op) α → Prop
  | .ret a, r => r = .ok a
  | .throw e, r => r = .error e
  | .op o k _, r => ∃ a, answers o s a ∧ Can answers s (k a) r

section Can

variable {answers : (o : Op) → S → Ans o → Prop} {s : S}

theorem can_bind {p : Prog Op Ans α} {f : α → Prog Op Ans β} {r : Except (Exn Op) β} :
    Can answers s (p.bind f) r ↔
      (∃ a, Can answers s p (.ok a) ∧ Can answers s (f a) r) ∨ ∃ e, Can answers s p (.error e) ∧ r = .error e := by
  induction p with
  | ret a => simp [Prog.bind, Can]
  | throw e => simp [Prog.bind, Can]
  | op o k err ih _ =>
    simp only [Prog.bind, Can, ih]
    constructor
    · intro h
      obtain ⟨a, ha, ⟨b, hb, hr⟩ | ⟨e, he, hr⟩⟩ := h
      · exact Or.inl ⟨b, ⟨a, ha, hb⟩, hr⟩
      · exact Or.inr ⟨e, ⟨a, ha, he⟩, hr⟩
    · intro h
      obtain ⟨b, ⟨a, ha, hb⟩, hr⟩ | ⟨e, ⟨a, ha, he⟩, hr⟩ := h
      · exact ⟨a, ha, Or.inl ⟨b, hb, hr⟩⟩
      · exact ⟨a, ha, Or.inr ⟨e, he, hr⟩⟩

theorem can_perform {o : Op} {k : Ans o → Prog Op Ans α} {r : Except (Exn Op) α} :
    Can answers s ((perform o).bind k) r ↔ ∃ a, answers o s a ∧ Can answers s (k a) r := Iff.rfl

theorem can_bind_ok {p : Prog Op Ans α} {f : α → Prog Op Ans β} {b : β} :
    Can answers s (p.bind f) (.ok b) ↔ ∃ a, Can answers s p (.ok a) ∧ Can answers s (f a) (.ok b) := by
  rw [can_bind]
  simp

/-- A collecting loop that ends has collected what each turn came to. -/
theorem can_forConcat {f : β → Prog Op Ans (List γ)} {xs : List β} {zs : List γ} (h : Can answers s (forConcat xs f) (.ok zs)) :
    (∀ x ∈ xs, ∃ ys, Can answers s (f x) (.ok ys) ∧ ∀ y ∈ ys, y ∈ zs) ∧
      ∀ z ∈ zs, ∃ x ∈ xs, ∃ ys, Can answers s (f x) (.ok ys) ∧ z ∈ ys := by
  induction xs generalizing zs with
  | nil =>
    cases h
    exact ⟨nofun, nofun⟩
  | cons x xs ih =>
    obtain ⟨ys, hys, hrest⟩ := can_bind_ok.mp h
    obtain ⟨zs', hzs, hend⟩ := can_bind_ok.mp hrest
    cases hend
    obtain ⟨hall, hfrom⟩ := ih hzs
    constructor
    · intro y hy
      rcases List.mem_cons.mp hy with rfl | hy
      · exact ⟨ys, hys, fun z hz => List.mem_append_left _ hz⟩
      · obtain ⟨ws, hws, hin⟩ := hall y hy
        exact ⟨ws, hws, fun z hz => List.mem_append_right _ (hin z hz)⟩
    · intro z hz
      rcases List.mem_append.mp hz with hz | hz
      · exact ⟨x, .head _, ys, hys, hz⟩
      · obtain ⟨y, hy, ws, hws, hin⟩ := hfrom z hz
        exact ⟨y, .tail _ hy, ws, hws, hin⟩

theorem forConcat_can {f : β → Prog Op Ans (List γ)} {xs : List β} (h : ∀ x ∈ xs, ∃ ys, Can answers s (f x) (.ok ys)) :
    ∃ zs, Can answers s (forConcat xs f) (.ok zs) := by
  induction xs with
  | nil => exact ⟨[], rfl⟩
  | cons x xs ih =>
    obtain ⟨ys, hys⟩ := h x (.head _)
    obtain ⟨zs, hzs⟩ := ih fun y hy => h y (.tail _ hy)
    exact ⟨ys ++ zs, can_bind_ok.mpr ⟨ys, hys, can_bind_ok.mpr ⟨zs, hzs, rfl⟩⟩⟩

/-- Turns that can come to the same make a loop that can. -/
theorem forConcat_can_of {f g : β → Prog Op Ans (List γ)} {xs : List β} {zs : List γ}
    (h : Can answers s (forConcat xs f) (.ok zs))
    (hfg : ∀ x ∈ xs, ∀ ys, Can answers s (f x) (.ok ys) → Can answers s (g x) (.ok ys)) :
    Can answers s (forConcat xs g) (.ok zs) := by
  induction xs generalizing zs with
  | nil => exact h
  | cons x xs ih =>
    obtain ⟨ys, hys, hrest⟩ := can_bind_ok.mp h
    obtain ⟨zs', hzs, hend⟩ := can_bind_ok.mp hrest
    refine can_bind_ok.mpr ⟨ys, hfg x (.head _) ys hys, can_bind_ok.mpr ⟨zs', ?_, hend⟩⟩
    exact ih hzs fun y hy => hfg y (.tail _ hy)

/-- It ends badly only where some turn does. -/
theorem can_forConcat_error {f : β → Prog Op Ans (List γ)} {xs : List β} {e : Exn Op}
    (h : Can answers s (forConcat xs f) (.error e)) : ∃ x ∈ xs, Can answers s (f x) (.error e) := by
  induction xs with
  | nil => cases h
  | cons x xs ih =>
    rcases can_bind.mp h with ⟨ys, _, hrest⟩ | ⟨e', hx, he⟩
    · rcases can_bind.mp hrest with ⟨zs, _, hend⟩ | ⟨e', hxs, he⟩
      · cases hend
      · cases he
        obtain ⟨y, hy, hbad⟩ := ih hxs
        exact ⟨y, .tail _ hy, hbad⟩
    · cases he
      exact ⟨x, .head _, hx⟩

/-- An operation with one answer. -/
theorem can_answer {o : Op} {c : Ans o} (h : ∀ a, answers o s a ↔ a = c) {k : Ans o → Prog Op Ans α}
    {r : Except (Exn Op) α} : Can answers s ((perform o).bind k) r ↔ Can answers s (k c) r := by
  rw [can_perform]
  constructor
  · intro hr
    obtain ⟨a, ha, hr⟩ := hr
    rw [(h a).mp ha] at hr
    exact hr
  · intro hr
    exact ⟨c, (h c).mpr rfl, hr⟩

end Can

/-! ## Two states -/

/-- In both states the program can come to the same. -/
def Alike (answers : (o : Op) → S → Ans o → Prop) (s t : S) (p : Prog Op Ans α) : Prop :=
  ∀ r, Can answers s p r ↔ Can answers t p r

section Alike

variable {answers : (o : Op) → S → Ans o → Prop} {s t : S}

theorem alike_ret (a : α) : Alike answers s t (.ret a : Prog Op Ans α) := fun _ => Iff.rfl

theorem alike_throw (e : Exn Op) : Alike answers s t (.throw e : Prog Op Ans α) := fun _ => Iff.rfl

theorem alike_perform {o : Op} {k : Ans o → Prog Op Ans α} (ho : ∀ a, answers o s a ↔ answers o t a)
    (hk : ∀ a, answers o s a → Alike answers s t (k a)) : Alike answers s t ((perform o).bind k) := by
  intro r
  rw [can_perform, can_perform]
  constructor
  · intro h
    obtain ⟨a, ha, hr⟩ := h
    exact ⟨a, (ho a).mp ha, (hk a ha r).mp hr⟩
  · intro h
    obtain ⟨a, ha, hr⟩ := h
    have ha' := (ho a).mpr ha
    exact ⟨a, ha', (hk a ha' r).mpr hr⟩

theorem alike_bind {p : Prog Op Ans α} {f : α → Prog Op Ans β} (hp : Alike answers s t p)
    (hf : ∀ a, Can answers s p (.ok a) → Alike answers s t (f a)) : Alike answers s t (p.bind f) := by
  intro r
  rw [can_bind, can_bind]
  constructor
  · intro h
    obtain ⟨a, ha, hr⟩ | ⟨e, he, hr⟩ := h
    · exact Or.inl ⟨a, (hp _).mp ha, (hf a ha r).mp hr⟩
    · exact Or.inr ⟨e, (hp _).mp he, hr⟩
  · intro h
    obtain ⟨a, ha, hr⟩ | ⟨e, he, hr⟩ := h
    · have ha' := (hp _).mpr ha
      exact Or.inl ⟨a, ha', (hf a ha' r).mpr hr⟩
    · exact Or.inr ⟨e, (hp _).mpr he, hr⟩

theorem alike_forConcat {f : β → Prog Op Ans (List γ)} {xs : List β} (hf : ∀ x ∈ xs, Alike answers s t (f x)) :
    Alike answers s t (forConcat xs f) := by
  induction xs with
  | nil => exact alike_ret []
  | cons x xs ih =>
    refine alike_bind (hf x (.head _)) fun ys _ => ?_
    exact alike_bind (ih fun y hy => hf y (.tail _ hy)) fun zs _ => alike_ret _

end Alike

end Script
