/-
  FlowHelm.Lib.Tally — programs of Lib.Script that keep a log nobody asked them for.

  `tally` lets a program count some of its executed operations and come to an end where it
  would throw. `guarded` is a call whose failure is caught and answered by a default, as
  `attempt` has it, and logs what the call came to. `forget` drops the log.

  - `forget_guarded`: without the log it is the `attempt`.
  - `forget_andThen` / `forget_forSumLogged`: logged programs are put together as plain ones.
  - `play_forget`: a trace of the plain program is one of the logged one.
  - `play_guarded`: what the log of a call says.
  - `play_count`: a size of the state that counted operations increase.
-/
import FlowHelm.Lib.Script
import Mathlib.Algebra.GroupWithZero.Nat

namespace Script

open Prog

variable {Op : Type} {Ans : Op → Type} {S α β γ E : Type}

namespace Prog

theorem bind_assoc (p : Prog Op Ans α) (f : α → Prog Op Ans β) (g : β → Prog Op Ans γ) :
    (p.bind f).bind g = p.bind fun a => (f a).bind g := by
  induction p with
  | ret a => rfl
  | throw e => rfl
  | op o k err ihk ihe => simp only [bind, ihk, ihe]

/-- Counting from `n`, `none` at the end being a throw. -/
def tally (counted : Op → Bool) : Prog Op Ans α → Nat → Prog Op Ans (Option α × Nat)
  | ret a, n => ret (some a, n)
  | throw _, n => ret (none, n)
  | op o k err, n => op o (fun a => tally counted (k a) (n + (counted o).toNat)) fun
    | .refused => tally counted (err .refused) n
    | .lost => tally counted (err .lost) (n + (counted o).toNat)

/-- `try { p } catch { return other }`, and an entry of the log: whether `p` threw, and its count. -/
def guarded (counted : Op → Bool) (entry : Bool → Nat → E) (p : Prog Op Ans α) (other : α) : Prog Op Ans (α × List E) :=
  (tally counted p 0).bind fun r => ret (r.1.getD other, [entry r.1.isNone r.2])

def forget (p : Prog Op Ans (α × List E)) : Prog Op Ans α := p.bind fun r => ret r.1

def andThen (p : Prog Op Ans (α × List E)) (f : α → Prog Op Ans (β × List E)) : Prog Op Ans (β × List E) :=
  p.bind fun r => (f r.1).bind fun r' => ret (r'.1, r.2 ++ r'.2)

def forSumLogged : List β → (β → Prog Op Ans (Nat × List E)) → Prog Op Ans (Nat × List E)
  | [], _ => ret (0, [])
  | x :: xs, f => (f x).andThen fun n => (forSumLogged xs f).andThen fun m => ret (n + m, [])

/-! ## Without the log -/

theorem attempt_eq_tally (counted : Op → Bool) (p : Prog Op Ans α) (other : α) (n : Nat) :
    (p.attempt fun _ => ret other) = (tally counted p n).bind fun r => ret (r.1.getD other) := by
  induction p generalizing n with
  | ret a => rfl
  | throw e => rfl
  | op o k err ihk ihe =>
    simp only [attempt, tally, bind, Prog.op.injEq, heq_eq_eq, true_and]
    constructor
    · funext a
      exact ihk a _
    · funext f
      cases f with
      | refused => exact ihe .refused _
      | lost => exact ihe .lost _

theorem forget_guarded (counted : Op → Bool) (entry : Bool → Nat → E) (p : Prog Op Ans α) (other : α) :
    (guarded counted entry p other).forget = p.attempt fun _ => ret other := by
  rw [attempt_eq_tally counted p other 0, forget, guarded, bind_assoc]
  rfl

theorem forget_andThen (p : Prog Op Ans (α × List E)) (f : α → Prog Op Ans (β × List E)) :
    (p.andThen f).forget = p.forget.bind fun a => (f a).forget := by
  simp only [forget, andThen, bind_assoc]
  rfl

theorem forget_forSumLogged {f : β → Prog Op Ans (Nat × List E)} {g : β → Prog Op Ans Nat} (h : ∀ x, (f x).forget = g x)
    (xs : List β) : (forSumLogged xs f).forget = forSum xs g := by
  induction xs with
  | nil => rfl
  | cons x xs ih =>
    rw [forSumLogged, forSum, forget_andThen, h]
    congr 1
    funext n
    rw [forget_andThen, ih]
    rfl

end Prog

/-! ## Traces -/

def Did.counts (counted : Op → Bool) : Did Op Ans → Nat
  | .ran o _ => (counted o).toNat
  | .refused _ => 0
  | .lost o _ => (counted o).toNat

/-- How many counted operations were executed. -/
def count (counted : Op → Bool) (tr : List (Did Op Ans)) : Nat := (tr.map (Did.counts counted)).sum

variable {counted : Op → Bool}

@[simp] theorem count_nil : count counted ([] : List (Did Op Ans)) = 0 := rfl

@[simp] theorem count_cons (d : Did Op Ans) (tr : List (Did Op Ans)) :
    count counted (d :: tr) = d.counts counted + count counted tr := by simp [count]

@[simp] theorem count_append (tr₁ tr₂ : List (Did Op Ans)) :
    count counted (tr₁ ++ tr₂) = count counted tr₁ + count counted tr₂ := by simp [count]

theorem count_eq_zero {tr : List (Did Op Ans)} (h : ∀ d ∈ tr, counted d.op = false) : count counted tr = 0 := by
  induction tr with
  | nil => rfl
  | cons d tr ih =>
    have hd : d.counts counted = 0 := by
      have hop := h d (.head _)
      cases d with
      | refused o => rfl
      | ran o a => exact congrArg Bool.toNat hop
      | lost o a => exact congrArg Bool.toNat hop
    rw [count_cons, hd, ih fun d' hd' => h d' (.tail _ hd')]

variable [DecidableEq Op] {svc : Service Op Ans S}

/-- A program with none of the operations. -/
theorem count_uses {p q : Prog Op Ans α} {s t : S} {tr : List (Did Op Ans)} (hp : p.Uses fun o => counted o = false)
    (h : play svc p s tr = some (q, t)) : count counted tr = 0 :=
  count_eq_zero fun d hd => play_uses hp h d hd

/-- A size that an executed operation increases by one if it is counted, and else keeps. -/
theorem play_count {P : Op → Prop} {size : S → Nat}
    (hsize : ∀ o, P o → ∀ s a t, svc.exec o s a = some t → size t = size s + (counted o).toNat) {p q : Prog Op Ans α} {s t : S}
    {tr : List (Did Op Ans)} (hp : p.Uses P) (h : play svc p s tr = some (q, t)) : size t = size s + count counted tr := by
  induction tr generalizing p s with
  | nil =>
    simp only [play, Option.some.injEq, Prod.mk.injEq] at h
    simp [h.2]
  | cons d tr ih =>
    obtain ⟨p', s', ha, hrest⟩ := play_cons h
    cases p with
    | ret a => exact (advance_done rfl ha).elim
    | throw e => exact (advance_done rfl ha).elim
    | op o k err =>
      obtain ⟨ho, hk, he⟩ := hp
      rcases advance_op ha with ⟨a, rfl, hx, rfl⟩ | ⟨rfl, rfl, rfl⟩ | ⟨a, rfl, hx, rfl⟩
      · rw [ih (hk a) hrest, hsize o ho s a s' hx, count_cons, Did.counts, Nat.add_assoc]
      · rw [ih (he _) hrest, count_cons, Did.counts, Nat.zero_add]
      · rw [ih (he _) hrest, hsize o ho s a s' hx, count_cons, Did.counts, Nat.add_assoc]

theorem play_tally {p : Prog Op Ans α} {n : Nat} {s t : S} {tr : List (Did Op Ans)} {r : Option α × Nat}
    (h : play svc (tally counted p n) s tr = some (.ret r, t)) : r.2 = n + count counted tr ∧
      match r.1 with
      | some a => play svc p s tr = some (.ret a, t)
      | none => ∃ e, play svc p s tr = some (.throw e, t) := by
  induction p generalizing n s tr with
  | ret a =>
    obtain ⟨rfl, hr, rfl⟩ := play_ret h
    cases hr
    exact ⟨by simp, rfl⟩
  | throw e =>
    obtain ⟨rfl, hr, rfl⟩ := play_ret h
    cases hr
    exact ⟨by simp, e, rfl⟩
  | op o k err ihk ihe =>
    rcases play_op rfl h with ⟨a, u, tr, rfl, hx, hp⟩ | ⟨tr, rfl, hp⟩ | ⟨a, u, tr, rfl, hx, hp⟩
    · obtain ⟨hn, hend⟩ := ihk a hp
      refine ⟨?_, ?_⟩
      · rw [hn, count_cons, Did.counts]
        omega
      · simp only [play_ran hx]
        exact hend
    · obtain ⟨hn, hend⟩ := ihe .refused hp
      refine ⟨?_, ?_⟩
      · rw [hn, count_cons, Did.counts]
        omega
      · simp only [play_refused]
        exact hend
    · obtain ⟨hn, hend⟩ := ihe .lost hp
      refine ⟨?_, ?_⟩
      · rw [hn, count_cons, Did.counts]
        omega
      · simp only [play_lost hx]
        exact hend

/-- What a call came to, and what is logged of it. -/
theorem play_guarded {entry : Bool → Nat → E} {p : Prog Op Ans α} {other a : α} {log : List E} {s t : S} {tr : List (Did Op Ans)}
    (h : play svc (guarded counted entry p other) s tr = some (.ret (a, log), t)) :
    (log = [entry false (count counted tr)] ∧ play svc p s tr = some (.ret a, t)) ∨
      (log = [entry true (count counted tr)] ∧ a = other) := by
  obtain ⟨tr₁, tr₂, r, u, rfl, h1, h2⟩ := play_bind_ret h
  obtain ⟨rfl, hr, rfl⟩ := play_ret h2
  obtain ⟨hn, hend⟩ := play_tally h1
  obtain ⟨res, n⟩ := r
  rw [List.append_nil]
  simp only [Nat.zero_add] at hn
  subst hn
  cases res with
  | some b =>
    obtain ⟨rfl, rfl⟩ := Prod.mk.inj (Prog.ret.inj hr)
    exact Or.inl ⟨rfl, hend⟩
  | none =>
    obtain ⟨rfl, rfl⟩ := Prod.mk.inj (Prog.ret.inj hr)
    exact Or.inr ⟨rfl, rfl⟩

theorem play_andThen {p : Prog Op Ans (α × List E)} {f : α → Prog Op Ans (β × List E)} {b : β} {log : List E} {s t : S}
    {tr : List (Did Op Ans)} (h : play svc (p.andThen f) s tr = some (.ret (b, log), t)) :
    ∃ tr₁ tr₂ a log₁ log₂ u, tr = tr₁ ++ tr₂ ∧ log = log₁ ++ log₂ ∧ play svc p s tr₁ = some (.ret (a, log₁), u) ∧
      play svc (f a) u tr₂ = some (.ret (b, log₂), t) := by
  obtain ⟨tr₁, tr₂, ⟨a, log₁⟩, u, rfl, h1, h2⟩ := play_bind_ret h
  obtain ⟨tr₃, tr₄, ⟨b', log₂⟩, v, rfl, h3, h4⟩ := play_bind_ret h2
  obtain ⟨rfl, hr, rfl⟩ := play_ret h4
  obtain ⟨rfl, rfl⟩ := Prod.mk.inj (Prog.ret.inj hr)
  exact ⟨tr₁, tr₃, a, log₁, log₂, u, by simp, rfl, h1, h3⟩

/-- A trace of the plain program is one of the logged one. -/
theorem play_forget {p : Prog Op Ans (α × List E)} {a : α} {s t : S} {tr : List (Did Op Ans)}
    (h : play svc p.forget s tr = some (.ret a, t)) : ∃ log, play svc p s tr = some (.ret (a, log), t) := by
  obtain ⟨tr₁, tr₂, ⟨b, log⟩, u, rfl, h1, h2⟩ := play_bind_ret h
  obtain ⟨rfl, hr, rfl⟩ := play_ret h2
  obtain rfl := Prog.ret.inj hr
  rw [List.append_nil]
  exact ⟨log, h1⟩

end Script
