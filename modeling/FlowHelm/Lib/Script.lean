/-
  FlowHelm.Lib.Script — programs that ask a shared service for one operation at a time.

  A `Prog` returns, throws, or performs an operation and goes on with its answer, or with
  what a failure of it leads to. A `Service` says which answers an operation can get in a
  state and what state it leaves. An operation that fails was either refused (the state
  is as before) or executed with its answer lost. `advance` is one step of a program,
  `play` a whole uninterrupted one along a given trace.

  - `uses_bind` / `uses_attempt` / `uses_forEach`: the operations a program can come to.
  - `All.advance`: what holds of everything a program can become.
  - `play_op`: how a whole trace of a program starts.
  - `play_bind` / `play_attempt`: a trace of a composed program is made of its parts'.
  - `Tracks`: an assertion that holds after a run if and only if it held before and no
    step of the run is to blame, with the rules `tracks_bind`, `tracks_attempt`,
    `tracks_forEach`, `tracks_uses`.
-/

namespace Script

inductive Fault where
  | refused
  | lost
  deriving DecidableEq, Repr

inductive Exn (Op : Type) where
  | error (message : String)
  | failed (o : Op) (f : Fault)
  deriving DecidableEq, Repr

inductive Prog (Op : Type) (Ans : Op → Type) (α : Type) where
  | ret (a : α)
  | throw (e : Exn Op)
  | op (o : Op) (k : Ans o → Prog Op Ans α) (err : Fault → Prog Op Ans α)

variable {Op : Type} {Ans : Op → Type} {S α β : Type}

/-! ## Programs -/

namespace Prog

def bind : Prog Op Ans α → (α → Prog Op Ans β) → Prog Op Ans β
  | ret a, f => f a
  | throw e, _ => throw e
  | op o k err, f => op o (fun a => (k a).bind f) (fun x => (err x).bind f)

instance : Monad (Prog Op Ans) where
  pure := ret
  bind := bind

/-- `await` of one operation; its failure is thrown. -/
def perform (o : Op) : Prog Op Ans (Ans o) := op o ret fun f => throw (.failed o f)

/-- `try { p } catch (e) { h(e) }`. -/
def attempt : Prog Op Ans α → (Exn Op → Prog Op Ans α) → Prog Op Ans α
  | ret a, _ => ret a
  | throw e, h => h e
  | op o k err, h => op o (fun a => (k a).attempt h) (fun x => (err x).attempt h)

/-- `for (const x of xs) { await f(x) }`. -/
def forEach : List β → (β → Prog Op Ans Unit) → Prog Op Ans Unit
  | [], _ => ret ()
  | x :: xs, f => (f x).bind fun _ => forEach xs f

/-- `for (const x of xs) { total += await f(x) }`. -/
def forSum : List β → (β → Prog Op Ans Nat) → Prog Op Ans Nat
  | [], _ => ret 0
  | x :: xs, f => (f x).bind fun n => (forSum xs f).bind fun m => ret (n + m)

/-- `for (const x of xs) { all.push(...await f(x)) }`. -/
def forConcat {γ : Type} : List β → (β → Prog Op Ans (List γ)) → Prog Op Ans (List γ)
  | [], _ => ret []
  | x :: xs, f => (f x).bind fun ys => (forConcat xs f).bind fun zs => ret (ys ++ zs)

def isDone : Prog Op Ans α → Bool
  | op .. => false
  | _ => true

/-- Every operation `p` can come to meets `P`. -/
def Uses (P : Op → Prop) : Prog Op Ans α → Prop
  | ret _ => True
  | throw _ => True
  | op o k err => P o ∧ (∀ a, (k a).Uses P) ∧ ∀ f, (err f).Uses P

/-- Whatever `p` can become, itself included, meets `P`. -/
def All (P : Prog Op Ans α → Prop) : Prog Op Ans α → Prop
  | ret a => P (ret a)
  | throw e => P (throw e)
  | op o k err => P (op o k err) ∧ (∀ a, (k a).All P) ∧ ∀ f, (err f).All P

section All

variable {P : Prog Op Ans α → Prop}

theorem All.self {p : Prog Op Ans α} (h : p.All P) : P p := by
  cases p with
  | ret a => exact h
  | throw e => exact h
  | op o k err => exact h.1

theorem all_attempt {h : Exn Op → Prog Op Ans α} (hP : ∀ p, P p → P (p.attempt h)) (hh : ∀ e, (h e).All P)
    {p : Prog Op Ans α} (hp : p.All P) : (p.attempt h).All P := by
  induction p with
  | ret a => exact hp
  | throw e => exact hh e
  | op o k err ihk ihe => exact ⟨hP _ hp.1, fun a => ihk a (hp.2.1 a), fun x => ihe x (hp.2.2 x)⟩

end All

section Uses

variable {P : Op → Prop}

theorem uses_bind {p : Prog Op Ans α} {f : α → Prog Op Ans β} (hp : p.Uses P) (hf : ∀ a, (f a).Uses P) :
    (p.bind f).Uses P := by
  induction p with
  | ret a => exact hf a
  | throw e => trivial
  | op o k err ihk ihe => exact ⟨hp.1, fun a => ihk a (hp.2.1 a), fun x => ihe x (hp.2.2 x)⟩

theorem uses_perform {o : Op} (ho : P o) : (perform o : Prog Op Ans (Ans o)).Uses P :=
  ⟨ho, fun _ => trivial, fun _ => trivial⟩

theorem uses_attempt {p : Prog Op Ans α} {h : Exn Op → Prog Op Ans α} (hp : p.Uses P) (hh : ∀ e, (h e).Uses P) :
    (p.attempt h).Uses P := by
  induction p with
  | ret a => trivial
  | throw e => exact hh e
  | op o k err ihk ihe => exact ⟨hp.1, fun a => ihk a (hp.2.1 a), fun x => ihe x (hp.2.2 x)⟩

theorem uses_forEach {f : β → Prog Op Ans Unit} {xs : List β} (hf : ∀ x ∈ xs, (f x).Uses P) : (forEach xs f).Uses P := by
  induction xs with
  | nil => trivial
  | cons x xs ih => exact uses_bind (hf x (.head _)) fun _ => ih fun y hy => hf y (.tail _ hy)

theorem uses_forSum {f : β → Prog Op Ans Nat} (hf : ∀ x, (f x).Uses P) (xs : List β) : (forSum xs f).Uses P := by
  induction xs with
  | nil => trivial
  | cons x xs ih => exact uses_bind (hf x) fun _ => uses_bind ih fun _ => trivial

theorem Uses.mono {P' : Op → Prop} (hPP : ∀ o, P o → P' o) {p : Prog Op Ans α} (hp : p.Uses P) : p.Uses P' := by
  induction p with
  | ret a => trivial
  | throw e => trivial
  | op o k err ihk ihe => exact ⟨hPP o hp.1, fun a => ihk a (hp.2.1 a), fun x => ihe x (hp.2.2 x)⟩

end Uses

end Prog

open Prog

/-! ## Steps and traces -/

/-- What became of one operation. -/
inductive Did (Op : Type) (Ans : Op → Type) where
  | ran (o : Op) (a : Ans o)
  | refused (o : Op)
  | lost (o : Op) (a : Ans o)

def Did.isRan : Did Op Ans → Bool
  | .ran .. => true
  | _ => false

def Did.op : Did Op Ans → Op
  | .ran o _ => o
  | .refused o => o
  | .lost o _ => o

/-- `exec o s a` is the state that `o`, answered `a`, leaves of `s`; `none` when `a` cannot
    be its answer there. -/
structure Service (Op : Type) (Ans : Op → Type) (S : Type) where
  exec : (o : Op) → S → Ans o → Option S

/-- An operation that changes nothing. -/
def Service.Reads (svc : Service Op Ans S) (o : Op) : Prop := ∀ s a t, svc.exec o s a = some t → t = s

section Steps

variable [DecidableEq Op] (svc : Service Op Ans S)

def advance : Prog Op Ans α → S → Did Op Ans → Option (Prog Op Ans α × S)
  | .op o k _, s, .ran o' a =>
    if h : o' = o then (svc.exec o s (h ▸ a)).map fun t => (k (h ▸ a), t) else none
  | .op o _ err, s, .refused o' => if o' = o then some (err .refused, s) else none
  | .op o _ err, s, .lost o' a => if h : o' = o then (svc.exec o s (h ▸ a)).map fun t => (err .lost, t) else none
  | _, _, _ => none

/-- The program that is left after the steps of the trace, nobody else taking one. -/
def play : Prog Op Ans α → S → List (Did Op Ans) → Option (Prog Op Ans α × S)
  | p, s, [] => some (p, s)
  | p, s, d :: tr => match advance svc p s d with
    | some (q, t) => play q t tr
    | none => none

variable {svc}

theorem advance_op {o : Op} {k : Ans o → Prog Op Ans α} {err : Fault → Prog Op Ans α} {s t : S} {d : Did Op Ans}
    {q : Prog Op Ans α} (h : advance svc (.op o k err) s d = some (q, t)) :
    (∃ a, d = .ran o a ∧ svc.exec o s a = some t ∧ q = k a) ∨ (d = .refused o ∧ t = s ∧ q = err .refused) ∨
      ∃ a, d = .lost o a ∧ svc.exec o s a = some t ∧ q = err .lost := by
  cases d with
  | ran o' a =>
    simp only [advance] at h
    split at h
    · rename_i he
      subst he
      obtain ⟨u, hu, hq⟩ := Option.map_eq_some_iff.mp h
      simp only [Prod.mk.injEq] at hq
      exact Or.inl ⟨a, rfl, hq.2 ▸ hu, hq.1.symm⟩
    · cases h
  | refused o' =>
    simp only [advance] at h
    split at h
    · rename_i he
      simp only [Option.some.injEq, Prod.mk.injEq] at h
      exact Or.inr (Or.inl ⟨he ▸ rfl, h.2.symm, h.1.symm⟩)
    · cases h
  | lost o' a =>
    simp only [advance] at h
    split at h
    · rename_i he
      subst he
      obtain ⟨u, hu, hq⟩ := Option.map_eq_some_iff.mp h
      simp only [Prod.mk.injEq] at hq
      exact Or.inr (Or.inr ⟨a, rfl, hq.2 ▸ hu, hq.1.symm⟩)
    · cases h

theorem advance_ran {o : Op} {k : Ans o → Prog Op Ans α} {err : Fault → Prog Op Ans α} {s t : S} {a : Ans o}
    (h : svc.exec o s a = some t) : advance svc (.op o k err) s (.ran o a) = some (k a, t) := by
  simp [advance, h]

theorem advance_done {p q : Prog Op Ans α} {s t : S} {d : Did Op Ans} (hp : p.isDone)
    (h : advance svc p s d = some (q, t)) : False := by
  cases p <;> cases d <;> first | cases h | cases hp

theorem Prog.All.advance {P : Prog Op Ans α → Prop} {p q : Prog Op Ans α} {s t : S} {d : Did Op Ans} (hp : p.All P)
    (h : advance svc p s d = some (q, t)) : q.All P := by
  cases p with
  | ret a => exact (advance_done rfl h).elim
  | throw e => exact (advance_done rfl h).elim
  | op o k err =>
    rcases advance_op h with ⟨a, -, -, rfl⟩ | ⟨-, -, rfl⟩ | ⟨a, -, -, rfl⟩
    · exact hp.2.1 a
    · exact hp.2.2 .refused
    · exact hp.2.2 .lost

theorem play_cons {p q : Prog Op Ans α} {s t : S} {d : Did Op Ans} {tr : List (Did Op Ans)}
    (h : play svc p s (d :: tr) = some (q, t)) :
    ∃ p' s', advance svc p s d = some (p', s') ∧ play svc p' s' tr = some (q, t) := by
  simp only [play] at h
  split at h
  · rename_i p' s' ha
    exact ⟨p', s', ha, h⟩
  · cases h

theorem play_done {p q : Prog Op Ans α} {s t : S} {tr : List (Did Op Ans)} (hp : p.isDone)
    (h : play svc p s tr = some (q, t)) : tr = [] ∧ q = p ∧ t = s := by
  cases tr with
  | nil =>
    simp only [play, Option.some.injEq, Prod.mk.injEq] at h
    exact ⟨rfl, h.1.symm, h.2.symm⟩
  | cons d tr =>
    obtain ⟨_, _, ha, _⟩ := play_cons h
    exact (advance_done hp ha).elim

/-- A trace has no other operations than those the program can come to. -/
theorem play_uses {P : Op → Prop} {p q : Prog Op Ans α} {s t : S} {tr : List (Did Op Ans)} (hp : p.Uses P)
    (h : play svc p s tr = some (q, t)) : ∀ d ∈ tr, P d.op := by
  induction tr generalizing p s with
  | nil => simp
  | cons d tr ih =>
    obtain ⟨p', s', ha, hrest⟩ := play_cons h
    cases p with
    | ret a => exact (advance_done rfl ha).elim
    | throw e => exact (advance_done rfl ha).elim
    | op o k err =>
      obtain ⟨ho, hk, he⟩ := hp
      rcases advance_op ha with ⟨a, rfl, _, rfl⟩ | ⟨rfl, rfl, rfl⟩ | ⟨a, rfl, _, rfl⟩
      · exact List.forall_mem_cons.mpr ⟨ho, ih (hk a) hrest⟩
      · exact List.forall_mem_cons.mpr ⟨ho, ih (he _) hrest⟩
      · exact List.forall_mem_cons.mpr ⟨ho, ih (he _) hrest⟩

theorem play_ret {a : α} {q : Prog Op Ans α} {s t : S} {tr : List (Did Op Ans)}
    (h : play svc (.ret a) s tr = some (q, t)) : tr = [] ∧ q = .ret a ∧ t = s := play_done rfl h

theorem play_throw {e : Exn Op} {q : Prog Op Ans α} {s t : S} {tr : List (Did Op Ans)}
    (h : play svc (.throw e) s tr = some (q, t)) : tr = [] ∧ q = .throw e ∧ t = s := play_done rfl h

section Op

variable {o : Op} {k : Ans o → Prog Op Ans α} {err : Fault → Prog Op Ans α} {s u : S} {a : Ans o}

theorem play_ran (hx : svc.exec o s a = some u) (tr : List (Did Op Ans)) :
    play svc (.op o k err) s (.ran o a :: tr) = play svc (k a) u tr := by
  simp only [play, advance_ran hx]

theorem play_refused (tr : List (Did Op Ans)) :
    play svc (.op o k err) s (.refused o :: tr) = play svc (err .refused) s tr := by
  simp [play, advance]

theorem play_lost (hx : svc.exec o s a = some u) (tr : List (Did Op Ans)) :
    play svc (.op o k err) s (.lost o a :: tr) = play svc (err .lost) u tr := by
  simp [play, advance, hx]

/-- A trace that ends a program that asks for something starts with what became of that. -/
theorem play_op {q : Prog Op Ans α} {t : S} {tr : List (Did Op Ans)} (hq : q.isDone)
    (h : play svc (.op o k err) s tr = some (q, t)) :
    (∃ a u tr', tr = .ran o a :: tr' ∧ svc.exec o s a = some u ∧ play svc (k a) u tr' = some (q, t)) ∨
      (∃ tr', tr = .refused o :: tr' ∧ play svc (err .refused) s tr' = some (q, t)) ∨
      ∃ a u tr', tr = .lost o a :: tr' ∧ svc.exec o s a = some u ∧ play svc (err .lost) u tr' = some (q, t) := by
  cases tr with
  | nil =>
    cases h
    cases hq
  | cons d tr =>
    obtain ⟨p', s', ha, hp⟩ := play_cons h
    rcases advance_op ha with ⟨a, rfl, hx, rfl⟩ | ⟨rfl, rfl, rfl⟩ | ⟨a, rfl, hx, rfl⟩
    · exact Or.inl ⟨a, s', tr, rfl, hx, hp⟩
    · exact Or.inr (Or.inl ⟨tr, rfl, hp⟩)
    · exact Or.inr (Or.inr ⟨a, s', tr, rfl, hx, hp⟩)

end Op

theorem play_append (p : Prog Op Ans α) (s : S) (tr₁ tr₂ : List (Did Op Ans)) :
    play svc p s (tr₁ ++ tr₂) = (play svc p s tr₁).bind fun (q, u) => play svc q u tr₂ := by
  induction tr₁ generalizing p s with
  | nil => rfl
  | cons d tr₁ ih =>
    simp only [List.cons_append, play]
    cases advance svc p s d with
    | none => rfl
    | some r => exact ih r.1 r.2

/-- What is left of a first part is what is left of the whole, up to what follows it. -/
theorem play_lift (f : α → Prog Op Ans β) {p q : Prog Op Ans α} {s t : S} {tr : List (Did Op Ans)}
    (h : play svc p s tr = some (q, t)) : play svc (p.bind f) s tr = some (q.bind f, t) := by
  induction tr generalizing p s with
  | nil =>
    simp only [play, Option.some.injEq, Prod.mk.injEq] at h ⊢
    exact ⟨by rw [h.1], h.2⟩
  | cons d tr ih =>
    obtain ⟨p', s', ha, hp⟩ := play_cons h
    have ha' : advance svc (p.bind f) s d = some (p'.bind f, s') := by
      cases p with
      | ret a => exact (advance_done rfl ha).elim
      | throw e => exact (advance_done rfl ha).elim
      | op o k err =>
        rcases advance_op ha with ⟨a, rfl, hx, rfl⟩ | ⟨rfl, rfl, rfl⟩ | ⟨a, rfl, hx, rfl⟩
        · exact advance_ran hx
        · simp [Prog.bind, advance]
        · simp [Prog.bind, advance, hx]
    simp only [play, ha']
    exact ih hp

/-- A trace that ends `p.bind f` goes through `p`, and through what follows its result. -/
theorem play_bind {p : Prog Op Ans α} {f : α → Prog Op Ans β} {q : Prog Op Ans β} {s t : S} {tr : List (Did Op Ans)}
    (hq : q.isDone) (h : play svc (p.bind f) s tr = some (q, t)) :
    (∃ tr₁ tr₂ a u, tr = tr₁ ++ tr₂ ∧ play svc p s tr₁ = some (.ret a, u) ∧ play svc (f a) u tr₂ = some (q, t)) ∨
      ∃ e, play svc p s tr = some (.throw e, t) ∧ q = .throw e := by
  induction p generalizing s tr with
  | ret a => exact Or.inl ⟨[], tr, a, s, rfl, rfl, h⟩
  | throw e =>
    obtain ⟨rfl, rfl, rfl⟩ := play_throw h
    exact Or.inr ⟨e, rfl, rfl⟩
  | op o k err ihk ihe =>
    rcases play_op hq h with ⟨a, v, tr, rfl, hx, hp⟩ | ⟨tr, rfl, hp⟩ | ⟨a, v, tr, rfl, hx, hp⟩
    · rcases ihk a hp with ⟨tr₁, tr₂, b, u, rfl, h1, h2⟩ | ⟨e, h1, hthrow⟩
      · exact Or.inl ⟨.ran o a :: tr₁, tr₂, b, u, rfl, (play_ran hx tr₁).trans h1, h2⟩
      · exact Or.inr ⟨e, (play_ran hx tr).trans h1, hthrow⟩
    · rcases ihe .refused hp with ⟨tr₁, tr₂, b, u, rfl, h1, h2⟩ | ⟨e, h1, hthrow⟩
      · exact Or.inl ⟨.refused o :: tr₁, tr₂, b, u, rfl, (play_refused tr₁).trans h1, h2⟩
      · exact Or.inr ⟨e, (play_refused tr).trans h1, hthrow⟩
    · rcases ihe .lost hp with ⟨tr₁, tr₂, b, u, rfl, h1, h2⟩ | ⟨e, h1, hthrow⟩
      · exact Or.inl ⟨.lost o a :: tr₁, tr₂, b, u, rfl, (play_lost hx tr₁).trans h1, h2⟩
      · exact Or.inr ⟨e, (play_lost hx tr).trans h1, hthrow⟩

theorem play_perform {o : Op} {k : Ans o → Prog Op Ans α} {a : Ans o} {s t : S} (hx : svc.exec o s a = some t)
    (tr : List (Did Op Ans)) : play svc ((perform o).bind k) s (.ran o a :: tr) = play svc (k a) t tr := play_ran hx tr

/-- A trace that ends what follows an operation starts with the operation done. -/
theorem play_perform_ret {o : Op} {k : Ans o → Prog Op Ans α} {b : α} {s t : S} {tr : List (Did Op Ans)}
    (h : play svc ((perform o).bind k) s tr = some (.ret b, t)) :
    ∃ a u tr', tr = .ran o a :: tr' ∧ svc.exec o s a = some u ∧ play svc (k a) u tr' = some (.ret b, t) := by
  rcases play_op rfl h with hran | ⟨tr, rfl, hp⟩ | ⟨a, u, tr, rfl, hx, hp⟩
  · exact hran
  · cases (play_throw hp).2.1
  · cases (play_throw hp).2.1

theorem play_bind_ret {p : Prog Op Ans α} {f : α → Prog Op Ans β} {b : β} {s t : S} {tr : List (Did Op Ans)}
    (h : play svc (p.bind f) s tr = some (.ret b, t)) :
    ∃ tr₁ tr₂ a u, tr = tr₁ ++ tr₂ ∧ play svc p s tr₁ = some (.ret a, u) ∧ play svc (f a) u tr₂ = some (.ret b, t) := by
  rcases play_bind rfl h with h | ⟨e, _, he⟩
  · exact h
  · cases he

theorem play_attempt {p : Prog Op Ans α} {h : Exn Op → Prog Op Ans α} {q : Prog Op Ans α} {s t : S}
    {tr : List (Did Op Ans)} (hq : q.isDone) (hplay : play svc (p.attempt h) s tr = some (q, t)) :
    (∃ a, play svc p s tr = some (.ret a, t) ∧ q = .ret a) ∨
      ∃ tr₁ tr₂ e u, tr = tr₁ ++ tr₂ ∧ play svc p s tr₁ = some (.throw e, u) ∧ play svc (h e) u tr₂ = some (q, t) := by
  induction p generalizing s tr with
  | ret a =>
    obtain ⟨rfl, rfl, rfl⟩ := play_ret hplay
    exact Or.inl ⟨a, rfl, rfl⟩
  | throw e => exact Or.inr ⟨[], tr, e, s, rfl, rfl, hplay⟩
  | op o k err ihk ihe =>
    rcases play_op hq hplay with ⟨a, v, tr, rfl, hx, hp⟩ | ⟨tr, rfl, hp⟩ | ⟨a, v, tr, rfl, hx, hp⟩
    · rcases ihk a hp with ⟨b, h1, hret⟩ | ⟨tr₁, tr₂, e, u, rfl, h1, h2⟩
      · exact Or.inl ⟨b, (play_ran hx tr).trans h1, hret⟩
      · exact Or.inr ⟨.ran o a :: tr₁, tr₂, e, u, rfl, (play_ran hx tr₁).trans h1, h2⟩
    · rcases ihe .refused hp with ⟨b, h1, hret⟩ | ⟨tr₁, tr₂, e, u, rfl, h1, h2⟩
      · exact Or.inl ⟨b, (play_refused tr).trans h1, hret⟩
      · exact Or.inr ⟨.refused o :: tr₁, tr₂, e, u, rfl, (play_refused tr₁).trans h1, h2⟩
    · rcases ihe .lost hp with ⟨b, h1, hret⟩ | ⟨tr₁, tr₂, e, u, rfl, h1, h2⟩
      · exact Or.inl ⟨b, (play_lost hx tr).trans h1, hret⟩
      · exact Or.inr ⟨.lost o a :: tr₁, tr₂, e, u, rfl, (play_lost hx tr₁).trans h1, h2⟩

/-! ## Blame -/

variable (svc) in
/-- After a run of `p` to its end `A` holds just if it held before and every step was
    harmless. -/
def Tracks (A : S → Prop) (H : Did Op Ans → Prop) (p : Prog Op Ans α) : Prop :=
  ∀ s tr q t, q.isDone → play svc p s tr = some (q, t) → (A t ↔ A s ∧ ∀ d ∈ tr, H d)

section Tracks

variable {A : S → Prop} {H : Did Op Ans → Prop}

theorem tracks_done {p : Prog Op Ans α} (hp : p.isDone) : Tracks svc A H p := by
  intro s tr q t _ h
  obtain ⟨rfl, _, rfl⟩ := play_done hp h
  simp

theorem tracks_bind {p : Prog Op Ans α} {f : α → Prog Op Ans β} (hp : Tracks svc A H p)
    (hf : ∀ a, Tracks svc A H (f a)) : Tracks svc A H (p.bind f) := by
  intro s tr q t hq h
  rcases play_bind hq h with ⟨tr₁, tr₂, a, u, rfl, h1, h2⟩ | ⟨e, h1, rfl⟩
  · rw [hf a u tr₂ q t hq h2, hp s tr₁ (.ret a) u rfl h1, List.forall_mem_append, and_assoc]
  · exact hp s tr (.throw e) t rfl h1

theorem tracks_forEach {f : β → Prog Op Ans Unit} {xs : List β} (hf : ∀ x ∈ xs, Tracks svc A H (f x)) :
    Tracks svc A H (forEach xs f) := by
  induction xs with
  | nil => exact tracks_done rfl
  | cons x xs ih => exact tracks_bind (hf x (.head _)) fun _ => ih fun y hy => hf y (.tail _ hy)

/-- One step, and what follows it. -/
theorem tracks_op {o : Op} {k : Ans o → Prog Op Ans α} {err : Fault → Prog Op Ans α}
    (hran : ∀ s a t, svc.exec o s a = some t → (A t ↔ A s ∧ H (.ran o a)) ∧ Tracks svc A H (k a))
    (href : H (.refused o)) (hlost : ∀ s a t, svc.exec o s a = some t → (A t ↔ A s ∧ H (.lost o a)))
    (herr : ∀ f, Tracks svc A H (err f)) : Tracks svc A H (.op o k err) := by
  intro s tr q t hq h
  rcases play_op hq h with ⟨a, u, tr, rfl, hx, hp⟩ | ⟨tr, rfl, hp⟩ | ⟨a, u, tr, rfl, hx, hp⟩
  · obtain ⟨hA, hk⟩ := hran s a u hx
    rw [List.forall_mem_cons, ← and_assoc, hk u tr q t hq hp, hA]
  · rw [List.forall_mem_cons, herr .refused s tr q t hq hp]
    simp [href]
  · rw [List.forall_mem_cons, ← and_assoc, herr .lost u tr q t hq hp, hlost s a u hx]

theorem tracks_read {o : Op} (ho : svc.Reads o) (hH : ∀ d : Did Op Ans, d.op = o → H d) {k : Ans o → Prog Op Ans α}
    (hk : ∀ s a, svc.exec o s a = some s → Tracks svc A H (k a)) : Tracks svc A H ((perform o).bind k) := by
  refine tracks_op ?_ (hH _ rfl) ?_ fun f => tracks_done rfl
  · intro s a t hx
    obtain rfl := ho s a t hx
    exact ⟨by simp [hH (.ran o a) rfl], hk t a hx⟩
  · intro s a t hx
    obtain rfl := ho s a t hx
    simp [hH (.lost o a) rfl]

/-- A program of operations each of which keeps `A` just if it is harmless. -/
theorem tracks_uses {P : Op → Prop} (href : ∀ o, P o → H (.refused o))
    (hP : ∀ o, P o → ∀ s a t, svc.exec o s a = some t → (A t ↔ A s ∧ H (.ran o a)) ∧ (A t ↔ A s ∧ H (.lost o a)))
    {p : Prog Op Ans α} (hp : p.Uses P) : Tracks svc A H p := by
  induction p with
  | ret a => exact tracks_done rfl
  | throw e => exact tracks_done rfl
  | op o k err ihk ihe =>
    obtain ⟨ho, hk, he⟩ := hp
    refine tracks_op ?_ (href o ho) ?_ fun f => ihe f (he f)
    · intro s a t hx
      exact ⟨(hP o ho s a t hx).1, ihk a (hk a)⟩
    · intro s a t hx
      exact (hP o ho s a t hx).2

end Tracks

/-! ## Concrete traces -/

variable (svc) in
/-- The first `n` steps of a program when every operation succeeds and is answered by `answer`. -/
def succeed (answer : (o : Op) → S → Ans o) : Nat → Prog Op Ans α → S → List (Did Op Ans)
  | n + 1, .op o k _, s => .ran o (answer o s) :: match svc.exec o s (answer o s) with
    | some t => succeed answer n (k (answer o s)) t
    | none => []
  | _, _, _ => []

end Steps

end Script
