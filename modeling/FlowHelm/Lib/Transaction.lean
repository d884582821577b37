/-
  FlowHelm.Lib.Transaction — transactions over the operations of a service, and what holds
  where a program returns.

  `TxOp` adds BEGIN, COMMIT and ROLLBACK to the operations. Outside a transaction an
  operation works on the committed state. Inside one it works on a copy of it, which
  COMMIT publishes and ROLLBACK, or the end of the connection, drops. `begin body` runs a
  program that way: COMMIT when it returns, ROLLBACK and the same exception when it throws.

  - `begin_atomic`: `begin body` either returns, having published what `body` left, or
    throws and has published nothing; the answer to COMMIT not being lost.
  - `Yields` and its rules: what a program left alone returns, and in which state.
-/
import FlowHelm.Lib.Script

namespace Script

open Prog

variable {Op : Type} {Ans : Op → Type} {S α β : Type}

inductive TxOp (Op : Type) where
  | begin
  | commit
  | rollback
  | on (o : Op)
  deriving DecidableEq

@[reducible] def TxAns (Ans : Op → Type) : TxOp Op → Type
  | .on o => Ans o
  | _ => Unit

/-- What is published, and the copy an open transaction works on. -/
structure Tx (S : Type) where
  committed : S
  working : Option S

namespace Tx

/-- What a statement sees. -/
def current (x : Tx S) : S := x.working.getD x.committed

/-- What is seen after it. -/
def put (x : Tx S) (t : S) : Tx S := match x.working with
  | none => ⟨t, none⟩
  | some _ => { x with working := some t }

@[simp] theorem current_put (x : Tx S) (t : S) : (x.put t).current = t := by
  cases x with
  | mk c w => cases w <;> rfl

@[simp] theorem put_put (x : Tx S) (t u : S) : (x.put t).put u = x.put u := by
  cases x with
  | mk c w => cases w <;> rfl

@[simp] theorem put_current (x : Tx S) : x.put x.current = x := by
  cases x with
  | mk c w => cases w <;> rfl

end Tx

/-- The service as one connection sees it. -/
def txService (svc : Service Op Ans S) : Service (TxOp Op) (TxAns Ans) (Tx S) where
  exec
    | .begin, x, _ => match x.working with
      | none => some { x with working := some x.committed }
      | some _ => none
    | .commit, x, _ => x.working.map fun w => ⟨w, none⟩
    | .rollback, x, _ => some { x with working := none }
    | .on o, x, a => (svc.exec o x.current a).map x.put

def Exn.onTx : Exn Op → Exn (TxOp Op)
  | .error message => .error message
  | .failed o f => .failed (.on o) f

/-- A program of plain operations on a connection. -/
def Prog.onTx : Prog Op Ans α → Prog (TxOp Op) (TxAns Ans) α
  | ret a => ret a
  | throw e => throw e.onTx
  | op o k err => op (.on o) (fun a => (k a).onTx) (fun f => (err f).onTx)

/-- A plain operation that meets `P`. -/
def OnTx (P : Op → Prop) : TxOp Op → Prop
  | .on o => P o
  | _ => False

theorem uses_onTx {P : Op → Prop} {p : Prog Op Ans α} (hp : p.Uses P) : p.onTx.Uses (OnTx P) := by
  induction p with
  | ret a => trivial
  | throw e => trivial
  | op o k err ihk ihe => exact ⟨hp.1, fun a => ihk a (hp.2.1 a), fun f => ihe f (hp.2.2 f)⟩

/-- What follows an exception: a ROLLBACK, whatever becomes of it, and the exception. -/
def rollback (e : Exn (TxOp Op)) : Prog (TxOp Op) (TxAns Ans) α :=
  ((perform (.rollback : TxOp Op)).attempt fun _ => ret ()).bind fun _ => throw e

def publish (a : α) : Prog (TxOp Op) (TxAns Ans) α := (perform (.commit : TxOp Op)).bind fun _ => ret a

/-- `sql.begin(body)`. -/
def begin (body : Prog Op Ans α) : Prog (TxOp Op) (TxAns Ans) α :=
  (perform (.begin : TxOp Op)).bind fun _ => (body.onTx.attempt rollback).bind publish

section Atomic

variable [DecidableEq Op] {svc : Service Op Ans S}

/-- On a connection a program does to what it sees what it does to any state. -/
theorem play_onTx {p : Prog Op Ans α} {q : Prog (TxOp Op) (TxAns Ans) α} {x t : Tx S}
    {tr : List (Did (TxOp Op) (TxAns Ans))} (h : play (txService svc) p.onTx x tr = some (q, t)) :
    ∃ tr' p' s, play svc p x.current tr' = some (p', s) ∧ q = p'.onTx ∧ t = x.put s := by
  induction tr generalizing p x with
  | nil =>
    simp only [play, Option.some.injEq, Prod.mk.injEq] at h
    exact ⟨[], p, x.current, rfl, h.1.symm, by rw [← h.2, Tx.put_current]⟩
  | cons d tr ih =>
    obtain ⟨p₁, y, ha, hp⟩ := play_cons h
    cases p with
    | ret a => exact (advance_done rfl ha).elim
    | throw e => exact (advance_done rfl ha).elim
    | op o k err =>
      rcases advance_op ha with ⟨a, rfl, hx, rfl⟩ | ⟨rfl, rfl, rfl⟩ | ⟨a, rfl, hx, rfl⟩
      · obtain ⟨u, hu, rfl⟩ := Option.map_eq_some_iff.mp hx
        obtain ⟨tr', p', s, hplay, hq, ht⟩ := ih hp
        rw [Tx.current_put] at hplay
        exact ⟨.ran o a :: tr', p', s, (play_ran hu tr').trans hplay, hq, by rw [ht, Tx.put_put]⟩
      · obtain ⟨tr', p', s, hplay, hq, ht⟩ := ih hp
        exact ⟨.refused o :: tr', p', s, (play_refused tr').trans hplay, hq, ht⟩
      · obtain ⟨u, hu, rfl⟩ := Option.map_eq_some_iff.mp hx
        obtain ⟨tr', p', s, hplay, hq, ht⟩ := ih hp
        rw [Tx.current_put] at hplay
        exact ⟨.lost o a :: tr', p', s, (play_lost hu tr').trans hplay, hq, by rw [ht, Tx.put_put]⟩

/-- Not a COMMIT that was executed and its answer lost. -/
def heard : Did (TxOp Op) (TxAns Ans) → Bool
  | .lost .commit _ => false
  | _ => true

/-- No answer to COMMIT is lost on the way. -/
def CommitHeard (tr : List (Did (TxOp Op) (TxAns Ans))) : Prop := ∀ d ∈ tr, heard d = true

/-- A rollback leaves what is published and goes on with the exception. -/
theorem play_rollback {e : Exn (TxOp Op)} {q : Prog (TxOp Op) (TxAns Ans) α} {x t : Tx S}
    {tr : List (Did (TxOp Op) (TxAns Ans))} (hq : q.isDone)
    (h : play (txService svc) (rollback e) x tr = some (q, t)) : q = .throw e ∧ t.committed = x.committed := by
  rcases play_op hq h with ⟨a, u, tr', rfl, hx, hp⟩ | ⟨tr', rfl, hp⟩ | ⟨a, u, tr', rfl, hx, hp⟩
  · obtain ⟨-, rfl, rfl⟩ := play_throw hp
    cases hx
    exact ⟨rfl, rfl⟩
  · obtain ⟨-, rfl, rfl⟩ := play_throw hp
    exact ⟨rfl, rfl⟩
  · obtain ⟨-, rfl, rfl⟩ := play_throw hp
    cases hx
    exact ⟨rfl, rfl⟩

/-- COMMIT, its answer heard: the copy is published, or nothing is. -/
theorem play_publish {a : α} {q : Prog (TxOp Op) (TxAns Ans) α} {c w : S} {t : Tx S}
    {tr : List (Did (TxOp Op) (TxAns Ans))} (hq : q.isDone) (hheard : CommitHeard tr)
    (h : play (txService svc) (publish a) ⟨c, some w⟩ tr = some (q, t)) :
    (q = .ret a ∧ t = ⟨w, none⟩) ∨ ((∃ e, q = .throw e) ∧ t.committed = c) := by
  rcases play_op hq h with ⟨_, u, tr', rfl, hx, hp⟩ | ⟨tr', rfl, hp⟩ | ⟨_, u, tr', rfl, hx, hp⟩
  · obtain ⟨-, rfl, rfl⟩ := play_ret hp
    cases hx
    exact Or.inl ⟨rfl, rfl⟩
  · obtain ⟨-, rfl, rfl⟩ := play_throw hp
    exact Or.inr ⟨⟨_, rfl⟩, rfl⟩
  · cases hheard _ (.head _)

/-- A transaction left alone is all or nothing. -/
theorem begin_atomic {body : Prog Op Ans α} {q : Prog (TxOp Op) (TxAns Ans) α} {s : S} {t : Tx S}
    {tr : List (Did (TxOp Op) (TxAns Ans))} (hq : q.isDone) (hheard : CommitHeard tr)
    (h : play (txService svc) (begin body) ⟨s, none⟩ tr = some (q, t)) :
    (∃ a u tr', q = .ret a ∧ t = ⟨u, none⟩ ∧ play svc body s tr' = some (.ret a, u)) ∨
      ((∃ e, q = .throw e) ∧ t.committed = s) := by
  rcases play_op hq h with ⟨_, u, tr, rfl, hx, hp⟩ | ⟨tr, rfl, hp⟩ | ⟨_, u, tr, rfl, hx, hp⟩
  · cases hx
    have hheard' : CommitHeard tr := fun d hd => hheard d (.tail _ hd)
    have hp' : play (txService svc) ((body.onTx.attempt rollback).bind publish) ⟨s, some s⟩ tr = some (q, t) := hp
    rcases play_bind hq hp' with ⟨tr₁, tr₂, a, v, rfl, hbody, hcommit⟩ | ⟨e, hbody, rfl⟩
    · rcases play_attempt rfl hbody with ⟨b, hb, hret⟩ | ⟨tr₃, tr₄, e, v', rfl, _, hback⟩
      · cases hret
        obtain ⟨tr', p', w, hplay, hp', rfl⟩ := play_onTx hb
        cases p' with
        | ret a' =>
          cases hp'
          have hheard₂ : CommitHeard tr₂ := fun d hd => hheard' d (List.mem_append_right _ hd)
          rcases play_publish hq hheard₂ hcommit with ⟨hret, ht⟩ | hthrow
          · exact Or.inl ⟨a, w, tr', hret, ht, hplay⟩
          · exact Or.inr hthrow
        | throw e => cases hp'
        | op o k err => cases hp'
      · cases (play_rollback rfl hback).1
    · rcases play_attempt rfl hbody with ⟨b, _, hret⟩ | ⟨tr₃, tr₄, e', v', rfl, hb, hback⟩
      · cases hret
      · obtain ⟨_, _, _, _, _, rfl⟩ := play_onTx hb
        exact Or.inr ⟨⟨e, rfl⟩, (play_rollback rfl hback).2⟩
  · obtain ⟨-, rfl, rfl⟩ := play_throw hp
    exact Or.inr ⟨⟨_, rfl⟩, rfl⟩
  · cases hx
    obtain ⟨-, rfl, rfl⟩ := play_throw hp
    exact Or.inr ⟨⟨_, rfl⟩, rfl⟩

end Atomic

/-! ## Where a program returns -/

section Yields

variable [DecidableEq Op] (svc : Service Op Ans S)

/-- Left alone, wherever `p` returns it does so in `Q`. -/
def Yields (p : Prog Op Ans α) (Q : α → S → Prop) (s : S) : Prop :=
  ∀ tr a t, play svc p s tr = some (.ret a, t) → Q a t

variable {svc} {s : S} {Q : α → S → Prop} {R : β → S → Prop}

theorem yields_ret {a : α} (h : Q a s) : Yields svc (.ret a) Q s := by
  intro tr b t hp
  obtain ⟨-, hb, rfl⟩ := play_ret hp
  cases hb
  exact h

theorem yields_throw {e : Exn Op} : Yields svc (.throw e) Q s := by
  intro tr b t hp
  cases (play_throw hp).2.1

theorem yields_mono {Q' : α → S → Prop} {p : Prog Op Ans α} (hQ : ∀ a t, Q a t → Q' a t) (h : Yields svc p Q s) :
    Yields svc p Q' s := fun tr a t hp => hQ a t (h tr a t hp)

theorem yields_bind {p : Prog Op Ans α} {f : α → Prog Op Ans β}
    (h : Yields svc p (fun a t => Yields svc (f a) R t) s) : Yields svc (p.bind f) R s := by
  intro tr b t hp
  obtain ⟨tr₁, tr₂, a, u, rfl, h1, h2⟩ := play_bind_ret hp
  exact h tr₁ a u h1 tr₂ b t h2

theorem yields_perform {o : Op} {k : Ans o → Prog Op Ans α}
    (h : ∀ a t, svc.exec o s a = some t → Yields svc (k a) Q t) : Yields svc ((perform o).bind k) Q s := by
  intro tr b t hp
  obtain ⟨a, u, tr', rfl, hx, h2⟩ := play_perform_ret hp
  exact h a u hx tr' b t h2

/-- `for (const x of xs) { acc = await f(acc, x) }`. -/
def Prog.forFold (f : β → α → Prog Op Ans β) : β → List α → Prog Op Ans β
  | b, [] => ret b
  | b, x :: xs => (f b x).bind fun b' => forFold f b' xs

omit [DecidableEq Op] in
theorem uses_forFold {P : Op → Prop} {f : β → α → Prog Op Ans β} (hf : ∀ b x, (f b x).Uses P) {xs : List α} {b : β} :
    (forFold f b xs).Uses P := by
  induction xs generalizing b with
  | nil => trivial
  | cons x xs ih => exact uses_bind (hf b x) fun _ => ih

/-- A loop whose body leads from `J` of what is left to `J` of what is left after it. -/
theorem yields_forFold {f : β → α → Prog Op Ans β} (J : List α → β → S → Prop)
    (hf : ∀ x xs b s, J (x :: xs) b s → Yields svc (f b x) (J xs) s) {xs : List α} {b : β} (h : J xs b s) :
    Yields svc (forFold f b xs) (J []) s := by
  induction xs generalizing b s with
  | nil => exact yields_ret h
  | cons x xs ih => exact yields_bind (yields_mono (fun _ _ hJ => ih hJ) (hf x xs b s h))

theorem yields_forEach {f : α → Prog Op Ans Unit} (J : List α → S → Prop)
    (hf : ∀ x xs s, J (x :: xs) s → Yields svc (f x) (fun _ => J xs) s) {xs : List α} (h : J xs s) :
    Yields svc (forEach xs f) (fun _ => J []) s := by
  induction xs generalizing s with
  | nil => exact yields_ret h
  | cons x xs ih => exact yields_bind (yields_mono (fun _ _ hJ => ih hJ) (hf x xs s h))

end Yields

end Script
