/-
  FlowHelm.Lib.Connections — programs on connections of their own to one database, at READ
  COMMITTED.

  A `RowStore` says how a statement is answered in a state, which writes it makes there and
  which rows each of them locks. Between BEGIN and COMMIT a connection keeps its writes:
  it alone sees them, and no other connection can write the rows they lock. Every other
  statement is committed at once. A statement sees what is committed when it runs; a
  constraint refuses a write, or the COMMIT of one, that would leave an invalid state. A
  connection can break with its transaction open, which drops the writes.

  - `conn_on` / `conn_begin` / `conn_commit` / `conn_rollback`: everything a statement can do.
  - `free_row`: what another connection has locked is not written.
  - `wp_via`: a program proved of its own connection, put beside the others.
-/
import FlowHelm.Lib.RelyGuarantee
import FlowHelm.Lib.Transaction

namespace Script

open Prog

variable {Op : Type} {Ans : Op → Type} {C S W Row α β : Type}

/-! ## One program among others -/

/-- A service that each of `C` has its own access to. -/
def Service.each (svc : C → Service Op Ans S) : Service (C × Op) (fun o => Ans o.2) S where
  exec o s a := (svc o.1).exec o.2 s a

def Exn.via (c : C) : Exn Op → Exn (C × Op)
  | .error message => .error message
  | .failed o f => .failed (c, o) f

def Prog.via (c : C) : Prog Op Ans α → Prog (C × Op) (fun o => Ans o.2) α
  | ret a => ret a
  | throw e => throw (e.via c)
  | op o k err => op (c, o) (fun a => (k a).via c) (fun f => (err f).via c)

def Did.via (c : C) : Did Op Ans → Did (C × Op) (fun o => Ans o.2)
  | .ran o a => .ran (c, o) a
  | .refused o => .refused (c, o)
  | .lost o a => .lost (c, o) a

def Setting.via (c : C) (Γ : Setting (C × Op) (fun o => Ans o.2) S) : Setting Op Ans S :=
  { Γ with ok := fun s d => Γ.ok s (d.via c) }

theorem wp_via {svc : C → Service Op Ans S} {Γ : Setting (C × Op) (fun o => Ans o.2) S} {c : C} {p : Prog Op Ans α}
    {Q : α → S → Prop} {E : Exn (C × Op) → S → Prop} {s : S}
    (h : wp (svc c) (Γ.via c) p Q (fun e t => E (e.via c) t) s) : wp (Service.each svc) Γ (p.via c) Q E s := by
  induction p generalizing s with
  | ret a => exact h
  | throw e => exact h
  | op o k err ihk ihe =>
    intro s' hr hi
    obtain ⟨htotal, hrefused, hx⟩ := h s' hr hi
    refine ⟨htotal, fun hok => ihe _ (hrefused hok), ?_⟩
    intro a t ha
    obtain ⟨hran, hlost⟩ := hx a t ha
    constructor
    · intro hok
      obtain ⟨hg, hi', hk⟩ := hran hok
      exact ⟨hg, hi', ihk a hk⟩
    · intro hok
      obtain ⟨hg, hi', hk⟩ := hlost hok
      exact ⟨hg, hi', ihe .lost hk⟩

/-! ## Rows and locks -/

structure RowStore (Op : Type) (Ans : Op → Type) (S W Row : Type) where
  answers : (o : Op) → S → Ans o → Bool
  writes : (o : Op) → S → Ans o → List W
  apply : S → W → S
  rows : W → List Row
  valid : S → Bool

/-- The transaction of a connection. -/
inductive Conn (W : Type) where
  | idle
  | active (held : List W)
  | broken

/-- A connection that is not listed is idle. -/
structure Shared (C S W : Type) where
  committed : S
  conns : List (C × Conn W)

section Connections

variable [DecidableEq C] [DecidableEq Row] (D : RowStore Op Ans S W Row)

namespace Shared

def conn (s : Shared C S W) (c : C) : Conn W := ((s.conns.find? (·.1 == c)).map (·.2)).getD .idle

def set (s : Shared C S W) (c : C) (x : Conn W) : Shared C S W := { s with conns := (c, x) :: s.conns.filter (·.1 != c) }

@[simp] theorem set_committed (s : Shared C S W) (c : C) (x : Conn W) : (s.set c x).committed = s.committed := rfl

@[simp] theorem conn_set (s : Shared C S W) (c : C) (x : Conn W) : (s.set c x).conn c = x := by
  simp [conn, set]

theorem conn_set_ne (s : Shared C S W) {c i : C} (h : i ≠ c) (x : Conn W) : (s.set c x).conn i = s.conn i := by
  have hfind : ((c, x) :: s.conns.filter (·.1 != c)).find? (·.1 == i) = s.conns.find? (·.1 == i) := by
    rw [List.find?_cons_of_neg (by simpa using Ne.symm h), List.find?_filter]
    congr 1
    funext y
    by_cases hy : y.1 = i
    · simp [hy, h]
    · simp [hy]
  unfold conn set
  rw [hfind]

theorem mem_conns {s : Shared C S W} {c : C} {held : List W} (h : s.conn c = .active held) :
    (c, Conn.active held) ∈ s.conns := by
  unfold conn at h
  cases hf : s.conns.find? (·.1 == c) with
  | none =>
    rw [hf] at h
    cases h
  | some y =>
    rw [hf] at h
    have hkey : y.1 = c := by simpa using List.find?_some hf
    have hconn : y.2 = .active held := h
    rw [← hkey, ← hconn]
    exact List.mem_of_find?_eq_some hf

end Shared

namespace RowStore

/-- What connection `c` sees. -/
def view (s : Shared C S W) (c : C) : S := match s.conn c with
  | .active held => held.foldl D.apply s.committed
  | _ => s.committed

/-- Whether a connection in the state `x` keeps `w` from being written. -/
def locks (x : Conn W) (w : W) : Bool := match x with
  | .active held => held.any fun v => (D.rows v).any fun r => decide (r ∈ D.rows w)
  | _ => false

/-- No connection but `c` has locked what `ws` write. -/
def free (s : Shared C S W) (c : C) (ws : List W) : Bool :=
  s.conns.all fun y => y.1 == c || ws.all fun w => !D.locks y.2 w

theorem free_row {s : Shared C S W} {c i : C} {ws held : List W} (h : D.free s c ws = true) (hi : i ≠ c)
    (hconn : s.conn i = .active held) {v w : W} (hv : v ∈ held) (hw : w ∈ ws) {r : Row} (hr : r ∈ D.rows v) :
    r ∉ D.rows w := by
  intro hrow
  have hall := List.all_eq_true.mp h _ (Shared.mem_conns hconn)
  have hne : (i == c) = false := by simpa using hi
  simp only [hne, Bool.false_or, List.all_eq_true] at hall
  have hlocked : D.locks (.active held) w = true :=
    List.any_eq_true.mpr ⟨v, hv, List.any_eq_true.mpr ⟨r, hr, decide_eq_true hrow⟩⟩
  simpa [hlocked] using hall w hw

end RowStore

/-- The database as connection `c` has it. -/
def connService (c : C) : Service (TxOp Op) (TxAns Ans) (Shared C S W) where
  exec
    | .begin, s, _ => match s.conn c with
      | .active _ => none
      | _ => some (s.set c (.active []))
    | .commit, s, _ => match s.conn c with
      | .active held =>
        let t := held.foldl D.apply s.committed
        if D.valid t then some (Shared.set { s with committed := t } c .idle) else none
      | _ => none
    | .rollback, s, _ => some (s.set c .idle)
    | .on o, s, a =>
      let ws := D.writes o (D.view s c) a
      let t := ws.foldl D.apply (D.view s c)
      if D.answers o (D.view s c) a && D.free s c ws && D.valid t then
        match s.conn c with
        | .idle => some { s with committed := t }
        | .active held => some (s.set c (.active (held ++ ws)))
        | .broken => none
      else none

/-- The connection breaks; the server drops its transaction. -/
def hangUp (s : Shared C S W) (c : C) : Option (Shared C S W) := match s.conn c with
  | .active _ => some (s.set c .broken)
  | _ => none

variable {D} {s t : Shared C S W} {c : C}

theorem conn_begin {a : Unit} (h : (connService D c).exec .begin s a = some t) : t = s.set c (.active []) := by
  simp only [connService] at h
  split at h
  · cases h
  · exact (Option.some.inj h).symm

theorem conn_commit {a : Unit} (h : (connService D c).exec .commit s a = some t) :
    ∃ held, s.conn c = .active held ∧ D.valid (held.foldl D.apply s.committed) = true ∧
      t = Shared.set { s with committed := held.foldl D.apply s.committed } c .idle := by
  simp only [connService] at h
  split at h
  · rename_i held hconn
    split at h
    · rename_i hvalid
      exact ⟨held, hconn, hvalid, (Option.some.inj h).symm⟩
    · cases h
  · cases h

theorem conn_rollback {a : Unit} (h : (connService D c).exec .rollback s a = some t) : t = s.set c .idle :=
  (Option.some.inj h).symm

theorem conn_on {o : Op} {a : Ans o} (h : (connService D c).exec (.on o) s a = some t) :
    D.answers o (D.view s c) a = true ∧ D.free s c (D.writes o (D.view s c) a) = true ∧
      ((s.conn c = .idle ∧ D.valid ((D.writes o s.committed a).foldl D.apply s.committed) = true ∧
          t = { s with committed := (D.writes o s.committed a).foldl D.apply s.committed }) ∨
        ∃ held, s.conn c = .active held ∧ t = s.set c (.active (held ++ D.writes o (D.view s c) a))) := by
  simp only [connService] at h
  split at h
  · rename_i hall
    simp only [Bool.and_eq_true] at hall
    obtain ⟨⟨hans, hfree⟩, hvalid⟩ := hall
    refine ⟨hans, hfree, ?_⟩
    split at h
    · rename_i hconn
      have hview : D.view s c = s.committed := by
        unfold RowStore.view
        rw [hconn]
      rw [hview] at hvalid h
      exact Or.inl ⟨hconn, hvalid, (Option.some.inj h).symm⟩
    · rename_i held hconn
      exact Or.inr ⟨held, hconn, (Option.some.inj h).symm⟩
    · cases h
  · cases h

theorem hangUp_spec (h : hangUp s c = some t) : t = s.set c .broken := by
  unfold hangUp at h
  split at h
  · exact (Option.some.inj h).symm
  · cases h

end Connections

end Script
