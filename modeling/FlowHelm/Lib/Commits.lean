/-
  FlowHelm.Lib.Commits — operations that read a shared value and then write it, side by side.

  An operation reads a fixed number of times and writes once, by what it has read and what it
  finds; nothing holds the others off in between.

  - `step_cases`: only a write changes the value.
  - `all_seen`: what holds of all values holds of what is read.
  - `runs_commit`: what holds of the value and of what the operations returned is kept by a whole
    run just as long as each of its writes keeps it.
  - `first_alone`: the first write of a run is what its operation does alone.
-/
import FlowHelm.Lib.Runs

namespace Commits

open Runs

structure Cell (V Op R : Type) where
  init : V
  /-- How often an operation reads before it writes. -/
  reads : Op → Nat
  /-- The value and the result of a write, by what was read and what is there. -/
  commit : Op → List V → V → V × R

structure Pending (V Op : Type) where
  op : Op
  seen : List V

structure St (V Op R : Type) where
  value : V
  pending : List (Pending V Op)
  /-- The operations that have written, in their order. -/
  log : List (Op × R)

inductive Ev (Op : Type) where
  | start (op : Op)
  | read (i : Nat)
  | write (i : Nat)

variable {V Op R : Type}

namespace Cell

variable (C : Cell V Op R)

def step (s : St V Op R) : Ev Op → Option (St V Op R)
  | .start op => some { s with pending := s.pending ++ [⟨op, []⟩] }
  | .read i => match s.pending[i]? with
    | some p =>
      if p.seen.length < C.reads p.op then some { s with pending := s.pending.set i { p with seen := p.seen ++ [s.value] } }
      else none
    | none => none
  | .write i => match s.pending[i]? with
    | some p =>
      if p.seen.length = C.reads p.op then
        let w := C.commit p.op p.seen s.value
        some ⟨w.1, s.pending.eraseIdx i, s.log ++ [(p.op, w.2)]⟩
      else none
    | none => none

def system : System (St V Op R) (Ev Op) := ⟨⟨C.init, [], []⟩, C.step⟩

/-- An operation between whose reads and write nothing happens. -/
def alone (op : Op) (v : V) : V × R := C.commit op (List.replicate (C.reads op) v) v

/-- A write that is `ok` by what its operation has read and what it finds. -/
def Writing (ok : Pending V Op → V → Prop) (s : St V Op R) : Ev Op → Prop
  | .write i => ∀ p ∈ s.pending[i]?, ok p s.value
  | _ => True

instance decidableWriting (ok : Pending V Op → V → Prop) [∀ p v, Decidable (ok p v)] (s : St V Op R) :
    (e : Ev Op) → Decidable (Writing ok s e)
  | .write i => inferInstanceAs (Decidable (∀ p ∈ s.pending[i]?, ok p s.value))
  | .start _ | .read _ => inferInstanceAs (Decidable True)

variable {C}

/-- A step that is no write leaves the value, and what each operation has read is longer by it
    at most. -/
theorem step_cases {s t : St V Op R} {e : Ev Op} (h : C.step s e = some t) :
    (t.value = s.value ∧ t.log = s.log ∧ (∀ i, e ≠ .write i) ∧
      ∀ p ∈ t.pending, p ∈ s.pending ∨ p.seen = [] ∨ ∃ q ∈ s.pending, p.seen = q.seen ++ [s.value]) ∨
      ∃ i p, e = .write i ∧ s.pending[i]? = some p ∧ p.seen.length = C.reads p.op ∧
        t = ⟨(C.commit p.op p.seen s.value).1, s.pending.eraseIdx i, s.log ++ [(p.op, (C.commit p.op p.seen s.value).2)]⟩ := by
  cases e with
  | start op =>
    obtain rfl := Option.some.inj h
    refine .inl ⟨rfl, rfl, (fun _ he => by cases he), fun p hp => ?_⟩
    rcases List.mem_append.mp hp with hp | hp
    · exact .inl hp
    · exact .inr (.inl (List.mem_singleton.mp hp ▸ rfl))
  | read i =>
    rw [step] at h
    split at h
    · rename_i p hp
      split at h
      · obtain rfl := Option.some.inj h
        refine .inl ⟨rfl, rfl, (fun _ he => by cases he), fun q hq => ?_⟩
        rcases List.mem_or_eq_of_mem_set hq with hq | rfl
        · exact .inl hq
        · exact .inr (.inr ⟨p, List.mem_of_getElem? hp, rfl⟩)
      · cases h
    · cases h
  | write i =>
    rw [step] at h
    split at h
    · rename_i p hp
      split at h
      · rename_i hread
        exact .inr ⟨i, p, rfl, hp, hread, (Option.some.inj h).symm⟩
      · cases h
    · cases h

/-- What holds of the value and of all that was read holds of what is read next. -/
theorem all_seen {P : V → Prop} {value : V} {pending more : List (Pending V Op)} (hvalue : P value)
    (hseen : ∀ p ∈ pending, ∀ v ∈ p.seen, P v)
    (hmore : ∀ p ∈ more, p ∈ pending ∨ p.seen = [] ∨ ∃ q ∈ pending, p.seen = q.seen ++ [value]) :
    ∀ p ∈ more, ∀ v ∈ p.seen, P v := by
  intro p hp v hv
  rcases hmore p hp with hp | hnil | ⟨q, hq, hseenMore⟩
  · exact hseen p hp v hv
  · rw [hnil] at hv
    cases hv
  · rw [hseenMore] at hv
    rcases List.mem_append.mp hv with hv | hv
    · exact hseen q hq v hv
    · exact List.mem_singleton.mp hv ▸ hvalue

/-- A write that keeps `I` just if it is `ok`: so runs of such writes keep it, and no other
    write does. -/
theorem runs_commit {I : V → List (Op × R) → Prop} {ok : Pending V Op → V → Prop} (h0 : I C.init [])
    (hI : ∀ v log p, I v log → (I (C.commit p.op p.seen v).1 (log ++ [(p.op, (C.commit p.op p.seen v).2)]) ↔ ok p v))
    {s : St V Op R} (h : Reach C.system (Writing ok) s) :
    I s.value s.log ∧ ∀ e t, C.step s e = some t → (I t.value t.log ↔ Writing ok s e) := by
  refine h.keeps_iff (I := fun s => I s.value s.log) h0 fun s e t hs hst => ?_
  rcases step_cases hst with ⟨hvalue, hlog, hwrite, -⟩ | ⟨i, p, rfl, hp, -, rfl⟩
  · rw [hvalue, hlog]
    refine iff_of_true hs ?_
    cases e with
    | write i => exact absurd rfl (hwrite i)
    | start op => trivial
    | read i => trivial
  · simp only [Writing, hp, Option.mem_def, Option.some.injEq, forall_eq']
    exact hI s.value s.log p hs

/-- As long as nothing was written everything read is the first value, so the first write is
    what its operation does alone. -/
theorem first_alone {s : St V Op R} (h : Reach C.system Free s) :
    (s.log = [] → s.value = C.init ∧ ∀ p ∈ s.pending, ∀ v ∈ p.seen, v = C.init) ∧
      ∀ op r, s.log = [(op, r)] → (s.value, r) = C.alone op C.init := by
  refine h.inv (I := fun s => (s.log = [] → s.value = C.init ∧ ∀ p ∈ s.pending, ∀ v ∈ p.seen, v = C.init) ∧
    ∀ op r, s.log = [(op, r)] → (s.value, r) = C.alone op C.init)
      ⟨fun _ => ⟨rfl, List.forall_mem_nil _⟩, fun _ _ hlog => by cases hlog⟩ ?_
  rintro s e t - ⟨hnone, hone⟩ - hst
  rcases step_cases hst with ⟨hvalue, hlog, -, hpending⟩ | ⟨i, p, rfl, hp, hread, rfl⟩
  · rw [hvalue, hlog]
    refine ⟨fun hempty => ?_, hone⟩
    obtain ⟨hinit, hseen⟩ := hnone hempty
    exact ⟨hinit, all_seen (P := (· = C.init)) hinit hseen hpending⟩
  · refine ⟨fun hempty => absurd hempty (by simp), fun op r hlog => ?_⟩
    -- the log was empty before its first entry
    have hempty : s.log = [] := by
      cases hs : s.log with
      | nil => rfl
      | cons x xs => simp [hs] at hlog
    rw [hempty, List.nil_append, List.cons.injEq, Prod.mk.injEq] at hlog
    obtain ⟨⟨rfl, rfl⟩, -⟩ := hlog
    obtain ⟨hinit, hseen⟩ := hnone hempty
    have hreplicate : p.seen = List.replicate (C.reads p.op) C.init :=
      List.eq_replicate_iff.mpr ⟨hread, hseen p (List.mem_of_getElem? hp)⟩
    rw [alone, hinit, hreplicate]

end Cell

end Commits
