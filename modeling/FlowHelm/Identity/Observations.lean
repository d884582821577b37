/-
  FlowHelm.Identity.Observations — identity.ts: `observeAgentPersonality` and
  `observeUserPersonality`, many of them at once on one dimension that has no row yet.

  A call reads the dimension's row, if there is one, and then inserts it or updates it: the
  counter is raised where it is, the confidence is what the call computed from the row it read.
  The row is told by what calls write to it. What a REAL column keeps of a number is a parameter.

  - `Sound`: every call so far succeeded and was counted, and each but the first confirmed.
  - `observations_count`: so it is just while every write finds the row as its call read it, or
    one whose confirmation is the same, as at the cap.
  - `two_first_observations_collide` / `a_confirmation_is_lost`: two calls that read before either
    writes.
-/
import FlowHelm.Lib.Commits
import FlowHelm.Memory.Reflection

namespace FlowHelm.Identity

open Js Runs Commits
open Memory (confirmConfidence)

inductive PersonalitySource where
  | inferred
  | declared
  | onboarding
  deriving DecidableEq, Repr

/-- A row of a dimension; that of an agent has no source. -/
structure PersonalityRow (σ : Type) where
  content : JsString
  confidence : ℚ
  evidenceCount : Nat
  source : σ
  createdAt : Nat
  updatedAt : Nat
  deriving DecidableEq

structure Observation (σ : Type) where
  content : JsString
  source : σ
  now : Nat
  deriving DecidableEq

variable {σ : Type} (real : ℚ → ℚ)

def uniqueViolation : String := "duplicate key value violates unique constraint"

/-- The INSERT of a call that read no row, and the UPDATE of one that read `existing`. -/
def write (initial : σ → ℚ) (o : Observation σ) (existing row : Option (PersonalityRow σ)) :
    Option (PersonalityRow σ) × Except String (PersonalityRow σ) :=
  match existing, row with
  | none, none =>
    let inserted := ⟨o.content, real (initial o.source), 1, o.source, o.now, o.now⟩
    (some inserted, .ok inserted)
  | none, some r => (some r, .error uniqueViolation)
  | some _, none => (none, .error "rows[0] is undefined")
  | some e, some r =>
    let updated := { r with content := o.content
                            confidence := real (confirmConfidence e.confidence)
                            evidenceCount := r.evidenceCount + 1
                            source := o.source
                            updatedAt := o.now }
    (some updated, .ok updated)

/-- The calls on one dimension. -/
def observing (initial : σ → ℚ) : Cell (Option (PersonalityRow σ)) (Observation σ) (Except String (PersonalityRow σ)) where
  init := none
  reads _ := 1
  commit o seen row := write real initial o (seen.headD none) row

def observeAgentPersonality : Cell (Option (PersonalityRow Unit)) (Observation Unit) (Except String (PersonalityRow Unit)) :=
  observing real fun _ => 8 / 10

def initialConfidence (source : PersonalitySource) : ℚ :=
  if source = .declared ∨ source = .onboarding then 7 / 10 else 3 / 10

def observeUserPersonality :
    Cell (Option (PersonalityRow PersonalitySource)) (Observation PersonalitySource)
        (Except String (PersonalityRow PersonalitySource)) :=
  observing real initialConfidence

/-! ## Counting -/

abbrev Run (σ : Type) := St (Option (PersonalityRow σ)) (Observation σ) (Except String (PersonalityRow σ))

/-- The count and the confidence that so many calls should leave. -/
def counted (initial : σ → ℚ) : List (Observation σ) → Option (Nat × ℚ)
  | [] => none
  | first :: more => some (more.length + 1, (real ∘ confirmConfidence)^[more.length] (real (initial first.source)))

def PersonalityRow.tally (r : PersonalityRow σ) : Nat × ℚ := (r.evidenceCount, r.confidence)

/-- Every call that wrote succeeded, and the row has them all. -/
def Sound (initial : σ → ℚ) (row : Option (PersonalityRow σ))
    (log : List (Observation σ × Except String (PersonalityRow σ))) : Prop :=
  (∀ x ∈ log, x.2.isOk = true) ∧ row.map (·.tally) = counted real initial (log.map (·.1))

/-- The row a call read and the one it finds, as far as its write goes. -/
def SameFor : Option (PersonalityRow σ) → Option (PersonalityRow σ) → Prop
  | none, none => True
  | some e, some r => real (confirmConfidence e.confidence) = real (confirmConfidence r.confidence)
  | _, _ => False

instance decidableSameFor : (existing row : Option (PersonalityRow σ)) → Decidable (SameFor real existing row)
  | none, none => inferInstanceAs (Decidable True)
  | some _, some _ => inferInstanceAs (Decidable (_ = _))
  | none, some _ | some _, none => inferInstanceAs (Decidable False)

/-- A write finds what its call read. -/
def InTurn (s : Run σ) (e : Ev (Observation σ)) : Prop := Cell.Writing (fun p row => SameFor real (p.seen.headD none) row) s e

instance (s : Run σ) (e : Ev (Observation σ)) : Decidable (InTurn real s e) := inferInstanceAs (Decidable (Cell.Writing _ s e))

/-- One more call counts as one and confirms. -/
theorem counted_append (initial : σ → ℚ) (os : List (Observation σ)) (o : Observation σ) :
    counted real initial (os ++ [o]) = match counted real initial os with
      | none => some (1, real (initial o.source))
      | some (n, confidence) => some (n + 1, real (confirmConfidence confidence)) := by
  cases os with
  | nil => rfl
  | cons first more =>
    simp only [counted, List.cons_append, List.length_append, List.length_singleton, Function.iterate_succ_apply',
      Function.comp_apply]

/-- A write counts just if it finds what its call read. -/
theorem write_sound {initial : σ → ℚ} {row : Option (PersonalityRow σ)}
    {log : List (Observation σ × Except String (PersonalityRow σ))} (h : Sound real initial row log) (o : Observation σ)
    (existing : Option (PersonalityRow σ)) :
    Sound real initial (write real initial o existing row).1 (log ++ [(o, (write real initial o existing row).2)]) ↔
      SameFor real existing row := by
  obtain ⟨hok, htally⟩ := h
  have hlog : ∀ x : Except String (PersonalityRow σ), (∀ y ∈ log ++ [(o, x)], y.2.isOk = true) ↔ x.isOk = true := by
    intro x
    simp only [List.mem_append, List.mem_singleton]
    exact ⟨fun hall => hall _ (.inr rfl), fun hx y hy => hy.elim (hok y) fun heq => heq ▸ hx⟩
  unfold Sound
  rw [hlog, List.map_append, List.map_singleton, counted_append, ← htally]
  cases existing with
  | none => cases row with
    | none => simp [write, SameFor, PersonalityRow.tally, Except.isOk, Except.toBool]
    | some r => simp [write, SameFor, Except.isOk, Except.toBool]
  | some e => cases row with
    | none => simp [write, SameFor, Except.isOk, Except.toBool]
    | some r => simp [write, SameFor, PersonalityRow.tally, Except.isOk, Except.toBool]

/-- The calls that wrote are counted, and each but the first confirmed, as long as each write
    finds the row as its call read it; the first that does not is lost, or fails. -/
theorem observations_count (initial : σ → ℚ) {s : Run σ} (h : Reach (observing real initial).system (InTurn real) s) :
    Sound real initial s.value s.log ∧
      ∀ e t, (observing real initial).step s e = some t → (Sound real initial t.value t.log ↔ InTurn real s e) := by
  refine Cell.runs_commit (I := Sound real initial) ⟨List.forall_mem_nil _, rfl⟩ (fun row log p hsound => ?_) h
  exact write_sound real hsound p.op (p.seen.headD none)

/-! ## Runs -/

/-- A call from its start to its write, the `i`th of those that have not written. -/
def call (o : Observation σ) (i : Nat) : List (Ev (Observation σ)) := [.start o, .read i, .write i]

/-- Two calls, the second of which reads before the first writes. -/
def overlapping (o p : Observation σ) : List (Ev (Observation σ)) := [.start o, .start p, .read 0, .read 1, .write 0, .write 0]

def dry : Observation Unit := ⟨ofString "dry", (), 1⟩

/-- Three calls one after the other, in a column that keeps every number. -/
theorem three_observations_count : ∃ s : Run Unit, Reach (observeAgentPersonality id).system (InTurn id) s ∧
    Sound id (fun _ => 8 / 10) s.value s.log ∧ s.value.map (·.tally) = some (3, 838 / 1000) := by
  obtain ⟨s, hs, htally⟩ := reach_any (M := (observeAgentPersonality id).system) (C := InTurn id)
    (P := fun s => decide (s.value.map (·.tally) = some (3, 838 / 1000)))
    (call dry 0 ++ call dry 0 ++ call dry 0) (by decide +kernel) (by decide +kernel)
  exact ⟨s, hs, (observations_count id (fun _ => 8 / 10) hs).1, of_decide_eq_true htally⟩

/-- Both find no row, and the second INSERT fails. -/
theorem two_first_observations_collide : ∃ s : Run Unit, Reach (observeAgentPersonality id).system Free s ∧
    ¬Sound id (fun _ => 8 / 10) s.value s.log := by
  obtain ⟨s, hs, hfails⟩ := reach_any (M := (observeAgentPersonality id).system) (C := Free)
    (P := fun s => s.log.any fun x => !x.2.isOk) (overlapping dry dry) (meets_free ..) (by decide)
  refine ⟨s, hs, fun h => ?_⟩
  obtain ⟨x, hx, hbad⟩ := List.any_eq_true.mp hfails
  simp [h.1 x hx] at hbad

/-- Both read the same row: the counter has both, the confidence one. -/
theorem a_confirmation_is_lost : ∃ s : Run PersonalitySource, Reach (observeUserPersonality id).system Free s ∧
    s.value.map (·.tally) = some (3, 37 / 100) ∧ ¬Sound id initialConfidence s.value s.log := by
  let o : Observation PersonalitySource := ⟨ofString "early", .inferred, 1⟩
  obtain ⟨s, hs, hrun⟩ := reach_any (M := (observeUserPersonality id).system) (C := Free)
    (P := fun s => decide (s.value.map (·.tally) = some (3, 37 / 100) ∧ s.log.map (·.1) = [o, o, o]))
    (call o 0 ++ overlapping o o) (meets_free ..) (by decide +kernel)
  obtain ⟨htally, hlog⟩ := of_decide_eq_true hrun
  refine ⟨s, hs, htally, fun h => ?_⟩
  have hlost := htally.symm.trans h.2
  rw [hlog] at hlost
  exact absurd hlost (by decide +kernel)

end FlowHelm.Identity
