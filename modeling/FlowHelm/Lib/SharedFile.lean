/-
  FlowHelm.Lib.SharedFile — processes that read a file whole, and write it anew from what they
  read. Nothing keeps them apart.

  A read takes bytes from its own offset until there are no more; a write empties the file and
  puts its bytes at its own offset, some at a time. `op i` is what process `i` makes of the file
  it read: what it writes, if it does, and its result.

  - `Isolated`: who writes has read the file as it is, and nobody is at it meanwhile.
  - `Reach.serializable`: then the processes are as good as run one after another.
-/
import Mathlib.Data.Fintype.Basic
import Mathlib.Data.List.Nodup
import Mathlib.Logic.Function.Basic
import FlowHelm.Lib.Runs

namespace SharedFile

open Runs

variable {ι B R : Type}

inductive Stage (B R : Type) where
  | idle
  | reading (got : List B)
  | read (file : Option (List B))
  | writing (written left : List B) (result : R)
  | returned (result : R)
  deriving DecidableEq

def Stage.result : Stage B R → Option R
  | .returned result => some result
  | _ => none

/-- A file that does not exist has no bytes. -/
structure State (ι B R : Type) where
  file : Option (List B)
  stage : ι → Stage B R

inductive Event (ι : Type) where
  | start (i : ι)
  /-- One byte and so many more. -/
  | pull (i : ι) (more : Nat)
  /-- What was read is worked on; a write opens the file. -/
  | work (i : ι)
  | put (i : ι) (more : Nat)

/-- A gap that a write leaves is filled. -/
def overwrite (fill : B) (offset : Nat) (bytes file : List B) : List B :=
  file.take offset ++ List.replicate (offset - file.length) fill ++ bytes ++ file.drop (offset + bytes.length)

section System

variable [DecidableEq ι]

def State.move (s : State ι B R) (i : ι) (stage : Stage B R) : State ι B R := { s with stage := Function.update s.stage i stage }

variable (fill : B) (op : ι → Option (List B) → Option (List B) × R)

def step (s : State ι B R) : Event ι → Option (State ι B R)
  | .start i => match s.stage i with
    | .idle => some (s.move i (match s.file with
      | none => .read none
      | some _ => .reading []))
    | _ => none
  | .pull i more => match s.stage i with
    | .reading got => some (s.move i (match ((s.file.getD []).drop got.length).take (more + 1) with
      | [] => .read (some got)
      | b :: bytes => .reading (got ++ b :: bytes)))
    | _ => none
  | .work i => match s.stage i with
    | .read file => match op i file with
      | (none, result) => some (s.move i (.returned result))
      | (some bytes, result) => some ⟨some [], (s.move i (.writing [] bytes result)).stage⟩
    | _ => none
  | .put i more => match s.stage i with
    | .writing written left result =>
      let file := overwrite fill written.length (left.take (more + 1)) (s.file.getD [])
      some ⟨some file, (s.move i (match left.drop (more + 1) with
        | [] => .returned result
        | b :: bytes => .writing (written ++ left.take (more + 1)) (b :: bytes) result)).stage⟩
    | _ => none

def system (file : Option (List B)) : System (State ι B R) (Event ι) where
  init := ⟨file, fun _ => .idle⟩
  step := step fill op

end System

/-- It has read a part. -/
def State.Reading (s : State ι B R) (i : ι) : Prop := ∃ got, s.stage i = .reading got ∧ got ≠ []

def State.Writing (s : State ι B R) (i : ι) : Prop := ∃ written left result, s.stage i = .writing written left result

/-- Nothing is read while somebody writes. A write begins while nobody writes or has read a
    part, and the file is as it was read. -/
def Isolated (op : ι → Option (List B) → Option (List B) × R) (s : State ι B R) : Event ι → Prop
  | .pull _ _ => ∀ j, ¬s.Writing j
  | .work i => match s.stage i with
    | .read file => (op i file).1.isSome → s.file = file ∧ ∀ j, ¬s.Reading j ∧ ¬s.Writing j
    | _ => True
  | _ => True

instance (s : State ι B R) (i : ι) : Decidable (s.Reading i) :=
  match h : s.stage i with
  | .reading [] => isFalse fun ⟨_, hgot, hne⟩ => hne (by cases h.symm.trans hgot; rfl)
  | .reading (b :: got) => isTrue ⟨b :: got, h, nofun⟩
  | .idle => isFalse fun ⟨_, hgot, _⟩ => nomatch h.symm.trans hgot
  | .read _ => isFalse fun ⟨_, hgot, _⟩ => nomatch h.symm.trans hgot
  | .writing _ _ _ => isFalse fun ⟨_, hgot, _⟩ => nomatch h.symm.trans hgot
  | .returned _ => isFalse fun ⟨_, hgot, _⟩ => nomatch h.symm.trans hgot

instance (s : State ι B R) (i : ι) : Decidable (s.Writing i) :=
  match h : s.stage i with
  | .writing written left result => isTrue ⟨written, left, result, h⟩
  | .idle => isFalse fun ⟨_, _, _, hw⟩ => nomatch h.symm.trans hw
  | .reading _ => isFalse fun ⟨_, _, _, hw⟩ => nomatch h.symm.trans hw
  | .read _ => isFalse fun ⟨_, _, _, hw⟩ => nomatch h.symm.trans hw
  | .returned _ => isFalse fun ⟨_, _, _, hw⟩ => nomatch h.symm.trans hw

instance [Fintype ι] [DecidableEq B] (op : ι → Option (List B) → Option (List B) × R) (s : State ι B R) :
    DecidablePred (Isolated op s)
  | .start _ => inferInstanceAs (Decidable True)
  | .pull _ _ => inferInstanceAs (Decidable (∀ j, ¬s.Writing j))
  | .work i =>
    have : ∀ st : Stage B R, Decidable (match st with
        | .read file => (op i file).1.isSome → s.file = file ∧ ∀ j, ¬s.Reading j ∧ ¬s.Writing j
        | _ => True)
      | .read file => inferInstanceAs (Decidable ((op i file).1.isSome → s.file = file ∧ ∀ j, ¬s.Reading j ∧ ¬s.Writing j))
      | .idle => isTrue trivial
      | .reading _ => isTrue trivial
      | .writing _ _ _ => isTrue trivial
      | .returned _ => isTrue trivial
    this (s.stage i)
  | .put _ _ => inferInstanceAs (Decidable True)

/-! ## One after another -/

section Serial

variable (op : ι → Option (List B) → Option (List B) × R)

/-- The file after process `i`, alone. -/
def after (i : ι) (file : Option (List B)) : Option (List B) := (op i file).1.or file

/-- In this order the processes lead from one file to the other, each with its result. -/
def Serially (result : ι → Option R) : Option (List B) → List ι → Option (List B) → Prop
  | file, [], last => file = last
  | file, i :: order, last => result i = some (op i file).2 ∧ Serially result (after op i file) order last

/-- What those that returned did to the file, they did in some order. -/
def Serializable (file : Option (List B)) (s : State ι B R) : Prop :=
  ∃ order : List ι, order.Nodup ∧ (∀ i, i ∈ order ↔ (s.stage i).result.isSome) ∧
    Serially op (fun i => (s.stage i).result) file order s.file

end Serial

variable {op : ι → Option (List B) → Option (List B) × R}

theorem Serially.mono {result result' : ι → Option R} {order : List ι} (h : ∀ i ∈ order, result' i = result i)
    {file last : Option (List B)} (hs : Serially op result file order last) : Serially op result' file order last := by
  induction order generalizing file with
  | nil => exact hs
  | cons i order ih => exact ⟨(h i (.head _)).trans hs.1, ih (fun j hj => h j (.tail _ hj)) hs.2⟩

theorem Serially.snoc {result : ι → Option R} {order : List ι} {i : ι} {file mid : Option (List B)}
    (hs : Serially op result file order mid) (hi : result i = some (op i mid).2) :
    Serially op result file (order ++ [i]) (after op i mid) := by
  induction order generalizing file with
  | nil =>
    obtain rfl : file = mid := hs
    exact ⟨hi, rfl⟩
  | cons j order ih => exact ⟨hs.1, ih hs.2⟩

theorem Serially.last_eq {result : ι → Option R} {order : List ι} {file last : Option (List B)}
    (hs : Serially op result file order last) : last = order.foldl (fun file i => after op i file) file := by
  induction order generalizing file with
  | nil => exact hs.symm
  | cons i order ih => exact ih hs.2

/-- The result that is certain: of a process that will not write, once it has read. -/
def Stage.outcome (op : Option (List B) → Option (List B) × R) : Stage B R → Option R
  | .read file => match op file with
    | (none, result) => some result
    | (some _, _) => none
  | .writing _ _ result => some result
  | .returned result => some result
  | _ => none

theorem outcome_read {op : Option (List B) → Option (List B) × R} {file : Option (List B)} (h : (op file).1 = none) :
    (Stage.read file).outcome op = some (op file).2 := by
  unfold Stage.outcome
  dsimp only
  generalize op file = done at h ⊢
  obtain ⟨bytes, result⟩ := done
  cases h
  rfl

theorem outcome_writes {op : Option (List B) → Option (List B) × R} {file : Option (List B)} (h : (op file).1.isSome) :
    (Stage.read file).outcome op = none := by
  unfold Stage.outcome
  dsimp only
  generalize op file = done at h ⊢
  obtain ⟨bytes, result⟩ := done
  cases bytes with
  | none => cases h
  | some bytes => rfl

/-- `order` are the processes whose result is certain; they lead to `last`. -/
structure Ordered (op : ι → Option (List B) → Option (List B) × R) (stage : ι → Stage B R) (file : Option (List B))
    (order : List ι)
    (last : Option (List B)) : Prop where
  nodup : order.Nodup
  mem : ∀ i, i ∈ order ↔ ((stage i).outcome (op i)).isSome
  serially : Serially op (fun i => (stage i).outcome (op i)) file order last

section Moves

variable [DecidableEq ι] {stage : ι → Stage B R} {file last : Option (List B)} {order : List ι} {i : ι} {st : Stage B R}

theorem outcome_other {j : ι} (h : j ≠ i) : (Function.update stage i st j).outcome (op j) = (stage j).outcome (op j) := by
  rw [Function.update_of_ne h]

/-- A step that leaves what is certain. -/
theorem Ordered.stay (h : Ordered op stage file order last) (hi : st.outcome (op i) = (stage i).outcome (op i)) :
    Ordered op (Function.update stage i st) file order last := by
  have hsame : ∀ j, (Function.update stage i st j).outcome (op j) = (stage j).outcome (op j) := by
    intro j
    by_cases hj : j = i
    · subst hj
      rw [Function.update_self, hi]
    · exact outcome_other hj
  refine ⟨h.nodup, fun j => ?_, h.serially.mono fun j _ => hsame j⟩
  rw [hsame]
  exact h.mem j

/-- A step that makes the result of `i` certain. -/
theorem Ordered.commit (h : Ordered op stage file order last) (hbefore : (stage i).outcome (op i) = none)
    (hi : st.outcome (op i) = some (op i last).2) :
    Ordered op (Function.update stage i st) file (order ++ [i]) (after op i last) := by
  have hnew : i ∉ order := by
    rw [h.mem, hbefore]
    exact Bool.false_ne_true
  refine ⟨?_, fun j => ?_, ?_⟩
  · exact List.nodup_append_comm.mp (List.nodup_cons.mpr ⟨hnew, h.nodup⟩)
  · rw [List.mem_append, List.mem_singleton]
    by_cases hj : j = i
    · subst hj
      rw [Function.update_self, hi]
      simp
    · rw [outcome_other hj, h.mem j]
      simp [hj]
  · refine Serially.snoc (h.serially.mono fun j hj => outcome_other ?_) ?_
    · rintro rfl
      exact hnew hj
    · rw [Function.update_self, hi]

end Moves

/-! ## Isolated runs -/

/-- How the file stands to `last`, which the processes so far lead to. -/
structure Held (s : State ι B R) (last : Option (List B)) : Prop where
  reading : ∀ i got, s.stage i = .reading got → s.file.isSome ∧ (got ≠ [] → s.file = last ∧ ∃ rest, last = some (got ++ rest))
  writing : ∀ i written left result, s.stage i = .writing written left result →
    s.file = some written ∧ last = some (written ++ left) ∧ ∀ j, j ≠ i → ¬s.Reading j ∧ ¬s.Writing j
  quiet : (∀ i, ¬s.Writing i) → s.file = last

section Steps

variable [DecidableEq ι] {fill : B} {s t : State ι B R} {file last : Option (List B)} {order : List ι} {i : ι}

theorem move_self {st : Stage B R} : (s.move i st).stage i = st := Function.update_self ..

theorem move_other {st : Stage B R} {j : ι} (h : j ≠ i) : (s.move i st).stage j = s.stage j := Function.update_of_ne h ..

theorem move_reading {st : Stage B R} {j : ι} {got : List B} (h : (s.move i st).stage j = .reading got) :
    (j = i ∧ st = .reading got) ∨ s.stage j = .reading got := by
  by_cases hj : j = i
  · subst hj
    exact .inl ⟨rfl, move_self.symm.trans h⟩
  · exact .inr ((move_other hj).symm.trans h)

theorem move_writing {st : Stage B R} {j : ι} {written left : List B} {result : R}
    (h : (s.move i st).stage j = .writing written left result) :
    (j = i ∧ st = .writing written left result) ∨ s.stage j = .writing written left result := by
  by_cases hj : j = i
  · subst hj
    exact .inl ⟨rfl, move_self.symm.trans h⟩
  · exact .inr ((move_other hj).symm.trans h)

/-- Process `i` has read a part. -/
theorem Held.move (h : Held s last) (hnone : ∀ j, ¬s.Writing j) {got : List B} (hlast : ∃ rest, last = some (got ++ rest)) :
    Held (s.move i (.reading got)) last := by
  have hnone' : ∀ j, ¬(s.move i (.reading got)).Writing j := by
    rintro j ⟨written, left, result, hj⟩
    rcases move_writing hj with ⟨-, ⟨⟩⟩ | hj
    exact hnone j ⟨_, _, _, hj⟩
  have hfile := h.quiet hnone
  refine ⟨fun j got hj => ?_, fun j _ _ _ hj => absurd ⟨_, _, _, hj⟩ (hnone' j), fun _ => hfile⟩
  rcases move_reading hj with ⟨-, ⟨⟩⟩ | hj
  · obtain ⟨rest, hrest⟩ := hlast
    have hsome : s.file.isSome := by rw [hfile, hrest, Option.isSome_some]
    exact ⟨hsome, fun _ => ⟨hfile, rest, hrest⟩⟩
  · exact h.reading j got hj

/-- Process `i` has read nothing yet, or is not at the file any more. -/
theorem Held.leave (h : Held s last) (hi : ¬s.Writing i) {st : Stage B R}
    (hread : ∀ got, st = .reading got → s.file.isSome ∧ got = [])
    (hwrite : ∀ written left result, st ≠ .writing written left result) : Held (s.move i st) last := by
  have hwriting : ∀ {j written left result}, (s.move i st).stage j = .writing written left result →
      s.stage j = .writing written left result :=
    fun hj => (move_writing hj).resolve_left fun hst => hwrite _ _ _ hst.2
  refine ⟨fun j got hj => ?_, fun j written left result hj => ?_, fun hnone => h.quiet fun j => ?_⟩
  · rcases move_reading hj with ⟨-, hst⟩ | hj
    · obtain ⟨hfile, hgot⟩ := hread got hst
      exact ⟨hfile, fun hne => absurd hgot hne⟩
    · exact h.reading j got hj
  · obtain ⟨hfile, hlast, halone⟩ := h.writing j written left result (hwriting hj)
    refine ⟨hfile, hlast, fun k hk => ⟨?_, ?_⟩⟩
    · rintro ⟨got, hgot, hne⟩
      rcases move_reading hgot with ⟨-, hst⟩ | hgot
      · exact hne (hread got hst).2
      · exact (halone k hk).1 ⟨got, hgot, hne⟩
    · rintro ⟨w, l, r, hw⟩
      exact (halone k hk).2 ⟨w, l, r, hwriting hw⟩
  · rintro ⟨w, l, r, hw⟩
    by_cases hij : j = i
    · subst hij
      exact hi ⟨w, l, r, hw⟩
    · exact hnone j ⟨w, l, r, (move_other hij).trans hw⟩

/-- Process `i` writes, and it alone is at the file. -/
theorem held_writing (halone : ∀ j, j ≠ i → ¬s.Reading j ∧ ¬s.Writing j) (written left : List B) (result : R) :
    Held ⟨some written, (s.move i (.writing written left result)).stage⟩ (some (written ++ left)) := by
  have hother : ∀ j, j ≠ i → ¬(s.move i (.writing written left result)).Reading j ∧
      ¬(s.move i (.writing written left result)).Writing j := by
    intro j hj
    unfold State.Reading State.Writing
    rw [move_other hj]
    exact halone j hj
  refine ⟨fun j got hj => ?_, fun j w l r hj => ?_, fun hnone => absurd ⟨_, _, _, move_self⟩ (hnone i)⟩
  · by_cases hij : j = i
    · subst hij
      cases move_self.symm.trans hj
    · exact ⟨rfl, fun hgot => absurd ⟨got, hj, hgot⟩ (hother j hij).1⟩
  · by_cases hij : j = i
    · subst hij
      cases move_self.symm.trans hj
      exact ⟨rfl, rfl, hother⟩
    · exact absurd ⟨w, l, r, hj⟩ (hother j hij).2

/-- Process `i` has written, and nobody else is at the file. -/
theorem held_returned (halone : ∀ j, j ≠ i → ¬s.Reading j ∧ ¬s.Writing j) (bytes : List B) (result : R) :
    Held ⟨some bytes, (s.move i (.returned result)).stage⟩ (some bytes) := by
  have hother : ∀ j, ¬(s.move i (.returned result)).Reading j ∧ ¬(s.move i (.returned result)).Writing j := by
    intro j
    unfold State.Reading State.Writing
    by_cases hij : j = i
    · subst hij
      rw [move_self]
      exact ⟨nofun, nofun⟩
    · rw [move_other hij]
      exact halone j hij
  exact ⟨fun j got hj => ⟨rfl, fun hgot => absurd ⟨got, hj, hgot⟩ (hother j).1⟩,
    fun j _ _ _ hj => absurd ⟨_, _, _, hj⟩ (hother j).2,
    fun _ => rfl⟩

/-- Process `i` has read the file as it is. -/
theorem read_held (ho : Ordered op s.stage file order last) (hh : Held s last) (hnone : ∀ j, ¬s.Writing j)
    (hi : (s.stage i).outcome (op i) = none) :
    ∃ order last', Ordered op (s.move i (.read last)).stage file order last' ∧ Held (s.move i (.read last)) last' := by
  have hheld : Held (s.move i (.read last)) last := hh.leave (hnone i) nofun nofun
  by_cases hwrites : (op i last).1.isSome
  · exact ⟨order, last, ho.stay (by rw [outcome_writes hwrites, hi]), hheld⟩
  · have hop : (op i last).1 = none := Option.not_isSome_iff_eq_none.mp hwrites
    have hafter : after op i last = last := by rw [after, hop, Option.none_or]
    refine ⟨order ++ [i], after op i last, ho.commit hi (outcome_read hop), ?_⟩
    rw [hafter]
    exact hheld

theorem start_held (h : step fill op s (.start i) = some t) (ho : Ordered op s.stage file order last) (hh : Held s last) :
    ∃ order last, Ordered op t.stage file order last ∧ Held t last := by
  unfold step at h
  dsimp only at h
  cases hstage : s.stage i with
  | idle =>
    rw [hstage] at h
    obtain rfl := Option.some.inj h
    have hi : (s.stage i).outcome (op i) = none := by
      rw [hstage]
      rfl
    cases hfile : s.file with
    | none =>
      have hnone : ∀ j, ¬s.Writing j := by
        rintro j ⟨w, l, r, hw⟩
        rw [(hh.writing j w l r hw).1] at hfile
        cases hfile
      have hlast := hh.quiet hnone
      rw [hfile] at hlast
      subst hlast
      exact read_held ho hh hnone hi
    | some bytes =>
      refine ⟨order, last, ho.stay hi.symm, hh.leave ?_ ?_ nofun⟩
      · rintro ⟨w, l, r, hw⟩
        rw [hstage] at hw
        cases hw
      · rintro got ⟨⟩
        exact ⟨by rw [hfile, Option.isSome_some], rfl⟩
  | _ =>
    rw [hstage] at h
    cases h

theorem pull_held {more : Nat} (h : step fill op s (.pull i more) = some t) (hnone : ∀ j, ¬s.Writing j)
    (ho : Ordered op s.stage file order last)
    (hh : Held s last) : ∃ order last, Ordered op t.stage file order last ∧ Held t last := by
  unfold step at h
  dsimp only at h
  cases hstage : s.stage i with
  | reading got =>
    rw [hstage] at h
    obtain rfl := Option.some.inj h
    have hi : (s.stage i).outcome (op i) = none := by
      rw [hstage]
      rfl
    obtain ⟨hsome, hpart⟩ := hh.reading i got hstage
    have hfile := hh.quiet hnone
    have hrest : ∃ rest, last = some (got ++ rest) := by
      by_cases hgot : got = []
      · obtain ⟨bytes, hbytes⟩ := Option.isSome_iff_exists.mp hsome
        exact ⟨bytes, by rw [hgot, List.nil_append, ← hfile, hbytes]⟩
      · exact (hpart hgot).2
    obtain ⟨rest, hlast⟩ := hrest
    rw [hfile, hlast, Option.getD_some, List.drop_left]
    cases htake : rest.take (more + 1) with
    | nil =>
      obtain rfl : rest = [] := by simpa using htake
      rw [List.append_nil] at hlast
      subst hlast
      exact read_held ho hh hnone hi
    | cons b bytes =>
      refine ⟨order, last, ho.stay hi.symm, hh.move hnone ⟨rest.drop (more + 1), ?_⟩⟩
      rw [hlast, List.append_assoc, ← htake, List.take_append_drop]
  | _ =>
    rw [hstage] at h
    cases h

theorem work_held (h : step fill op s (.work i) = some t) (hc : Isolated op s (.work i)) (ho : Ordered op s.stage file order last)
    (hh : Held s last) : ∃ order last, Ordered op t.stage file order last ∧ Held t last := by
  unfold step at h
  dsimp only at h
  cases hstage : s.stage i with
  | read mine =>
    rw [hstage] at h
    dsimp only at h
    cases hop : op i mine with
    | mk written result =>
      rw [hop] at h
      cases written with
      | none =>
        obtain rfl := Option.some.inj h
        have hi : (s.stage i).outcome (op i) = some result := by
          rw [hstage, outcome_read (by rw [hop]), hop]
        refine ⟨order, last, ho.stay hi.symm, hh.leave ?_ nofun nofun⟩
        rintro ⟨w, l, r, hw⟩
        rw [hstage] at hw
        cases hw
      | some bytes =>
        obtain rfl := Option.some.inj h
        unfold Isolated at hc
        dsimp only at hc
        rw [hstage] at hc
        obtain ⟨hfile, hfree⟩ := hc (by rw [hop]; rfl)
        have hlast : mine = last := hfile.symm.trans (hh.quiet fun j => (hfree j).2)
        have hi : (s.stage i).outcome (op i) = none := by
          rw [hstage, outcome_writes (by rw [hop]; rfl)]
        have hafter : after op i last = some ([] ++ bytes) := by rw [← hlast, after, hop, Option.some_or, List.nil_append]
        refine ⟨order ++ [i], after op i last, ho.commit hi (by rw [← hlast, hop]; rfl), ?_⟩
        rw [hafter]
        exact held_writing (fun j _ => hfree j) [] bytes result
  | _ =>
    rw [hstage] at h
    cases h

theorem overwrite_end (fill : B) (written bytes : List B) : overwrite fill written.length bytes written = written ++ bytes := by
  unfold overwrite
  rw [List.take_length, Nat.sub_self, List.replicate_zero, List.append_nil, List.drop_of_length_le (by omega), List.append_nil]

theorem put_held {more : Nat} (h : step fill op s (.put i more) = some t) (ho : Ordered op s.stage file order last)
    (hh : Held s last) :
    ∃ order last, Ordered op t.stage file order last ∧ Held t last := by
  unfold step at h
  dsimp only at h
  cases hstage : s.stage i with
  | writing written left result =>
    rw [hstage] at h
    obtain rfl := Option.some.inj h
    obtain ⟨hfile, hlast, halone⟩ := hh.writing i written left result hstage
    have hi : (s.stage i).outcome (op i) = some result := by
      rw [hstage]
      rfl
    have hsplit := List.take_append_drop (more + 1) left
    rw [hfile, Option.getD_some, overwrite_end]
    refine ⟨order, last, ho.stay ?_, ?_⟩
    · rw [hi]
      split
      · rfl
      · rfl
    · rw [show last = some (written ++ left.take (more + 1) ++ left.drop (more + 1)) by rw [hlast, List.append_assoc, hsplit]]
      cases left.drop (more + 1) with
      | nil =>
        rw [List.append_nil]
        exact held_returned halone _ result
      | cons b bytes => exact held_writing halone _ _ result
  | _ =>
    rw [hstage] at h
    cases h

theorem step_held {e : Event ι} (h : step fill op s e = some t) (hc : Isolated op s e) (ho : Ordered op s.stage file order last)
    (hh : Held s last) : ∃ order last, Ordered op t.stage file order last ∧ Held t last := by
  cases e with
  | start i => exact start_held h ho hh
  | pull i more => exact pull_held h hc ho hh
  | work i => exact work_held h hc ho hh
  | put i more => exact put_held h ho hh

theorem outcome_done {op : Option (List B) → Option (List B) × R} {st : Stage B R} (h : st = .idle ∨ st.result.isSome) :
    st.outcome op = st.result := by
  cases st with
  | idle => rfl
  | returned result => rfl
  | _ => rcases h with ⟨⟨⟩⟩ | ⟨⟨⟩⟩

/-- Every run whose steps are isolated is as good as one process after another. -/
theorem Reach.serializable (h : Reach (system fill op file) (Isolated op) s)
    (hdone : ∀ i, s.stage i = .idle ∨ (s.stage i).result.isSome) :
    Serializable op file s := by
  have hinv : ∃ order last, Ordered op s.stage file order last ∧ Held s last := by
    refine h.inv (I := fun s => ∃ order last, Ordered op s.stage file order last ∧ Held s last) ?_ fun s e t _ hs hc hst => ?_
    · exact ⟨[], file, ⟨List.nodup_nil, fun i => by simp [system, Stage.outcome], rfl⟩, ⟨nofun, nofun, fun _ => rfl⟩⟩
    · obtain ⟨order, last, ho, hh⟩ := hs
      exact step_held hst hc ho hh
  obtain ⟨order, last, ho, hh⟩ := hinv
  have hlast : s.file = last := by
    refine hh.quiet ?_
    rintro i ⟨w, l, r, hw⟩
    have hi := hdone i
    rw [hw] at hi
    rcases hi with ⟨⟨⟩⟩ | ⟨⟨⟩⟩
  refine ⟨order, ho.nodup, fun i => ?_, ?_⟩
  · rw [ho.mem i, outcome_done (hdone i)]
  · rw [hlast]
    exact ho.serially.mono fun i _ => (outcome_done (hdone i)).symm

end Steps

end SharedFile
