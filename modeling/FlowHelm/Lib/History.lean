/-
  FlowHelm.Lib.History — what a job of a machine has asked for so far.

  `history j es` is what job `j` has executed since its last start in the events `es`, an
  operation whose answer was lost included. `recording` answers anything and remembers it,
  so that a `wp` over it speaks of a program's past alone: what it proves of the program
  holds of the job whatever the others do in between.

  - `wp_record`: the rule for one operation.
  - `history_step`: every operation a job executes stands to its history as `G` says.
  - `exec_induction`: what each operation any of the programs can come to keeps, a run keeps.
-/
import FlowHelm.Lib.RelyGuarantee

namespace Script

open Prog Runs

variable {Op : Type} {Ans : Op → Type} {S α Job Env : Type}

/-- An executed operation and its answer. -/
abbrev Done (Op : Type) (Ans : Op → Type) := (o : Op) × Ans o

def Did.done : Did Op Ans → List (Done Op Ans)
  | .ran o a => [⟨o, a⟩]
  | .refused _ => []
  | .lost o a => [⟨o, a⟩]

/-- The last operation comes first. -/
def recording : Service Op Ans (List (Done Op Ans)) where
  exec o past a := some (⟨o, a⟩ :: past)

/-- Each operation stands to those before it as `G` says. -/
def Follows (G : List (Done Op Ans) → Done Op Ans → Prop) : List (Done Op Ans) → Prop
  | [] => True
  | x :: past => G past x ∧ Follows G past

/-- A program by itself, all of its operations to follow `G`. -/
def following (G : List (Done Op Ans) → Done Op Ans → Prop) : Setting Op Ans (List (Done Op Ans)) where
  inv := Follows G
  rely s t := t = s
  guar _ _ := True
  ok _ _ := True
  total := False
  rely_refl _ := rfl
  rely_trans h1 h2 := h2.trans h1
  guar_refl _ := trivial

section Wp

variable {G : List (Done Op Ans) → Done Op Ans → Prop}

theorem wp_record {o : Op} {k : Ans o → Prog Op Ans α} {Q : α → List (Done Op Ans) → Prop}
    {E : Exn Op → List (Done Op Ans) → Prop} {past : List (Done Op Ans)} (hG : ∀ a, G past ⟨o, a⟩)
    (hE : ∀ f, E (.failed o f) past ∧ ∀ a, E (.failed o f) (⟨o, a⟩ :: past))
    (hk : ∀ a, wp recording (following G) (k a) Q E (⟨o, a⟩ :: past)) :
    wp recording (following G) ((perform o).bind k) Q E past := by
  intro s hs hi
  cases hs
  refine ⟨False.elim, fun _ => (hE .refused).1, ?_⟩
  intro a t ht
  cases ht
  exact ⟨fun _ => ⟨trivial, ⟨hG a, hi⟩, hk a⟩, fun _ => ⟨trivial, ⟨hG a, hi⟩, (hE .lost).2 a⟩⟩

theorem safe_record {o : Op} {k : Ans o → Prog Op Ans α} {past : List (Done Op Ans)} (hG : ∀ a, G past ⟨o, a⟩)
    (hk : ∀ a, Safe recording (following G) (k a) (⟨o, a⟩ :: past)) :
    Safe recording (following G) ((perform o).bind k) past :=
  wp_record hG (fun _ => ⟨trivial, fun _ => trivial⟩) hk

end Wp

/-! ## Machines -/

section Machine

variable [DecidableEq Job]

/-- What `j` has executed since it was last started, after one more event. -/
def remember (j : Job) (past : List (Done Op Ans)) : Event Op Ans Job Env → List (Done Op Ans)
  | .start i => if i = j then [] else past
  | .step i d => if i = j then d.done ++ past else past
  | _ => past

def history (j : Job) (es : List (Event Op Ans Job Env)) : List (Done Op Ans) := es.foldl (remember j) []

variable [DecidableEq Op]

/-- What a step leaves of a program does not depend on the service. -/
theorem advance_recording {svc : Service Op Ans S} {p q : Prog Op Ans α} {s t : S} {d : Did Op Ans}
    (h : advance svc p s d = some (q, t)) (past : List (Done Op Ans)) :
    advance recording p past d = some (q, d.done ++ past) := by
  cases p with
  | ret a => exact (advance_done rfl h).elim
  | throw e => exact (advance_done rfl h).elim
  | op o k err =>
    rcases advance_op h with ⟨a, rfl, _, rfl⟩ | ⟨rfl, _, rfl⟩ | ⟨a, rfl, _, rfl⟩
    · exact advance_ran rfl
    · simp [advance, Did.done]
    · simp [advance, Did.done, recording]

variable (M : Machine Op Ans S Job Env) {G : List (Done Op Ans) → Done Op Ans → Prop}

/-- If `j` is running, `past` follows `G` and what is left of `j` will. -/
def Remembers (G : List (Done Op Ans) → Done Op Ans → Prop) (x : Conf Op Ans S Job) (j : Job)
    (past : List (Done Op Ans)) : Prop :=
  ∀ p, x.jobs j = some p → Follows G past ∧ Safe recording (following G) p past

variable {M}

theorem remembers_step {x y : Conf Op Ans S Job} {j : Job} {past : List (Done Op Ans)} {e : Event Op Ans Job Env}
    (hsafe : Safe recording (following G) (M.program j) []) (h : Remembers G x j past) (hs : M.step x e = some y) :
    Remembers G y j (remember j past e) := by
  intro p hp
  rcases Machine.step_cases hs with ⟨i, rfl, _, rfl⟩ | ⟨i, d, p₀, q, t, rfl, hp₀, ha, rfl⟩ | ⟨i, _, rfl, _, _, rfl⟩ |
    ⟨e, t, rfl, _, rfl⟩ | ⟨rfl, rfl⟩
  · rcases setJob_some hp with ⟨rfl, hnew⟩ | ⟨hij, hold⟩
    · cases hnew
      rw [remember, if_pos rfl]
      exact ⟨trivial, hsafe⟩
    · rw [remember, if_neg (Ne.symm hij)]
      exact h p hold
  · rcases setJob_some hp with ⟨rfl, hnew⟩ | ⟨hij, hold⟩
    · cases hnew
      rw [remember, if_pos rfl]
      obtain ⟨hpast, hw⟩ := h p₀ hp₀
      obtain ⟨_, hfollows, hleft⟩ := wp_advance hw rfl hpast trivial (advance_recording ha past)
      exact ⟨hfollows, hleft⟩
    · rw [remember, if_neg (Ne.symm hij)]
      exact h p hold
  · rcases setJob_some hp with ⟨_, hnew⟩ | ⟨_, hold⟩
    · cases hnew
    · exact h p hold
  · exact h p hp
  · cases hp

theorem remembers_exec {x y : Conf Op Ans S Job} {j : Job} {past : List (Done Op Ans)} {es : List (Event Op Ans Job Env)}
    (hsafe : Safe recording (following G) (M.program j) []) (h : Remembers G x j past)
    (he : exec M.system x es = some y) : Remembers G y j (es.foldl (remember j) past) := by
  induction es generalizing x past with
  | nil =>
    simp only [exec, Option.some.injEq] at he
    exact he ▸ h
  | cons e es ih =>
    simp only [exec] at he
    split at he
    · rename_i z hz
      exact ih (remembers_step hsafe h hz) he
    · cases he

/-- A step of a job in a run from the start. -/
theorem history_step {y : Conf Op Ans S Job} {j : Job} {d : Did Op Ans} {es : List (Event Op Ans Job Env)}
    (hsafe : Safe recording (following G) (M.program j) [])
    (he : exec M.system M.system.init (es ++ [.step j d]) = some y) : ∀ x ∈ d.done, G (history j es) x := by
  obtain ⟨z, hz, hlast⟩ := Option.bind_eq_some_iff.mp (exec_append (M := M.system) M.system.init es _ ▸ he)
  have hstart : Remembers G M.system.init j [] := by
    intro p hp
    cases hp
  have hz : Remembers G z j (history j es) := remembers_exec hsafe hstart hz
  simp only [exec] at hlast
  split at hlast
  · rename_i w hw
    have hw : M.step z (.step j d) = some w := hw
    rcases Machine.step_cases hw with ⟨_, he, _⟩ | ⟨_, _, p, q, t, he, hp, ha, _⟩ | ⟨_, _, he, _⟩ | ⟨_, _, he, _⟩ | ⟨he, _⟩
    · cases he
    · cases he
      obtain ⟨hpast, hp⟩ := hz p hp
      obtain ⟨_, hfollows, _⟩ := wp_advance hp rfl hpast trivial (advance_recording ha (history j es))
      intro x hx
      cases d with
      | ran o a => cases List.mem_singleton.mp hx; exact hfollows.1
      | refused o => cases hx
      | lost o a => cases List.mem_singleton.mp hx; exact hfollows.1
    · cases he
    · cases he
    · cases he
  · cases hlast

/-! ## All jobs together -/

def Event.done : Event Op Ans Job Env → List (Done Op Ans)
  | .step _ d => d.done
  | _ => []

/-- What the jobs have executed, in its order. -/
def executed (es : List (Event Op Ans Job Env)) : List (Done Op Ans) := es.flatMap Event.done

omit [DecidableEq Job] in
theorem advance_uses {svc : Service Op Ans S} {P : Op → Prop} {p q : Prog Op Ans α} {s t : S} {d : Did Op Ans}
    (hp : p.Uses P) (h : advance svc p s d = some (q, t)) : P d.op ∧ q.Uses P := by
  cases p with
  | ret a => exact (advance_done rfl h).elim
  | throw e => exact (advance_done rfl h).elim
  | op o k err =>
    rcases advance_op h with ⟨a, rfl, _, rfl⟩ | ⟨rfl, _, rfl⟩ | ⟨a, rfl, _, rfl⟩
    · exact ⟨hp.1, hp.2.1 a⟩
    · exact ⟨hp.1, hp.2.2 _⟩
    · exact ⟨hp.1, hp.2.2 _⟩

section Executed

variable {P : Op → Prop} {R : List (Done Op Ans) → S → Prop} {x y : Conf Op Ans S Job} {e : Event Op Ans Job Env}

theorem uses_step (hP : ∀ j, (M.program j).Uses P) (h : ∀ j p, x.jobs j = some p → p.Uses P) (hs : M.step x e = some y) :
    ∀ j p, y.jobs j = some p → p.Uses P := by
  intro i p' hp'
  rcases Machine.step_cases hs with ⟨j, rfl, _, rfl⟩ | ⟨j, d, p, q, t, rfl, hp, ha, rfl⟩ | ⟨j, p, rfl, _, _, rfl⟩ |
    ⟨e, t, rfl, ht, rfl⟩ | ⟨rfl, rfl⟩
  · rcases setJob_some hp' with ⟨_, hnew⟩ | ⟨_, hold⟩
    · cases hnew
      exact hP j
    · exact h i p' hold
  · rcases setJob_some hp' with ⟨_, hnew⟩ | ⟨_, hold⟩
    · cases hnew
      exact (advance_uses (h j p hp) ha).2
    · exact h i p' hold
  · rcases setJob_some hp' with ⟨_, hnew⟩ | ⟨_, hold⟩
    · cases hnew
    · exact h i p' hold
  · exact h i p' hp'
  · cases hp'

theorem done_step (h : ∀ j p, x.jobs j = some p → p.Uses P)
    (hop : ∀ past o a s t, P o → R past s → M.svc.exec o s a = some t → R (past ++ [⟨o, a⟩]) t)
    (henv : ∀ past e s t, R past s → M.env s e = some t → R past t) {past : List (Done Op Ans)} (hR : R past x.db)
    (hs : M.step x e = some y) : R (past ++ e.done) y.db := by
  have hsame : R (past ++ []) x.db := by
    rw [List.append_nil]
    exact hR
  rcases Machine.step_cases hs with ⟨j, rfl, _, rfl⟩ | ⟨j, d, p, q, t, rfl, hp, ha, rfl⟩ | ⟨j, p, rfl, _, _, rfl⟩ |
    ⟨e, t, rfl, ht, rfl⟩ | ⟨rfl, rfl⟩
  · exact hsame
  · have hd := (advance_uses (h j p hp) ha).1
    cases p with
    | ret a => exact (advance_done rfl ha).elim
    | throw e => exact (advance_done rfl ha).elim
    | op o k err =>
      rcases advance_op ha with ⟨a, rfl, hx, _⟩ | ⟨rfl, rfl, _⟩ | ⟨a, rfl, hx, _⟩
      · exact hop past o a _ _ hd hR hx
      · exact hsame
      · exact hop past o a _ _ hd hR hx
  · exact hsame
  · exact henv (past ++ []) e _ t hsame ht
  · exact hsame

/-- What holds of nothing executed, and after one operation more that some program can
    come to, holds of a whole run. -/
theorem exec_induction (hP : ∀ j, (M.program j).Uses P) (h0 : R [] M.init)
    (hop : ∀ past o a s t, P o → R past s → M.svc.exec o s a = some t → R (past ++ [⟨o, a⟩]) t)
    (henv : ∀ past e s t, R past s → M.env s e = some t → R past t) {es : List (Event Op Ans Job Env)}
    (he : exec M.system M.system.init es = some x) : R (executed es) x.db := by
  have hall : ∀ (es : List (Event Op Ans Job Env)) (past : List (Done Op Ans)) (z : Conf Op Ans S Job),
      R past z.db → (∀ j p, z.jobs j = some p → p.Uses P) → exec M.system z es = some x →
      R (past ++ executed es) x.db := by
    intro es
    induction es with
    | nil =>
      intro past z hR _ he
      simp only [exec, Option.some.injEq] at he
      rw [← he, executed, List.flatMap_nil, List.append_nil]
      exact hR
    | cons e es ih =>
      intro past z hR hjobs he
      simp only [exec] at he
      split at he
      · rename_i y hy
        have hrest := ih _ y (done_step hjobs hop henv hR hy) (uses_step hP hjobs hy) he
        rw [List.append_assoc] at hrest
        exact hrest
      · cases he
  refine hall es [] M.system.init h0 (fun j p hj => ?_) he
  cases hj

end Executed

end Machine

end Script
