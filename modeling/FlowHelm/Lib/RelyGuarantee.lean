/-
  FlowHelm.Lib.RelyGuarantee — a rely-guarantee logic for the programs of Lib.Script.

  A `Setting` says what one program lives in: the invariant everybody keeps, what the
  others may do between two of its operations (`rely`), what its own operations promise
  the others (`guar`), which steps are considered at all (`ok`), and whether an operation
  must always find an answer (`total`). `wp Γ p Q E s`: in the setting `Γ` the program `p`
  at state `s` keeps its promises whatever happens, returns in `Q` and throws in `E`.

  A `Machine` runs one program for each of its jobs, started and crashed at any time, and
  an environment between their steps. A `Contract` is a setting for each job such that
  what one job promises is what the others rely on, with a `wp` for each job's program.

  - `wp_bind` / `wp_frame` / `wp_attempt` / `wp_forEach` / `wp_forSum` / `wp_perform` / `wp_uses`: rules.
  - `Machine.step_cases`: everything a step of a machine can do.
  - `wp_play`: what a whole uninterrupted trace ends in; `must_play` / `must_returns` for one
    in which no operation fails.
  - `Contract.safe`: a machine with a contract keeps its invariant; `Contract.path`: and
    whatever the promised steps and the environment's keep.
-/
import FlowHelm.Lib.Runs
import FlowHelm.Lib.Script

namespace Script

open Prog Runs

variable {Op : Type} {Ans : Op → Type} {S α β : Type}

structure Setting (Op : Type) (Ans : Op → Type) (S : Type) where
  inv : S → Prop
  rely : S → S → Prop
  guar : S → S → Prop
  ok : S → Did Op Ans → Prop
  total : Prop
  rely_refl : ∀ s, rely s s
  rely_trans : ∀ {s t u}, rely s t → rely t u → rely s u
  guar_refl : ∀ s, guar s s

section Wp

variable (svc : Service Op Ans S) (Γ : Setting Op Ans S)

/-- One operation: its answer leads to `K`, its failure to `X`. -/
def Step (o : Op) (K : Ans o → S → Prop) (X : Fault → S → Prop) (s : S) : Prop :=
  ∀ s', Γ.rely s s' → Γ.inv s' →
    (Γ.total → ∃ a t, svc.exec o s' a = some t ∧ Γ.ok s' (.ran o a)) ∧
    (Γ.ok s' (.refused o) → X .refused s') ∧
    ∀ a t, svc.exec o s' a = some t →
      (Γ.ok s' (.ran o a) → Γ.guar s' t ∧ Γ.inv t ∧ K a t) ∧
      (Γ.ok s' (.lost o a) → Γ.guar s' t ∧ Γ.inv t ∧ X .lost t)

def wp : Prog Op Ans α → (α → S → Prop) → (Exn Op → S → Prop) → S → Prop
  | .ret a, Q, _, s => Q a s
  | .throw e, _, E, s => E e s
  | .op o k err, Q, E, s => Step svc Γ o (fun a t => wp (k a) Q E t) (fun f t => wp (err f) Q E t) s

/-- The program keeps its promises, wherever it ends. -/
def Safe (p : Prog Op Ans α) (s : S) : Prop := wp svc Γ p (fun _ _ => True) (fun _ _ => True) s

end Wp

variable {svc : Service Op Ans S} {Γ : Setting Op Ans S}

/-! ## Rules -/

theorem Step.mono {o : Op} {K K' : Ans o → S → Prop} {X X' : Fault → S → Prop} (hK : ∀ a t, K a t → K' a t)
    (hX : ∀ f t, X f t → X' f t) {s : S} (h : Step svc Γ o K X s) : Step svc Γ o K' X' s := by
  intro s' hr hi
  obtain ⟨ht, href, hx⟩ := h s' hr hi
  refine ⟨ht, fun hok => hX _ _ (href hok), ?_⟩
  intro a t ha
  obtain ⟨hran, hlost⟩ := hx a t ha
  constructor
  · intro hok
    obtain ⟨hg, hi', hk⟩ := hran hok
    exact ⟨hg, hi', hK a t hk⟩
  · intro hok
    obtain ⟨hg, hi', hk⟩ := hlost hok
    exact ⟨hg, hi', hX _ t hk⟩

theorem wp_mono {p : Prog Op Ans α} {Q Q' : α → S → Prop} {E E' : Exn Op → S → Prop} (hQ : ∀ a s, Q a s → Q' a s)
    (hE : ∀ e s, E e s → E' e s) {s : S} (h : wp svc Γ p Q E s) : wp svc Γ p Q' E' s := by
  induction p generalizing s with
  | ret a => exact hQ a s h
  | throw e => exact hE e s h
  | op o k err ihk ihe => exact Step.mono (fun a _ => ihk a) (fun f _ => ihe f) h

/-- What the others may do meanwhile leaves a `wp` whose ends they keep. -/
theorem wp_rely {p : Prog Op Ans α} {Q : α → S → Prop} {E : Exn Op → S → Prop}
    (hQ : ∀ a s t, Γ.rely s t → Q a s → Q a t) (hE : ∀ e s t, Γ.rely s t → E e s → E e t) {s t : S}
    (hr : Γ.rely s t) (h : wp svc Γ p Q E s) : wp svc Γ p Q E t := by
  cases p with
  | ret a => exact hQ a s t hr h
  | throw e => exact hE e s t hr h
  | op o k err => exact fun s' hr' hi => h s' (Γ.rely_trans hr hr') hi

theorem Safe.rely {p : Prog Op Ans α} {s t : S} (hr : Γ.rely s t) (h : Safe svc Γ p s) : Safe svc Γ p t :=
  wp_rely (fun _ _ _ _ h => h) (fun _ _ _ _ h => h) hr h

theorem wp_bind {p : Prog Op Ans α} {f : α → Prog Op Ans β} {Q : β → S → Prop} {E : Exn Op → S → Prop} {s : S}
    (h : wp svc Γ p (fun a t => wp svc Γ (f a) Q E t) E s) : wp svc Γ (p.bind f) Q E s := by
  induction p generalizing s with
  | ret a => exact h
  | throw e => exact h
  | op o k err ihk ihe => exact Step.mono (fun a _ => ihk a) (fun f _ => ihe f) h

theorem wp_attempt {p : Prog Op Ans α} {h : Exn Op → Prog Op Ans α} {Q : α → S → Prop} {E : Exn Op → S → Prop} {s : S}
    (hp : wp svc Γ p Q (fun e t => wp svc Γ (h e) Q E t) s) : wp svc Γ (p.attempt h) Q E s := by
  induction p generalizing s with
  | ret a => exact hp
  | throw e => exact hp
  | op o k err ihk ihe => exact Step.mono (fun a _ => ihk a) (fun f _ => ihe f) hp

/-- What everybody keeps, this program too, holds on to its end. -/
theorem wp_frame {A : S → Prop} (hrely : ∀ s t, Γ.rely s t → A s → A t) (hguar : ∀ s t, Γ.guar s t → A s → A t)
    {p : Prog Op Ans α} {Q : α → S → Prop} {E : Exn Op → S → Prop} {s : S} (h : wp svc Γ p Q E s) (hA : A s) :
    wp svc Γ p (fun a t => Q a t ∧ A t) (fun e t => E e t ∧ A t) s := by
  induction p generalizing s with
  | ret a => exact ⟨h, hA⟩
  | throw e => exact ⟨h, hA⟩
  | op o k err ihk ihe =>
    intro s' hr hi
    obtain ⟨htotal, href, hx⟩ := h s' hr hi
    have hA' := hrely s s' hr hA
    refine ⟨htotal, fun hok => ihe _ (href hok) hA', ?_⟩
    intro a t ha
    obtain ⟨hran, hlost⟩ := hx a t ha
    constructor
    · intro hok
      obtain ⟨hg, hi', hk⟩ := hran hok
      exact ⟨hg, hi', ihk a hk (hguar s' t hg hA')⟩
    · intro hok
      obtain ⟨hg, hi', hk⟩ := hlost hok
      exact ⟨hg, hi', ihe _ hk (hguar s' t hg hA')⟩

/-- A loop whose body leads from `J` of what is left to `J` of what is left after it. -/
theorem wp_forEach {f : β → Prog Op Ans Unit} {E : Exn Op → S → Prop} (J : List β → S → Prop)
    (hf : ∀ x xs s, J (x :: xs) s → wp svc Γ (f x) (fun _ t => J xs t) E s) {xs : List β} {s : S} (h : J xs s) :
    wp svc Γ (forEach xs f) (fun _ t => J [] t) E s := by
  induction xs generalizing s with
  | nil => exact h
  | cons x xs ih => exact wp_bind (wp_mono (fun _ _ hJ => ih hJ) (fun _ _ he => he) (hf x xs s h))

/-- The sum of a loop, `J` relating what is left to what has been counted. -/
theorem wp_forSum {f : β → Prog Op Ans Nat} {E : Exn Op → S → Prop} (J : List β → S → Prop)
    (hf : ∀ x xs s, J (x :: xs) s → wp svc Γ (f x) (fun _ t => J xs t) E s) {xs : List β} {s : S} (h : J xs s) :
    wp svc Γ (forSum xs f) (fun _ t => J [] t) E s := by
  induction xs generalizing s with
  | nil => exact h
  | cons x xs ih =>
    refine wp_bind (wp_mono ?_ (fun _ _ he => he) (hf x xs s h))
    intro n t hJ
    exact wp_bind (wp_mono (fun _ _ hJ => hJ) (fun _ _ he => he) (ih hJ))

/-- A collecting loop, `R` saying what each turn finds. -/
theorem wp_forConcat {γ : Type} {f : β → Prog Op Ans (List γ)} {E : Exn Op → S → Prop} (J : S → Prop) (R : β → γ → Prop)
    {xs : List β} (hf : ∀ x ∈ xs, ∀ s, J s → wp svc Γ (f x) (fun ys t => J t ∧ ∀ y, y ∈ ys ↔ R x y) E s) {s : S} (h : J s) :
    wp svc Γ (forConcat xs f) (fun ys t => J t ∧ ∀ y, y ∈ ys ↔ ∃ x ∈ xs, R x y) E s := by
  induction xs generalizing s with
  | nil => exact ⟨h, fun y => by simp⟩
  | cons x xs ih =>
    refine wp_bind (wp_mono ?_ (fun _ _ he => he) (hf x (.head _) s h))
    rintro ys t ⟨ht, hys⟩
    refine wp_bind (wp_mono ?_ (fun _ _ he => he) (ih (fun x' hx => hf x' (.tail _ hx)) ht))
    rintro zs u ⟨hu, hzs⟩
    refine ⟨hu, fun y => ?_⟩
    simp only [List.mem_append, hys, hzs, List.mem_cons, exists_eq_or_imp]

/-- One operation, whatever becomes of it. -/
theorem wp_perform {o : Op} {k : Ans o → Prog Op Ans α} {Q : α → S → Prop} {E : Exn Op → S → Prop} {s : S}
    (hnt : ¬Γ.total) (he : ∀ f t, Γ.inv t → E (.failed o f) t)
    (hk : ∀ s' a t, Γ.rely s s' → Γ.inv s' → svc.exec o s' a = some t → (Γ.ok s' (.ran o a) ∨ Γ.ok s' (.lost o a)) →
      Γ.guar s' t ∧ Γ.inv t ∧ (Γ.ok s' (.ran o a) → wp svc Γ (k a) Q E t)) :
    wp svc Γ ((perform o).bind k) Q E s := by
  intro s' hr hi
  refine ⟨fun ht => (hnt ht).elim, fun _ => he _ _ hi, ?_⟩
  intro a t ha
  constructor
  · intro ho
    obtain ⟨hg, hi', hw⟩ := hk s' a t hr hi ha (Or.inl ho)
    exact ⟨hg, hi', hw ho⟩
  · intro ho
    obtain ⟨hg, hi', _⟩ := hk s' a t hr hi ha (Or.inr ho)
    exact ⟨hg, hi', he _ _ hi'⟩

/-- An operation that only reads. -/
theorem wp_read {o : Op} (ho : svc.Reads o) {k : Ans o → Prog Op Ans α} {Q : α → S → Prop} {E : Exn Op → S → Prop}
    {s : S} (hnt : ¬Γ.total) (he : ∀ f t, Γ.inv t → E (.failed o f) t)
    (hk : ∀ s' a, Γ.rely s s' → Γ.inv s' → svc.exec o s' a = some s' → Γ.ok s' (.ran o a) → wp svc Γ (k a) Q E s') :
    wp svc Γ ((perform o).bind k) Q E s := by
  refine wp_perform hnt he ?_
  intro s' a t hr hi ha _
  obtain rfl := ho s' a t ha
  exact ⟨Γ.guar_refl _, hi, fun hok => hk t a hr hi ha hok⟩

/-- A program all of whose operations keep the promises, and an assertion the others keep. -/
theorem wp_uses {P : Op → Prop} {A : S → Prop} (hnt : ¬Γ.total) (hA : ∀ s t, Γ.rely s t → A s → A t)
    (hP : ∀ o, P o → ∀ s a t, Γ.inv s → A s → (Γ.ok s (.ran o a) ∨ Γ.ok s (.lost o a)) → svc.exec o s a = some t →
      Γ.guar s t ∧ Γ.inv t ∧ A t) {p : Prog Op Ans α} (hp : p.Uses P) {s : S} (hs : A s) :
    wp svc Γ p (fun _ => A) (fun _ => A) s := by
  induction p generalizing s with
  | ret a => exact hs
  | throw e => exact hs
  | op o k err ihk ihe =>
    obtain ⟨ho, hk, he⟩ := hp
    intro s' hr hi
    have hs' := hA s s' hr hs
    refine ⟨fun ht => (hnt ht).elim, fun _ => ihe _ (he _) hs', ?_⟩
    intro a t ha
    constructor
    · intro hok
      obtain ⟨hg, hi', ht⟩ := hP o ho s' a t hi hs' (Or.inl hok) ha
      exact ⟨hg, hi', ihk a (hk a) ht⟩
    · intro hok
      obtain ⟨hg, hi', ht⟩ := hP o ho s' a t hi hs' (Or.inr hok) ha
      exact ⟨hg, hi', ihe _ (he _) ht⟩

theorem safe_uses {P : Op → Prop} (hnt : ¬Γ.total)
    (hP : ∀ o, P o → ∀ s a t, Γ.inv s → (Γ.ok s (.ran o a) ∨ Γ.ok s (.lost o a)) → svc.exec o s a = some t →
      Γ.guar s t ∧ Γ.inv t) {p : Prog Op Ans α} (hp : p.Uses P) (s : S) : Safe svc Γ p s := by
  refine wp_uses (A := fun _ => True) hnt (fun _ _ _ h => h) ?_ hp trivial
  intro o ho s a t hi _ hok hx
  obtain ⟨hg, hi'⟩ := hP o ho s a t hi hok hx
  exact ⟨hg, hi', trivial⟩

/-! ## Safe programs, put together where what follows is safe wherever it starts -/

theorem safe_bind {p : Prog Op Ans α} {f : α → Prog Op Ans β} {s : S} (hp : Safe svc Γ p s)
    (hf : ∀ a t, Safe svc Γ (f a) t) : Safe svc Γ (p.bind f) s :=
  wp_bind (wp_mono (fun a t _ => hf a t) (fun _ _ h => h) hp)

theorem safe_read {o : Op} (ho : svc.Reads o) (hnt : ¬Γ.total) {k : Ans o → Prog Op Ans α} {s : S}
    (hk : ∀ a t, Safe svc Γ (k a) t) : Safe svc Γ ((perform o).bind k) s :=
  wp_read ho hnt (fun _ _ _ => trivial) fun t a _ _ _ _ => hk a t

theorem safe_attempt {p : Prog Op Ans α} {h : Exn Op → Prog Op Ans α} {s : S} (hp : Safe svc Γ p s)
    (hh : ∀ e t, Safe svc Γ (h e) t) : Safe svc Γ (p.attempt h) s :=
  wp_attempt (wp_mono (fun _ _ h => h) (fun e t _ => hh e t) hp)

theorem safe_forEach {f : β → Prog Op Ans Unit} (hf : ∀ x t, Safe svc Γ (f x) t) (xs : List β) (s : S) :
    Safe svc Γ (forEach xs f) s :=
  wp_forEach (fun _ _ => True) (fun x _ t _ => hf x t) trivial

theorem safe_forSum {f : β → Prog Op Ans Nat} (hf : ∀ x t, Safe svc Γ (f x) t) (xs : List β) (s : S) :
    Safe svc Γ (forSum xs f) s :=
  wp_forSum (fun _ _ => True) (fun x _ t _ => hf x t) trivial

section Steps

variable [DecidableEq Op]

theorem wp_advance {p q : Prog Op Ans α} {Q : α → S → Prop} {E : Exn Op → S → Prop} {s s' t : S} {d : Did Op Ans}
    (h : wp svc Γ p Q E s) (hr : Γ.rely s s') (hi : Γ.inv s') (hok : Γ.ok s' d)
    (ha : advance svc p s' d = some (q, t)) : Γ.guar s' t ∧ Γ.inv t ∧ wp svc Γ q Q E t := by
  cases p with
  | ret a => exact (advance_done rfl ha).elim
  | throw e => exact (advance_done rfl ha).elim
  | op o k err =>
    obtain ⟨_, href, hx⟩ := h s' hr hi
    rcases advance_op ha with ⟨a, rfl, he, rfl⟩ | ⟨rfl, rfl, rfl⟩ | ⟨a, rfl, he, rfl⟩
    · exact (hx a t he).1 hok
    · exact ⟨Γ.guar_refl _, hi, href hok⟩
    · exact (hx a t he).2 hok

/-- Along a trace whose steps are all considered, a program left alone keeps its `wp`. -/
theorem wp_play {p q : Prog Op Ans α} {Q : α → S → Prop} {E : Exn Op → S → Prop} {s t : S} {tr : List (Did Op Ans)}
    (h : wp svc Γ p Q E s) (hi : Γ.inv s) (hok : ∀ d ∈ tr, ∀ u, Γ.ok u d) (hp : play svc p s tr = some (q, t)) :
    Γ.inv t ∧ wp svc Γ q Q E t := by
  induction tr generalizing p s with
  | nil =>
    simp only [play, Option.some.injEq, Prod.mk.injEq] at hp
    obtain ⟨rfl, rfl⟩ := hp
    exact ⟨hi, h⟩
  | cons d tr ih =>
    obtain ⟨p', s', ha, hrest⟩ := play_cons hp
    obtain ⟨_, hi', hw⟩ := wp_advance h (Γ.rely_refl s) hi (hok d (.head _) s) ha
    exact ih hw hi' (fun d' hd => hok d' (.tail _ hd)) hrest

end Steps

/-! ## Programs left alone, nothing failing -/

/-- No other program, no failing operation, an answer to each. -/
def alone (Op : Type) (Ans : Op → Type) (S : Type) : Setting Op Ans S where
  inv _ := True
  rely s t := t = s
  guar _ _ := True
  ok _ d := d.isRan
  total := True
  rely_refl _ := rfl
  rely_trans h1 h2 := h2.trans h1
  guar_refl _ := trivial

/-- Left alone and with nothing failing, `p` comes to an end: it returns in `Q` or throws
    in `E`. -/
abbrev Must (svc : Service Op Ans S) (p : Prog Op Ans α) (Q : α → S → Prop) (E : Exn Op → S → Prop) (s : S) : Prop :=
  wp svc (alone Op Ans S) p Q E s

theorem must_perform {o : Op} {k : Ans o → Prog Op Ans α} {Q : α → S → Prop} {E : Exn Op → S → Prop} {s : S}
    (ha : ∃ a t, svc.exec o s a = some t) (hk : ∀ a t, svc.exec o s a = some t → Must svc (k a) Q E t) :
    Must svc ((perform o).bind k) Q E s := by
  rintro s' rfl -
  obtain ⟨a, t, hx⟩ := ha
  refine ⟨fun _ => ⟨a, t, hx, rfl⟩, fun h => (Bool.noConfusion h), ?_⟩
  intro a t hx
  exact ⟨fun _ => ⟨trivial, trivial, hk a t hx⟩, fun h => (Bool.noConfusion h)⟩

section Steps

variable [DecidableEq Op]

theorem must_play {p q : Prog Op Ans α} {Q : α → S → Prop} {E : Exn Op → S → Prop} {s t : S} {tr : List (Did Op Ans)}
    (h : Must svc p Q E s) (hran : ∀ d ∈ tr, d.isRan) (hp : play svc p s tr = some (q, t)) : Must svc q Q E t :=
  (wp_play (Γ := alone Op Ans S) h trivial (fun d hd _ => hran d hd) hp).2

theorem must_ends {p : Prog Op Ans α} {Q : α → S → Prop} {E : Exn Op → S → Prop} {s : S} (h : Must svc p Q E s) :
    ∃ tr q t, (∀ d ∈ tr, d.isRan) ∧ q.isDone ∧ play svc p s tr = some (q, t) := by
  induction p generalizing s with
  | ret a => exact ⟨[], .ret a, s, by simp, rfl, rfl⟩
  | throw e => exact ⟨[], .throw e, s, by simp, rfl, rfl⟩
  | op o k err ihk _ =>
    obtain ⟨htot, _, hx⟩ := h s rfl trivial
    obtain ⟨a, t, he, hok⟩ := htot trivial
    obtain ⟨tr, q, u, hran, hq, hp⟩ := ihk a ((hx a t he).1 hok).2.2
    refine ⟨.ran o a :: tr, q, u, ?_, hq, ?_⟩
    · intro d hd
      rcases List.mem_cons.mp hd with rfl | hd
      · rfl
      · exact hran d hd
    · simp only [play, advance_ran he]
      exact hp

variable (svc) in
/-- Left alone and with nothing failing, `p` comes to an end, and only by returning in `Q`. -/
def Returns (p : Prog Op Ans α) (Q : α → S → Prop) (s : S) : Prop :=
  (∃ tr q t, (∀ d ∈ tr, d.isRan) ∧ q.isDone ∧ play svc p s tr = some (q, t)) ∧
    ∀ tr q t, (∀ d ∈ tr, d.isRan) → q.isDone → play svc p s tr = some (q, t) → ∃ a, q = .ret a ∧ Q a t

theorem must_returns {p : Prog Op Ans α} {Q : α → S → Prop} {s : S} (h : Must svc p Q (fun _ _ => False) s) :
    Returns svc p Q s := by
  refine ⟨must_ends h, fun tr q t hran hq hp => ?_⟩
  have hend := must_play h hran hp
  cases q with
  | ret a => exact ⟨a, rfl, hend⟩
  | throw e => exact hend.elim
  | op o k err => cases hq

end Steps

/-! ## Machines -/

/-- `program j` is what job `j` runs when it is started; one run of a job at a time. -/
structure Machine (Op : Type) (Ans : Op → Type) (S Job Env : Type) where
  svc : Service Op Ans S
  init : S
  program : Job → Prog Op Ans Unit
  env : S → Env → Option S

inductive Event (Op : Type) (Ans : Op → Type) (Job Env : Type) where
  | start (j : Job)
  | step (j : Job) (d : Did Op Ans)
  | finish (j : Job)
  | env (e : Env)
  | crash

structure Conf (Op : Type) (Ans : Op → Type) (S Job : Type) where
  db : S
  jobs : Job → Option (Prog Op Ans Unit)

/-- A condition on the steps of a run. -/
structure Cond (Op : Type) (Ans : Op → Type) (S Job Env : Type) where
  start : Job → Prop
  did : S → Did Op Ans → Prop
  env : S → Env → Prop

section Machine

variable {Job Env : Type} [DecidableEq Job]

def setJob (jobs : Job → Option (Prog Op Ans Unit)) (j : Job) (p : Option (Prog Op Ans Unit)) :
    Job → Option (Prog Op Ans Unit) :=
  fun i => if i = j then p else jobs i

theorem setJob_some {jobs : Job → Option (Prog Op Ans Unit)} {i j : Job} {p : Option (Prog Op Ans Unit)}
    {q : Prog Op Ans Unit} (h : setJob jobs j p i = some q) : (i = j ∧ p = some q) ∨ (i ≠ j ∧ jobs i = some q) := by
  by_cases hij : i = j
  · exact Or.inl ⟨hij, by simpa [setJob, hij] using h⟩
  · exact Or.inr ⟨hij, by simpa [setJob, hij] using h⟩

variable [DecidableEq Op]

variable (M : Machine Op Ans S Job Env)

def Machine.step (x : Conf Op Ans S Job) : Event Op Ans Job Env → Option (Conf Op Ans S Job)
  | .start j => match x.jobs j with
    | none => some { x with jobs := setJob x.jobs j (some (M.program j)) }
    | some _ => none
  | .step j d => match x.jobs j with
    | some p => (advance M.svc p x.db d).map fun (q, t) => ⟨t, setJob x.jobs j (some q)⟩
    | none => none
  | .finish j => match x.jobs j with
    | some p => if p.isDone then some { x with jobs := setJob x.jobs j none } else none
    | none => none
  | .env e => (M.env x.db e).map fun t => { x with db := t }
  | .crash => some { x with jobs := fun _ => none }

variable {M} in
/-- Everything a step can do. -/
theorem Machine.step_cases {x y : Conf Op Ans S Job} {e : Event Op Ans Job Env} (h : M.step x e = some y) :
    (∃ j, e = .start j ∧ x.jobs j = none ∧ y = { x with jobs := setJob x.jobs j (some (M.program j)) }) ∨
      (∃ j d p q t, e = .step j d ∧ x.jobs j = some p ∧ advance M.svc p x.db d = some (q, t) ∧
        y = ⟨t, setJob x.jobs j (some q)⟩) ∨
      (∃ j p, e = .finish j ∧ x.jobs j = some p ∧ p.isDone ∧ y = { x with jobs := setJob x.jobs j none }) ∨
      (∃ e' t, e = .env e' ∧ M.env x.db e' = some t ∧ y = { x with db := t }) ∨
      (e = .crash ∧ y = { x with jobs := fun _ => none }) := by
  cases e with
  | start j =>
    simp only [Machine.step] at h
    split at h
    · rename_i hj
      exact Or.inl ⟨j, rfl, hj, (Option.some.inj h).symm⟩
    · cases h
  | step j d =>
    simp only [Machine.step] at h
    split at h
    · rename_i p hp
      obtain ⟨⟨q, t⟩, ha, hy⟩ := Option.map_eq_some_iff.mp h
      exact Or.inr (Or.inl ⟨j, d, p, q, t, rfl, hp, ha, hy.symm⟩)
    · cases h
  | finish j =>
    simp only [Machine.step] at h
    split at h
    · rename_i p hp
      split at h
      · rename_i hdone
        exact Or.inr (Or.inr (Or.inl ⟨j, p, rfl, hp, hdone, (Option.some.inj h).symm⟩))
      · cases h
    · cases h
  | env e =>
    obtain ⟨t, ht, hy⟩ := Option.map_eq_some_iff.mp h
    exact Or.inr (Or.inr (Or.inr (Or.inl ⟨e, t, rfl, ht, hy.symm⟩)))
  | crash => exact Or.inr (Or.inr (Or.inr (Or.inr ⟨rfl, (Option.some.inj h).symm⟩)))

def Machine.system : System (Conf Op Ans S Job) (Event Op Ans Job Env) := ⟨⟨M.init, fun _ => none⟩, M.step⟩

def Cond.meets (C : Cond Op Ans S Job Env) (x : Conf Op Ans S Job) : Event Op Ans Job Env → Prop
  | .start j => C.start j
  | .step _ d => C.did x.db d
  | .env e => C.env x.db e
  | _ => True

instance (C : Cond Op Ans S Job Env) [∀ j, Decidable (C.start j)] [∀ s d, Decidable (C.did s d)]
    [∀ s e, Decidable (C.env s e)] (x : Conf Op Ans S Job) : ∀ e, Decidable (C.meets x e)
  | .start j => inferInstanceAs (Decidable (C.start j))
  | .step _ d => inferInstanceAs (Decidable (C.did x.db d))
  | .env e => inferInstanceAs (Decidable (C.env x.db e))
  | .finish _ => isTrue trivial
  | .crash => isTrue trivial

/-- The condition every step meets. -/
def anyStep : Cond Op Ans S Job Env where
  start _ := True
  did _ _ := True
  env _ _ := True

omit [DecidableEq Job] [DecidableEq Op] in
theorem anyStep_meets (x : Conf Op Ans S Job) (e : Event Op Ans Job Env) : anyStep.meets x e := by
  cases e <;> trivial

/-- One event, or the next operation of a job that some is left of. -/
inductive Move (Op : Type) (Ans : Op → Type) (Job Env : Type) where
  | event (e : Event Op Ans Job Env)
  | next (j : Job)

/-- The events of a run in which every operation succeeds and is answered by `answer`. -/
def Machine.events (answer : (o : Op) → S → Ans o) :
    Conf Op Ans S Job → List (Move Op Ans Job Env) → List (Event Op Ans Job Env)
  | _, [] => []
  | x, .event e :: ms => e :: match M.step x e with
    | some y => events answer y ms
    | none => []
  | x, .next j :: ms => match x.jobs j with
    | some (.op o _ _) =>
      let e := .step j (.ran o (answer o x.db))
      e :: match M.step x e with
        | some y => events answer y ms
        | none => []
    | _ => events answer x ms

/-- A setting for each job, each promising what the others rely on, and a proof that each
    job's program lives up to its own. -/
structure Contract (C : Cond Op Ans S Job Env) where
  inv : S → Prop
  rely : Job → S → S → Prop
  guar : Job → S → S → Prop
  rely_refl : ∀ j s, rely j s s
  rely_trans : ∀ {j s t u}, rely j s t → rely j t u → rely j s u
  guar_refl : ∀ j s, guar j s s
  compat : ∀ i j s t, i ≠ j → guar i s t → rely j s t
  init : inv M.init
  env : ∀ s e t, inv s → C.env s e → M.env s e = some t → inv t ∧ ∀ j, rely j s t
  jobs : ∀ j s, C.start j → inv s →
    Safe M.svc ⟨inv, rely j, guar j, C.did, False, rely_refl j, rely_trans, guar_refl j⟩ (M.program j) s

namespace Contract

variable {M} {C : Cond Op Ans S Job Env} (K : Contract M C)

def setting (j : Job) : Setting Op Ans S :=
  ⟨K.inv, K.rely j, K.guar j, C.did, False, K.rely_refl j, K.rely_trans, K.guar_refl j⟩

/-- The invariant, and what is left of each running program. -/
def Holds (x : Conf Op Ans S Job) : Prop :=
  K.inv x.db ∧ ∀ j p, x.jobs j = some p → Safe M.svc (K.setting j) p x.db

/-- What one step of the machine can do to the shared state. -/
def Moves (s t : S) : Prop := t = s ∨ (∃ j, K.guar j s t) ∨ ∃ e, C.env s e ∧ M.env s e = some t

theorem holds_step {x y : Conf Op Ans S Job} {e : Event Op Ans Job Env} (h : K.Holds x) (hc : C.meets x e)
    (hs : M.step x e = some y) : K.Holds y ∧ K.Moves x.db y.db := by
  obtain ⟨hi, hj⟩ := h
  rcases Machine.step_cases hs with ⟨j, rfl, _, rfl⟩ | ⟨j, d, p, q, t, rfl, hp, ha, rfl⟩ | ⟨j, p, rfl, _, _, rfl⟩ |
    ⟨e, t, rfl, ht, rfl⟩ | ⟨rfl, rfl⟩
  · refine ⟨⟨hi, ?_⟩, Or.inl rfl⟩
    intro i p hp
    rcases setJob_some hp with ⟨rfl, hnew⟩ | ⟨_, hold⟩
    · cases hnew
      exact K.jobs i x.db hc hi
    · exact hj i p hold
  · obtain ⟨hg, hi', hw⟩ := wp_advance (hj j p hp) (K.rely_refl j _) hi hc ha
    refine ⟨⟨hi', ?_⟩, Or.inr (Or.inl ⟨j, hg⟩)⟩
    intro i p' hp'
    rcases setJob_some hp' with ⟨rfl, hnew⟩ | ⟨hij, hold⟩
    · cases hnew
      exact hw
    · exact Safe.rely (Γ := K.setting i) (K.compat j i _ _ (Ne.symm hij) hg) (hj i p' hold)
  · refine ⟨⟨hi, ?_⟩, Or.inl rfl⟩
    intro i p' hp'
    rcases setJob_some hp' with ⟨_, hnew⟩ | ⟨_, hold⟩
    · cases hnew
    · exact hj i p' hold
  · obtain ⟨hi', hr⟩ := K.env x.db e t hi hc ht
    exact ⟨⟨hi', fun j p hp => Safe.rely (Γ := K.setting j) (hr j) (hj j p hp)⟩, Or.inr (Or.inr ⟨e, hc, ht⟩)⟩
  · exact ⟨⟨hi, nofun⟩, Or.inl rfl⟩

theorem holds {x : Conf Op Ans S Job} (h : Reach M.system C.meets x) : K.Holds x := by
  refine h.inv ⟨K.init, nofun⟩ ?_
  intro x e y _ hx hc hs
  exact (K.holds_step hx hc hs).1

theorem safe {x : Conf Op Ans S Job} (h : Reach M.system C.meets x) : K.inv x.db := (K.holds h).1

/-- What every promised step keeps, a path of such steps keeps. -/
theorem path {P : S → Prop} (hP : ∀ s t, K.Moves s t → P s → P t) (hC : ∀ x e, C.meets x e) {x y : Conf Op Ans S Job}
    (hx : K.Holds x) (hp : Path M.system x y) (h : P x.db) : P y.db := by
  obtain ⟨es, hes⟩ := hp
  induction es generalizing x with
  | nil =>
    simp only [exec, Option.some.injEq] at hes
    exact hes ▸ h
  | cons e es ih =>
    simp only [exec] at hes
    split at hes
    · rename_i z hz
      obtain ⟨hz', hm⟩ := K.holds_step hx (hC x e) hz
      exact ih hz' (hP _ _ hm h) hes
    · cases hes

end Contract

end Machine

end Script
