/-
  FlowHelm.Lib.Regex — regular expressions as a backtracking matcher reads them.

  A pattern is tried from a position on with a continuation for what comes behind it: alternatives
  and repetitions are tried in their order, greedy ones the longest first, lazy ones the shortest,
  and the first way in which the continuation succeeds counts. `Matches` is what a pattern can
  consume, in whatever order.

  - `repeated_match` / `repeated_stop` / `run_lookahead`: the steps of the matcher.
  - `run_sound` / `run_complete`: the matcher finds a way just if there is one.
  - `run_ahead` / `run_ahead_none`: what a lookahead lets through.
  - `run_lazy` / `run_greedy`: which way a repetition takes.
  - `search_eq_none` / `search_complete` / `search_sound`: a search finds a match just if there is one.
-/

namespace Regex

/-- Repetitions are of single units. -/
inductive Pattern (α : Type) where
  | one (p : α → Bool)
  | many (greedy : Bool) (p : α → Bool)
  | seq (r q : Pattern α)
  | alt (r q : Pattern α)
  /-- What it consumes is captured under its number. -/
  | group (n : Nat) (r : Pattern α)
  | ahead (r : Pattern α)
  | ending

abbrev Captures (α : Type) := Nat → Option (List α)

/-- The captures, and what is left behind the match. -/
abbrev Result (α : Type) := Option (Captures α × List α)

variable {α : Type}

def Captures.set (c : Captures α) (n : Nat) (text : List α) : Captures α := fun i => if i = n then some text else c i

/-- One more of them, or on with the rest. -/
def repeated (greedy : Bool) (p : α → Bool) (k : List α → Result α) : List α → Result α
  | [] => k []
  | u :: s =>
    if p u then if greedy then (repeated greedy p k s).or (k (u :: s)) else (k (u :: s)).or (repeated greedy p k s)
    else k (u :: s)

def run : Pattern α → Captures α → List α → (Captures α → List α → Result α) → Result α
  | .one _, _, [], _ => none
  | .one p, c, u :: s, k => if p u then k c s else none
  | .many greedy p, c, s, k => repeated greedy p (k c) s
  | .seq r q, c, s, k => run r c s fun c s => run q c s k
  | .alt r q, c, s, k => (run r c s k).or (run q c s k)
  | .group n r, c, s, k => run r c s fun c t => k (c.set n (s.take (s.length - t.length))) t
  | .ahead r, c, s, k => match run r c s fun c t => some (c, t) with
    | some (c, _) => k c s
    | none => none
  | .ending, c, s, k => if s.isEmpty then k c s else none

/-- It captures nothing. -/
def Pattern.plain : Pattern α → Bool
  | .one _ | .many _ _ | .ending => true
  | .seq r q | .alt r q => r.plain && q.plain
  | .group _ _ => false
  | .ahead r => r.plain

/-- What a pattern can consume of a text, and leave. -/
inductive Matches : Pattern α → List α → List α → Prop
  | one {p : α → Bool} {u : α} {s : List α} : p u = true → Matches (.one p) (u :: s) s
  | many {greedy : Bool} {p : α → Bool} {us s : List α} : (∀ u ∈ us, p u = true) → Matches (.many greedy p) (us ++ s) s
  | seq {r q : Pattern α} {s t v : List α} : Matches r s t → Matches q t v → Matches (.seq r q) s v
  | left {r q : Pattern α} {s t : List α} : Matches r s t → Matches (.alt r q) s t
  | right {r q : Pattern α} {s t : List α} : Matches q s t → Matches (.alt r q) s t
  | group {n : Nat} {r : Pattern α} {s t : List α} : Matches r s t → Matches (.group n r) s t
  | ahead {r : Pattern α} {s t : List α} : Matches r s t → Matches (.ahead r) s s
  | ending : Matches .ending [] []

/-- Nothing is put before the text that is left. -/
theorem Matches.suffix {r : Pattern α} {s t : List α} (h : Matches r s t) : t <:+ s := by
  induction h with
  | one _ => exact List.suffix_cons ..
  | many _ => exact List.suffix_append ..
  | seq _ _ ihr ihq => exact ihq.trans ihr
  | left _ ih => exact ih
  | right _ ih => exact ih
  | group _ ih => exact ih
  | ahead _ _ => exact List.suffix_refl _
  | ending => exact List.suffix_refl _

/-! ## The steps of the matcher -/

section Steps

variable {greedy : Bool} {p : α → Bool} {k : List α → Result α} {u : α} {r q : Pattern α} {c : Captures α} {s : List α}
  {next : Captures α → List α → Result α}

theorem repeated_match (hp : p u = true) : repeated greedy p k (u :: s) =
    if greedy then (repeated greedy p k s).or (k (u :: s)) else (k (u :: s)).or (repeated greedy p k s) := if_pos hp

theorem repeated_stop (hp : p u ≠ true) : repeated greedy p k (u :: s) = k (u :: s) := if_neg hp

theorem run_one : run (.one p) c (u :: s) next = if p u then next c s else none := rfl

theorem run_alt : run (.alt r q) c s next = (run r c s next).or (run q c s next) := rfl

/-- A lookahead goes on from where it started, with what it captured. -/
theorem run_lookahead : run (.ahead r) c s next = (run r c s fun c t => some (c, t)).bind fun found => next found.1 s := by
  show (match run r c s fun c t => some (c, t) with
    | some (c, _) => next c s
    | none => none) = _
  cases run r c s fun c t => some (c, t) <;> rfl

end Steps

/-! ## The matcher finds a way just if there is one -/

theorem repeated_sound {greedy : Bool} {p : α → Bool} {k : List α → Result α} {s : List α} {x : Captures α × List α}
    (h : repeated greedy p k s = some x) : ∃ us t, s = us ++ t ∧ (∀ u ∈ us, p u = true) ∧ k t = some x := by
  induction s with
  | nil => exact ⟨[], [], rfl, List.forall_mem_nil _, h⟩
  | cons u s ih =>
    have hstop : k (u :: s) = some x → ∃ us t, u :: s = us ++ t ∧ (∀ u ∈ us, p u = true) ∧ k t = some x :=
      fun hk => ⟨[], u :: s, rfl, List.forall_mem_nil _, hk⟩
    by_cases hp : p u = true
    · have hmore : repeated greedy p k s = some x → ∃ us t, u :: s = us ++ t ∧ (∀ u ∈ us, p u = true) ∧ k t = some x := by
        intro hs
        obtain ⟨us, t, rfl, hus, hk⟩ := ih hs
        exact ⟨u :: us, t, rfl, List.forall_mem_cons.mpr ⟨hp, hus⟩, hk⟩
      rw [repeated_match hp] at h
      cases greedy with
      | true => exact (Option.or_eq_some_iff.mp h).elim hmore fun h => hstop h.2
      | false => exact (Option.or_eq_some_iff.mp h).elim hstop fun h => hmore h.2
    · rw [repeated_stop hp] at h
      exact hstop h

theorem run_sound {r : Pattern α} {c : Captures α} {s : List α} {k : Captures α → List α → Result α}
    {x : Captures α × List α} (h : run r c s k = some x) :
    ∃ d t, Matches r s t ∧ k d t = some x ∧ (r.plain = true → d = c) := by
  induction r generalizing c s k x with
  | one p =>
    cases s with
    | nil => cases h
    | cons u s =>
      rw [run_one] at h
      split at h
      · rename_i hp
        exact ⟨c, s, .one hp, h, fun _ => rfl⟩
      · cases h
  | many greedy p =>
    obtain ⟨us, t, rfl, hus, hk⟩ := repeated_sound h
    exact ⟨c, t, .many hus, hk, fun _ => rfl⟩
  | seq r q ihr ihq =>
    obtain ⟨d, t, hr, h, hd⟩ := ihr h
    obtain ⟨e, v, hq, h, he⟩ := ihq h
    refine ⟨e, v, .seq hr hq, h, fun hplain => ?_⟩
    obtain ⟨hrp, hqp⟩ := Bool.and_eq_true_iff.mp hplain
    exact (he hqp).trans (hd hrp)
  | alt r q ihr ihq =>
    rcases Option.or_eq_some_iff.mp h with h | ⟨-, h⟩
    · obtain ⟨d, t, hr, h, hd⟩ := ihr h
      exact ⟨d, t, .left hr, h, fun hplain => hd (Bool.and_eq_true_iff.mp hplain).1⟩
    · obtain ⟨d, t, hq, h, hd⟩ := ihq h
      exact ⟨d, t, .right hq, h, fun hplain => hd (Bool.and_eq_true_iff.mp hplain).2⟩
  | group n r ih =>
    obtain ⟨d, t, hr, h, -⟩ := ih h
    exact ⟨_, t, .group hr, h, fun hplain => by cases hplain⟩
  | ahead r ih =>
    rw [run_lookahead] at h
    obtain ⟨⟨d, t⟩, hrun, h⟩ := Option.bind_eq_some_iff.mp h
    obtain ⟨e, v, hr, hk, he⟩ := ih hrun
    cases hk
    exact ⟨d, s, .ahead hr, h, he⟩
  | ending =>
    cases s with
    | nil => exact ⟨c, [], .ending, h, fun _ => rfl⟩
    | cons u s => cases h

theorem repeated_complete {greedy : Bool} {p : α → Bool} {k : List α → Result α} {us t : List α}
    (hus : ∀ u ∈ us, p u = true) (hk : (k t).isSome = true) : (repeated greedy p k (us ++ t)).isSome = true := by
  induction us with
  | nil =>
    cases t with
    | nil => exact hk
    | cons u s =>
      rw [List.nil_append]
      by_cases hp : p u = true
      · rw [repeated_match hp]
        cases greedy <;> simp [hk]
      · rw [repeated_stop hp]
        exact hk
  | cons u us ih =>
    obtain ⟨hu, hus⟩ := List.forall_mem_cons.mp hus
    rw [List.cons_append, repeated_match hu]
    cases greedy <;> simp [ih hus]

theorem run_complete {r : Pattern α} {s t : List α} (h : Matches r s t) (c : Captures α)
    {k : Captures α → List α → Result α} (hk : ∀ d, (k d t).isSome = true) : (run r c s k).isSome = true := by
  induction h generalizing c k with
  | one hp =>
    rw [run_one, if_pos hp]
    exact hk c
  | many hus => exact repeated_complete hus (hk c)
  | seq _ _ ihr ihq => exact ihr c fun d => ihq d hk
  | left _ ih =>
    rw [run_alt, Option.isSome_or, ih c hk, Bool.true_or]
  | right _ ih =>
    rw [run_alt, Option.isSome_or, ih c hk, Bool.or_true]
  | group _ ih => exact ih c fun d => hk _
  | ahead _ ih =>
    obtain ⟨found, hrun⟩ := Option.isSome_iff_exists.mp (ih c (k := fun c t => some (c, t)) fun _ => rfl)
    rw [run_lookahead, hrun]
    exact hk found.1
  | ending => exact hk c

/-- A lookahead that captures nothing consumes nothing and leaves the captures. -/
theorem run_ahead {r : Pattern α} {s t : List α} (h : Matches r s t) (hplain : r.plain = true) (c : Captures α)
    (k : Captures α → List α → Result α) : run (.ahead r) c s k = k c s := by
  obtain ⟨⟨d, v⟩, hrun⟩ := Option.isSome_iff_exists.mp (run_complete h c (k := fun c t => some (c, t)) fun _ => rfl)
  obtain ⟨e, w, -, hk, he⟩ := run_sound hrun
  cases hk
  rw [run_lookahead, hrun, Option.bind_some, he hplain]

theorem run_ahead_none {r : Pattern α} {s : List α} (h : ∀ t, ¬Matches r s t) (c : Captures α)
    (k : Captures α → List α → Result α) : run (.ahead r) c s k = none := by
  have hnone : (run r c s fun c t => some (c, t)) = none := by
    refine Option.eq_none_iff_forall_ne_some.mpr fun found hrun => ?_
    obtain ⟨-, t, hm, -⟩ := run_sound hrun
    exact h t hm
  rw [run_lookahead, hnone, Option.bind_none]

/-! ## The way a repetition takes -/

/-- A lazy one goes on as long as what is behind it fails. -/
theorem run_lazy {p : α → Bool} {c : Captures α} {us t : List α} {k : Captures α → List α → Result α}
    (hus : ∀ u ∈ us, p u = true) (hfail : ∀ v w, us = v ++ w → w ≠ [] → k c (w ++ t) = none) {x : Captures α × List α}
    (hk : k c t = some x) : run (.many false p) c (us ++ t) k = some x := by
  show repeated false p (k c) (us ++ t) = some x
  induction us with
  | nil =>
    cases t with
    | nil => exact hk
    | cons u s =>
      rw [List.nil_append]
      by_cases hp : p u = true
      · simp [repeated_match hp, hk]
      · rw [repeated_stop hp]
        exact hk
  | cons u us ih =>
    obtain ⟨hu, hus⟩ := List.forall_mem_cons.mp hus
    have hhere : k c (u :: us ++ t) = none := hfail [] (u :: us) rfl (List.cons_ne_nil u us)
    rw [List.cons_append] at hhere ⊢
    rw [repeated_match hu, hhere]
    exact ih hus fun v w hvw => hfail (u :: v) w (by rw [hvw, List.cons_append])

/-- A greedy one takes all there is, if what is behind it then succeeds. -/
theorem run_greedy {p : α → Bool} {c : Captures α} {us t : List α} {k : Captures α → List α → Result α}
    (hus : ∀ u ∈ us, p u = true) (hend : ∀ u ∈ t.head?, p u = false) {x : Captures α × List α} (hk : k c t = some x) :
    run (.many true p) c (us ++ t) k = some x := by
  show repeated true p (k c) (us ++ t) = some x
  induction us with
  | nil =>
    cases t with
    | nil => exact hk
    | cons u s =>
      rw [List.nil_append, repeated_stop (Bool.eq_false_iff.mp (hend u rfl))]
      exact hk
  | cons u us ih =>
    obtain ⟨hu, hus⟩ := List.forall_mem_cons.mp hus
    rw [List.cons_append, repeated_match hu, if_pos rfl, ih hus]
    rfl

/-! ## Searching -/

/-- The first position from which the pattern is matched. -/
structure Found (α : Type) where
  before : List α
  captures : Captures α
  after : List α

def matchHere (r : Pattern α) (s : List α) : Result α := run r (fun _ => none) s fun c t => some (c, t)

def search (r : Pattern α) : List α → Option (Found α)
  | [] => (matchHere r []).map fun (c, t) => ⟨[], c, t⟩
  | u :: s => match matchHere r (u :: s) with
    | some (c, t) => some ⟨[], c, t⟩
    | none => (search r s).map fun m => { m with before := u :: m.before }

theorem matchHere_sound {r : Pattern α} {s t : List α} {c : Captures α} (h : matchHere r s = some (c, t)) : Matches r s t := by
  obtain ⟨d, v, hm, hk, -⟩ := run_sound h
  cases hk
  exact hm

theorem matchHere_none {r : Pattern α} {s : List α} (h : ∀ t, ¬Matches r s t) : matchHere r s = none := by
  cases hrun : matchHere r s with
  | none => rfl
  | some x => exact absurd (matchHere_sound hrun) (h x.2)

theorem search_nil {r : Pattern α} : search r [] = (matchHere r []).map fun (c, t) => ⟨[], c, t⟩ := rfl

theorem search_of_match {r : Pattern α} {s t : List α} {c : Captures α} (h : matchHere r s = some (c, t)) :
    search r s = some ⟨[], c, t⟩ := by
  cases s with
  | nil => rw [search_nil, h, Option.map_some]
  | cons u s => simp only [search, h]

theorem search_cons {r : Pattern α} {u : α} {s : List α} (h : matchHere r (u :: s) = none) :
    search r (u :: s) = (search r s).map fun m => { m with before := u :: m.before } := by
  simp only [search, h]

theorem search_eq_none {r : Pattern α} {s : List α} (h : ∀ v w t, s = v ++ w → ¬Matches r w t) : search r s = none := by
  induction s with
  | nil => rw [search_nil, matchHere_none fun t => h [] [] t rfl, Option.map_none]
  | cons u s ih =>
    rw [search_cons (matchHere_none fun t => h [] (u :: s) t rfl), ih, Option.map_none]
    exact fun v w t hs => h (u :: v) w t (by rw [hs, List.cons_append])

/-- Wherever there is a match one is found. -/
theorem search_complete {r : Pattern α} {v w t : List α} (h : Matches r w t) : (search r (v ++ w)).isSome = true := by
  have hhere : (matchHere r w).isSome = true := run_complete h _ fun _ => rfl
  induction v with
  | nil =>
    obtain ⟨⟨c, u⟩, hrun⟩ := Option.isSome_iff_exists.mp hhere
    rw [List.nil_append, search_of_match hrun]
    rfl
  | cons u v ih =>
    rw [List.cons_append]
    cases hrun : matchHere r (u :: (v ++ w)) with
    | some x => rw [search_of_match hrun]; rfl
    | none => rw [search_cons hrun, Option.isSome_map, ih]

theorem search_sound {r : Pattern α} {s : List α} {m : Found α} (h : search r s = some m) :
    ∃ w, s = m.before ++ w ∧ Matches r w m.after := by
  induction s generalizing m with
  | nil =>
    obtain ⟨⟨c, t⟩, hrun, rfl⟩ := Option.map_eq_some_iff.mp h
    exact ⟨[], rfl, matchHere_sound hrun⟩
  | cons u s ih =>
    cases hrun : matchHere r (u :: s) with
    | some x =>
      rw [search_of_match hrun] at h
      obtain rfl := Option.some.inj h
      exact ⟨u :: s, rfl, matchHere_sound hrun⟩
    | none =>
      rw [search_cons hrun] at h
      obtain ⟨m', hm', rfl⟩ := Option.map_eq_some_iff.mp h
      obtain ⟨w, rfl, hw⟩ := ih hm'
      exact ⟨w, rfl, hw⟩

end Regex
