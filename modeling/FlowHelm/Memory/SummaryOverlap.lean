/-
  FlowHelm.Memory.SummaryOverlap — the summaries of memory jobs that overlap, and what their
  containers leave.

  - `outputs_own_iff`: a call returns what its own container printed just until a call removes the
    container another one waits for, which then never does.
  - `nothing_left`: behind the last call no container is left.
-/
import FlowHelm.Memory.SummaryContainer

namespace FlowHelm.Memory.SummaryContainer

open Js Parties Runs

variable {containerName : String} {left : Option Box}

/-! ## Whose log a call reads -/

/-- A text the call returns is what its own container had printed. -/
def Own (s : St) (o : Outcome) : Prop :=
  ∀ text, o.result = .ok text → ∃ (b : Nat) (box : Box), o.own = some b ∧ o.read = some b ∧ s.boxes[b]? = some box ∧
    box.prompt = o.prompt ∧ ∃ printed rest, box.printed = printed ++ rest ∧ text = trim printed

/-- What a call waits for still has the name. -/
structure Held (s : St) : Prop where
  named : ∀ call ∈ s.calls, ∀ b, call.phase.awaits = some b → s.named = some b
  carried : ∀ call ∈ s.calls, ∀ o, call.phase.carries = some o → Own s o
  done : ∀ o ∈ s.done, Own s o

/-- No call removes the container another one waits for. -/
def Apart (s : St) : Ev → Prop
  | .answer i a => ∀ call ∈ s.calls[i]?, call.phase.removes = true → a = .ok →
    ∀ other ∈ s.calls, ∀ b ∈ other.phase.awaits, s.named ≠ some b
  | _ => True

instance decidableApart (s : St) : (e : Ev) → Decidable (Apart s e)
  | .answer i a => inferInstanceAs (Decidable (∀ call ∈ s.calls[i]?, call.phase.removes = true → a = .ok →
    ∀ other ∈ s.calls, ∀ b ∈ other.phase.awaits, s.named ≠ some b))
  | .summarize .. | .prints _ | .exits => inferInstanceAs (Decidable True)

theorem Own.grown {s t : St} {o : Outcome} (h : Own s o) (grows : Grows s.boxes t.boxes) : Own t o := by
  intro text htext
  obtain ⟨b, box, hown, hread, hbox, hprompt, printed, rest, hprinted, rfl⟩ := h text htext
  obtain ⟨box', hbox', hlater, rest', hrest⟩ := grows b box hbox
  exact ⟨b, box', hown, hread, hbox', hlater.trans hprompt, printed,
    rest ++ rest', by rw [hrest, hprinted, String.append_assoc], rfl⟩

theorem own_error {s : St} {o : Outcome} {message : String} (h : o.result = .error message) : Own s o := by
  intro text htext
  cases h.symm.trans htext

theorem Held.grown {s t : St} (hs : Held s) (grows : Grows s.boxes t.boxes)
    (named : ∀ call ∈ s.calls, ∀ b, call.phase.awaits = some b → t.named = some b) (calls : t.calls = s.calls)
    (done : t.done = s.done) :
    Held t where
  named call hcall := named call (calls ▸ hcall)
  carried call hcall o ho := (hs.carried call (calls ▸ hcall) o ho).grown grows
  done o ho := (hs.done o (done ▸ ho)).grown grows

theorem mem_done_proceed {s : St} {i : Nat} {call : Call} {next : Phase ⊕ Outcome} {o : Outcome}
    (ho : o ∈ (proceed s i call next).done) : next = .inr o ∨ o ∈ s.done := by
  cases next with
  | inl phase => exact Or.inr ho
  | inr outcome =>
    rcases List.mem_append.mp ho with ho | ho
    · exact Or.inr ho
    · obtain rfl := List.mem_singleton.mp ho
      exact Or.inl rfl

theorem Held.proceed {s : St} {i : Nat} {call : Call} {next : Phase ⊕ Outcome} (hs : Held s) (hi : s.calls[i]? = some call)
    (awaits : ∀ b, awaited next = some b → s.named = some b) (carries : ∀ o, SummaryContainer.carried next = some o → Own s o) :
    Held (proceed s i call next) := by
  obtain ⟨hboxes, hnamed⟩ := proceed_boxes s i call next
  have hgrows : Grows s.boxes (SummaryContainer.proceed s i call next).boxes := hboxes ▸ Grows.refl _
  refine ⟨?_, ?_, ?_⟩
  · intro x hx b hb
    rw [hnamed]
    rcases mem_proceed hi hx with ⟨phase, rfl, rfl⟩ | hx
    · exact awaits b hb
    · exact hs.named x hx b hb
  · intro x hx o ho
    rcases mem_proceed hi hx with ⟨phase, rfl, rfl⟩ | hx
    · exact (carries o ho).grown hgrows
    · exact (hs.carried x hx o ho).grown hgrows
  · intro o ho
    rcases mem_done_proceed ho with rfl | ho
    · exact (carries o rfl).grown hgrows
    · exact (hs.done o ho).grown hgrows

theorem held_step {s t : St} {e : Ev} (hbase : Base s) (hs : Held s) (hapart : Apart s e)
    (h : step containerName s e = some t) : Held t := by
  cases e with
  | summarize content systemPrompt =>
    cases h
    refine ⟨?_, ?_, hs.done⟩
    · intro call hcall b hb
      rcases List.mem_append.mp hcall with hcall | hcall
      · exact hs.named call hcall b hb
      · obtain rfl := List.mem_singleton.mp hcall
        cases hb
    · intro call hcall o ho
      rcases List.mem_append.mp hcall with hcall | hcall
      · exact hs.carried call hcall o ho
      · obtain rfl := List.mem_singleton.mp hcall
        cases ho
  | answer i a =>
    obtain ⟨call, u, next, hi, hu, rfl⟩ := step_answer h
    obtain ⟨hnext, hcalls, hdone⟩ := respond_next hu
    have hcall := List.mem_of_getElem? hi
    cases hnext with
    | goes named length grows awaits owner carries =>
      have hu : Held u := hs.grown grows (fun x hx b hb => named.trans (hs.named x hx b hb)) hcalls hdone
      refine hu.proceed (hcalls ▸ hi) ?_ ?_
      · intro b hb
        exact named.trans (hs.named call hcall b (awaits b hb))
      · intro o ho
        rcases carries o ho with ho | ⟨-, message, hmessage⟩
        · exact (hs.carried call hcall o ho).grown grows
        · exact own_error hmessage
    | removes works removes awaits owner carries =>
      have hfree := hapart call hi removes works
      have hu : Held (removed s) := by
        refine hs.grown (grows_setStatus s .removed) ?_ hcalls hdone
        intro x hx b hb
        exact (hfree x hx b hb (hs.named x hx b hb)).elim
      refine hu.proceed (hcalls ▸ hi) ?_ ?_
      · intro b hb
        cases awaits.symm.trans hb
      · intro o ho
        exact (hs.carried call hcall o (carries ▸ ho)).grown (grows_setStatus s .removed)
    | creates free creating goes =>
      have hu : Held (created s call.prompt) := by
        refine hs.grown (grows_concat s.boxes _) ?_ rfl rfl
        intro x hx b hb
        cases free.symm.trans (hs.named x hx b hb)
      refine hu.proceed hi ?_ ?_
      · intro b hb
        rcases goes with rfl | rfl
        · exact hb
        · cases hb
      · intro o ho
        rcases goes with rfl | rfl
        · cases ho
        · cases ho
          exact own_error rfl
    | @reads b j box reading named found =>
      have hawaits : call.phase.awaits = some b := by rw [reading]; rfl
      obtain rfl : j = b := Option.some.inj (named.symm.trans (hs.named call hcall b hawaits))
      refine hs.proceed hi nofun ?_
      intro o ho text htext
      cases ho
      cases htext
      obtain ⟨box', hbox', hprompt⟩ := hbase.made call hcall j hawaits
      obtain rfl := Option.some.inj (found.symm.trans hbox')
      exact ⟨j, box, rfl, rfl, found, hprompt, box.printed, "", by simp, rfl⟩
  | prints text =>
    obtain ⟨hgrows, hnamed, hlength, hcalls, hdone⟩ := step_prints h
    exact hs.grown hgrows (fun x hx b hb => hnamed.trans (hs.named x hx b hb)) hcalls hdone
  | exits =>
    obtain ⟨hgrows, hnamed, hlength, hcalls, hdone⟩ := step_exits h
    exact hs.grown hgrows (fun x hx b hb => hnamed.trans (hs.named x hx b hb)) hcalls hdone

theorem held {s : St} (h : Reach (provider containerName left) Apart s) : Held s := by
  refine h.inv ⟨nofun, nofun, nofun⟩ ?_
  intro s e t hr hs hc he
  exact held_step (base hr) hs hc he

/-! ## A container that is taken away -/

/-- The call waits for a container whose log it will not get, whatever happens. -/
def Doomed (containerName : String) (left : Option Box) (s : St) (call : Call) : Prop :=
  ∃ b, call.phase.awaits = some b ∧
    ∀ es t, exec (provider containerName left) s es = some t → ∀ o ∈ t.done, o.own = some b → o.read ≠ some b

/-- The container `b` has lost the name, and no outcome so far is of its log. -/
structure Lost (s : St) (b : Nat) : Prop where
  named : s.named ≠ some b
  old : b < s.boxes.length
  carried : ∀ call ∈ s.calls, ∀ o, call.phase.carries = some o → o.own = some b → o.read ≠ some b
  done : ∀ o ∈ s.done, o.own = some b → o.read ≠ some b

theorem Lost.grown {s t : St} {b : Nat} (hs : Lost s b) (named : t.named ≠ some b) (length : s.boxes.length ≤ t.boxes.length)
    (calls : t.calls = s.calls) (done : t.done = s.done) : Lost t b :=
  ⟨named, Nat.lt_of_lt_of_le hs.old length, calls ▸ hs.carried, done ▸ hs.done⟩

theorem Lost.proceed {s : St} {i : Nat} {call : Call} {next : Phase ⊕ Outcome} {b : Nat} (hs : Lost s b)
    (hi : s.calls[i]? = some call)
    (carries : ∀ o, SummaryContainer.carried next = some o → o.own = some b → o.read ≠ some b) :
    Lost (proceed s i call next) b := by
  obtain ⟨hboxes, hnamed⟩ := proceed_boxes s i call next
  refine ⟨hnamed ▸ hs.named, hboxes ▸ hs.old, ?_, ?_⟩
  · intro x hx o ho
    rcases mem_proceed hi hx with ⟨phase, rfl, rfl⟩ | hx
    · exact carries o ho
    · exact hs.carried x hx o ho
  · intro o ho
    rcases mem_done_proceed ho with rfl | ho
    · exact carries o rfl
    · exact hs.done o ho

theorem lost_step {s t : St} {e : Ev} {b : Nat} (hs : Lost s b) (h : step containerName s e = some t) : Lost t b := by
  cases e with
  | summarize content systemPrompt =>
    cases h
    refine ⟨hs.named, hs.old, ?_, hs.done⟩
    intro call hcall o ho
    rcases List.mem_append.mp hcall with hcall | hcall
    · exact hs.carried call hcall o ho
    · obtain rfl := List.mem_singleton.mp hcall
      cases ho
  | answer i a =>
    obtain ⟨call, u, next, hi, hu, rfl⟩ := step_answer h
    obtain ⟨hnext, hcalls, hdone⟩ := respond_next hu
    have hcall := List.mem_of_getElem? hi
    cases hnext with
    | goes named length grows awaits owner carries =>
      refine (hs.grown (named ▸ hs.named) (Nat.le_of_eq length.symm) hcalls hdone).proceed (hcalls ▸ hi) ?_
      intro o ho
      rcases carries o ho with ho | ⟨hread, -⟩
      · exact hs.carried call hcall o ho
      · intro _ h
        cases hread.symm.trans h
    | removes works removes awaits owner carries =>
      have hu : Lost (removed s) b := hs.grown (by rintro ⟨⟩) (Nat.le_of_eq (setStatus_length ..).symm) hcalls hdone
      refine hu.proceed (hcalls ▸ hi) ?_
      intro o ho
      exact hs.carried call hcall o (carries ▸ ho)
    | creates free creating goes =>
      have hu : Lost (created s call.prompt) b := by
        refine hs.grown ?_ (by simp [created]) rfl rfl
        intro hnamed
        have hold := hs.old
        cases hnamed
        omega
      refine hu.proceed hi ?_
      · intro o ho
        rcases goes with rfl | rfl
        · cases ho
        · cases ho
          rintro _ ⟨⟩
    | reads reading named found =>
      refine hs.proceed hi ?_
      intro o ho _
      cases ho
      exact named ▸ hs.named
  | prints text =>
    obtain ⟨-, hnamed, hlength, hcalls, hdone⟩ := step_prints h
    exact hs.grown (hnamed ▸ hs.named) (Nat.le_of_eq hlength.symm) hcalls hdone
  | exits =>
    obtain ⟨-, hnamed, hlength, hcalls, hdone⟩ := step_exits h
    exact hs.grown (hnamed ▸ hs.named) (Nat.le_of_eq hlength.symm) hcalls hdone

theorem Lost.doomed {s : St} {call : Call} {b : Nat} (hs : Lost s b) (hawaits : call.phase.awaits = some b) :
    Doomed containerName left s call := by
  refine ⟨b, hawaits, ?_⟩
  intro es
  induction es generalizing s with
  | nil =>
    intro t h
    cases h
    exact hs.done
  | cons e es ih =>
    intro t h
    simp only [exec] at h
    cases hst : (provider containerName left).step s e with
    | none => simp [hst] at h
    | some u =>
      rw [hst] at h
      exact ih (lost_step hs hst) t h

theorem owner_of_carries {phase : Phase} {o : Outcome} (h : phase.carries = some o) :
    phase.owner = o.own ∧ phase.awaits = none := by
  cases phase with
  | cleaning o | cleanStop o | cleanRemove o =>
    cases h
    exact ⟨rfl, rfl⟩
  | _ => cases h

/-- A container one call waits for is nobody else's. -/
theorem only_creator {s : St} {call : Call} {b : Nat} (hbase : Base s) (hcall : call ∈ s.calls)
    (hawaits : call.phase.awaits = some b) :
    (∀ x ∈ s.calls, ∀ o, x.phase.carries = some o → o.own ≠ some b) ∧ ∀ o ∈ s.done, o.own ≠ some b := by
  obtain ⟨pre, post, hl⟩ := List.append_of_mem hcall
  have hone : creators s b ≤ 1 := by
    have := hbase.one b
    split at this <;> omega
  have hcount : ((pre ++ post).map fun x : Call => x.phase.owner).count (some b) = 0 ∧
      (s.done.map Outcome.own).count (some b) = 0 := by
    simp only [creators, hl, List.map_append, List.map_cons, List.count_append, List.count_cons, owner_of_awaits hawaits,
      beq_self_eq_true,
      if_true] at hone ⊢
    omega
  constructor
  · intro x hx o ho hown
    obtain ⟨howner, hnone⟩ := owner_of_carries ho
    rcases mem_splits hl hx with rfl | hx
    · cases hnone.symm.trans hawaits
    · exact List.count_eq_zero.mp hcount.1 (List.mem_map.mpr ⟨x, hx, howner.trans hown⟩)
  · intro o ho hown
    exact List.count_eq_zero.mp hcount.2 (List.mem_map.mpr ⟨o, ho, hown⟩)

theorem respond_removes {s : St} {prompt : String} {phase : Phase} (h : phase.removes = true) :
    ∃ next, respond containerName s prompt phase .ok = some (removed s, next) := by
  cases phase with
  | removing => exact ⟨_, rfl⟩
  | cleanRemove o => exact ⟨_, rfl⟩
  | _ => cases h

/-- A call whose container another one removes stays in flight, and will not get its log. -/
theorem doomed_of_removed {s t : St} {i : Nat} {call other : Call} {b : Nat} (hbase : Base s)
    (h : step containerName s (.answer i .ok) = some t) (hi : s.calls[i]? = some call) (hremoves : call.phase.removes = true)
    (hother : other ∈ s.calls) (hawaits : other.phase.awaits = some b) : other ∈ t.calls ∧ Doomed containerName left t other := by
  have hbase' : Base t := base_step hbase h
  obtain ⟨next, hrespond⟩ : ∃ next, respond containerName s call.prompt call.phase .ok = some (removed s, next) :=
    respond_removes hremoves
  obtain rfl : proceed (removed s) i call next = t := by
    simpa only [step, hi, hrespond, Option.map_some, Option.some.injEq] using h
  have hcalls : (removed s).calls = s.calls := (setStatus_calls s .removed).1
  have hmem : other ∈ (proceed (removed s) i call next).calls := by
    obtain ⟨pre, post, hl, hput⟩ := put_splits hi
    have hrest : other ∈ pre ++ post := by
      refine (mem_splits hl hother).resolve_left ?_
      rintro rfl
      cases hphase : other.phase <;> simp [hphase, Phase.awaits, Phase.removes] at hawaits hremoves
    cases next with
    | inl phase =>
      simp only [proceed, hcalls, hput]
      exact mem_others rfl hrest
    | inr outcome =>
      simp only [proceed, hcalls, hput]
      exact hrest
  obtain ⟨hcarried, hdone⟩ := only_creator hbase' hmem hawaits
  obtain ⟨box, hbox, -⟩ := hbase'.made other hmem b hawaits
  have hlost : Lost (proceed (removed s) i call next) b := by
    refine ⟨?_, (List.getElem?_eq_some_iff.mp hbox).1, ?_, ?_⟩
    · rw [(proceed_boxes ..).2]
      rintro ⟨⟩
    · intro x hx o ho hown
      exact (hcarried x hx o ho hown).elim
    · intro o ho hown
      exact (hdone o ho hown).elim
  exact ⟨hmem, hlost.doomed hawaits⟩

/-- However the calls of both jobs overlap: as long as no call removes the container another one
    waits for, each returns what its own container printed, up to when it read it; and a call whose
    container is removed so will never return that. -/
theorem outputs_own_iff {s : St} (h : Reach (provider containerName left) Apart s) :
    (∀ o ∈ s.done, Own s o) ∧
      ∀ e t, step containerName s e = some t → ¬Apart s e → ∃ call ∈ t.calls, Doomed containerName left t call := by
  refine ⟨(held h).done, ?_⟩
  intro e t he hapart
  cases e with
  | answer i a =>
    refine Classical.byContradiction fun hno => hapart ?_
    intro call hi hremoves hok other hother b hawaits _
    subst hok
    exact hno ⟨other, doomed_of_removed (base h) he hi hremoves hother hawaits⟩
  | summarize | prints | exits => exact (hapart trivial).elim

/-- One memory job's call begins while the other's waits for its container, and takes that for a
    stale one. -/
def secondComes : List Ev :=
  [.summarize "first" "", .answer 0 .no, .answer 0 .ok, .answer 0 .ok, .prints "summary of the first", .summarize "second" "",
    .answer 1 .yes, .answer 1 .ok]

theorem the_second_dooms_the_first :
    ∃ s t, Reach (provider "flowhelm-memory-u" none) Apart s ∧ step "flowhelm-memory-u" s (.answer 1 .ok) = some t ∧
      ∃ call ∈ t.calls, Doomed "flowhelm-memory-u" none t call := by
  have hreach : Reach (provider "flowhelm-memory-u" none) Apart
      ⟨[⟨"first", .exited, "summary of the first"⟩], some 0, [⟨"first", .polling 0⟩, ⟨"second", .removing⟩], []⟩ :=
    reach_of_exec secondComes (by decide) rfl
  exact ⟨_, _, hreach, rfl, (outputs_own_iff hreach).2 (.answer 1 .ok) _ rfl (by decide)⟩

/-- It gets the second's summary for its own. -/
theorem the_first_gets_the_seconds_summary :
    (exec (provider "flowhelm-memory-u" none) ⟨[], none, [], []⟩ (secondComes ++
      [.answer 1 .ok, .answer 1 .ok, .answer 1 .ok, .prints "summary of the second", .exits, .answer 0 .no, .answer 0 .ok,
        .answer 0 .no])).map
        (·.done) = some [⟨"first", some 0, some 1, .ok "summary of the second"⟩] :=
  rfl

/-! ## What is left -/

/-- The clean-up sees the container, and removes it. -/
def cleansUp (s : St) : Phase → Answer → Bool
  | .cleaning _, .no => s.named.isNone
  | .cleanRemove _, .failed => false
  | _, _ => true

def CleansUp (s : St) : Ev → Prop
  | .answer i a => ∀ call ∈ s.calls[i]?, cleansUp s call.phase a = true
  | _ => True

instance decidableCleansUp (s : St) : (e : Ev) → Decidable (CleansUp s e)
  | .answer i a => inferInstanceAs (Decidable (∀ call ∈ s.calls[i]?, cleansUp s call.phase a = true))
  | .summarize .. | .prints _ | .exits => inferInstanceAs (Decidable True)

/-- The call has still to clean up. -/
def Phase.leaves : Phase → Bool
  | .starting _ | .polling _ | .reading _ | .cleaning _ | .cleanStop _ | .cleanRemove _ => true
  | _ => false

theorem respond_leaves {s t : St} {prompt : String} {phase : Phase} {a : Answer} {next : Phase ⊕ Outcome}
    (h : respond containerName s prompt phase a = some (t, next)) (hleaves : phase.leaves = true) :
    (∃ phase', next = .inl phase' ∧ phase'.leaves = true) ∨ (∃ o, phase = .cleaning o ∧ a = .no) ∨
      ∃ o, phase = .cleanRemove o := by
  cases phase with
  | looking | stopping | removing | creating => cases hleaves
  | cleanRemove o => exact Or.inr (Or.inr ⟨o, rfl⟩)
  | cleaning o =>
    cases a with
    | no => exact Or.inr (Or.inl ⟨o, rfl, rfl⟩)
    | yes =>
      simp only [respond] at h
      split at h <;> cases h
      exact Or.inl ⟨_, rfl, rfl⟩
    | ok | failed | lost | late => cases h
  | starting b | polling b | reading b | cleanStop o =>
    refine Or.inl ?_
    cases a <;> simp only [respond, Option.map_eq_some_iff, Option.some.injEq, Prod.mk.injEq, reduceCtorEq] at h
    all_goals grind [Phase.leaves]

/-- What has the name is what an earlier process left, or a call in flight has it to clean up. -/
def Tidy (left : Option Box) (s : St) : Prop :=
  ∀ b, s.named = some b → (b = 0 ∧ left.isSome = true) ∨ ∃ call ∈ s.calls, call.phase.leaves = true

theorem Tidy.mono {s t : St} (hs : Tidy left s) (named : t.named = s.named) (calls : ∀ call ∈ s.calls, call ∈ t.calls) :
    Tidy left t := by
  intro b hb
  refine (hs b (named ▸ hb)).imp id ?_
  rintro ⟨call, hcall, hleaves⟩
  exact ⟨call, calls call hcall, hleaves⟩

theorem mem_proceed_leaves {s : St} {i : Nat} {call : Call} {phase : Phase} (hi : s.calls[i]? = some call)
    (hleaves : phase.leaves = true) :
    ∃ x ∈ (proceed s i call (.inl phase)).calls, x.phase.leaves = true := by
  obtain ⟨pre, post, -, hput⟩ := put_splits hi
  refine ⟨{ call with phase := phase }, ?_, hleaves⟩
  simp only [proceed, hput]
  exact List.mem_append_right _ (.head _)

theorem tidy_step {s t : St} {e : Ev} (hs : Tidy left s) (hc : CleansUp s e) (h : step containerName s e = some t) :
    Tidy left t := by
  cases e with
  | summarize content systemPrompt =>
    cases h
    exact hs.mono rfl fun call hcall => List.mem_append_left _ hcall
  | answer i a =>
    obtain ⟨call, u, next, hi, hu, rfl⟩ := step_answer h
    obtain ⟨hnext, hcalls, hdone⟩ := respond_next hu
    have hclean := hc call hi
    intro b hb
    rw [(proceed_boxes ..).2] at hb
    -- The others have not moved; the call itself leaves only by removing, or finding nothing.
    have hkept : s.named = some b →
        (b = 0 ∧ left.isSome = true) ∨ ∃ x ∈ (proceed u i call next).calls, x.phase.leaves = true := by
      intro hnamed
      refine (hs b hnamed).imp id ?_
      rintro ⟨x, hx, hleaves⟩
      obtain ⟨pre, post, hl, hput⟩ := put_splits hi
      rcases mem_splits hl hx with rfl | hx
      · rcases respond_leaves hu hleaves with ⟨phase', rfl, hphase'⟩ | ⟨o, hphase, rfl⟩ | ⟨o, hphase⟩
        · exact mem_proceed_leaves (hcalls ▸ hi) hphase'
        · simp [hphase, cleansUp, hnamed] at hclean
        · cases a with
          | failed => simp [hphase, cleansUp] at hclean
          | ok =>
            rw [hphase] at hu
            cases hu
            cases hb
          | yes | no | lost | late =>
            rw [hphase] at hu
            cases hu
      · refine ⟨x, ?_, hleaves⟩
        cases next with
        | inl phase =>
          simp only [proceed, hcalls, hput]
          exact mem_others rfl hx
        | inr outcome =>
          simp only [proceed, hcalls, hput]
          exact hx
    cases hnext with
    | goes named length grows awaits owner carries => exact hkept (named ▸ hb)
    | removes works removes awaits owner carries => cases hb
    | creates free creating goes =>
      rcases goes with rfl | rfl
      · exact Or.inr (mem_proceed_leaves hi rfl)
      · exact Or.inr (mem_proceed_leaves hi rfl)
    | reads reading named found => exact hkept hb
  | prints text =>
    obtain ⟨-, hnamed, -, hcalls, -⟩ := step_prints h
    exact hs.mono hnamed fun call hcall => hcalls ▸ hcall
  | exits =>
    obtain ⟨-, hnamed, -, hcalls, -⟩ := step_exits h
    exact hs.mono hnamed fun call hcall => hcalls ▸ hcall

/-- Where each clean-up sees the container and can remove it, nothing that was created is left once
    no call is in flight, whatever failed, was lost or timed out before, and however the calls
    overlapped. -/
theorem nothing_left {s : St} (h : Reach (provider containerName left) CleansUp s) (hcalls : s.calls = []) :
    ∀ b, s.named = some b → b = 0 ∧ left.isSome = true := by
  have htidy : Tidy left s := by
    refine h.inv ?_ fun s e t _ hs hc he => tidy_step hs hc he
    intro b hb
    cases left with
    | none => cases hb
    | some box =>
      cases hb
      exact Or.inl ⟨rfl, rfl⟩
  intro b hb
  rcases htidy b hb with hleft | ⟨call, hcall, -⟩
  · exact hleft
  · rw [hcalls] at hcall
    cases hcall

/-- One call after another, the first of which is late. -/
def oneByOne : List Ev :=
  [.summarize "first" "", .answer 0 .no, .answer 0 .ok, .answer 0 .lost, .answer 0 .yes, .answer 0 .failed, .answer 0 .ok,
    .summarize "second" "", .answer 0 .no, .answer 0 .ok, .answer 0 .ok, .answer 0 .late, .answer 0 .yes, .answer 0 .ok,
      .answer 0 .ok]

theorem one_by_one_leaves_nothing :
    ∃ s, Reach (provider "flowhelm-memory-u" none) CleansUp s ∧ s.boxes.length = 2 ∧
      ∀ b, s.named = some b → b = 0 ∧ (none : Option Box).isSome = true := by
  have hreach : Reach (provider "flowhelm-memory-u" none) CleansUp
      ⟨[⟨"first", .removed, ""⟩, ⟨"second", .removed, ""⟩], none, [],
        [thrown "first" (some 0) commandFailed, thrown "second" (some 1) (timedOut "flowhelm-memory-u")]⟩ :=
    reach_of_exec oneByOne (by decide) rfl
  exact ⟨_, hreach, rfl, nothing_left hreach rfl⟩

end FlowHelm.Memory.SummaryContainer
