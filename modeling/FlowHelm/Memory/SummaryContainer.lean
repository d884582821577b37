/-
  FlowHelm.Memory.SummaryContainer — MemoryProvider (src/orchestrator/memory-provider.ts): the
  container in which a memory job's prompt is put to the model.

  Every `summarize` of a user creates its container under one name, after removing what has the
  name, waits until what has the name no longer runs, reads the log of what has the name, and
  removes what has the name. Both memory jobs call it, and neither waits for the other: an event is
  the answer to what a call awaits, or the container printing or coming to its end. A command that
  fails may have done its work (`lost`); `exists` and `isHealthy` answer `false` when theirs fails.

  Left out: the mounts, the limits and the environment of the container, which no result shows.

  - `respond_next`: everything an answer can do (`Next`).
  - `base`: a call's container has its prompt, and is no other call's (`Base`).
-/
import FlowHelm.Lib.Js
import FlowHelm.Lib.Parties
import FlowHelm.Lib.Runs

namespace FlowHelm.Memory.SummaryContainer

open Js Parties Runs

inductive Status where
  | created
  | running
  | exited
  | removed
  deriving DecidableEq

structure Box where
  prompt : String
  status : Status
  printed : String
  deriving DecidableEq

/-- What a call comes to, and whose log it read: its own container's is `own`. -/
structure Outcome where
  prompt : String
  own : Option Nat
  read : Option Nat
  result : Except String String

inductive Phase where
  /-- `exists`, `stop` and `remove` of what an earlier run left. -/
  | looking
  | stopping
  | removing
  | creating
  | starting (box : Nat)
  | polling (box : Nat)
  | reading (box : Nat)
  /-- `cleanup`, with what is returned or thrown behind it. -/
  | cleaning (outcome : Outcome)
  | cleanStop (outcome : Outcome)
  | cleanRemove (outcome : Outcome)

/-- A `summarize` in flight. -/
structure Call where
  prompt : String
  phase : Phase

structure St where
  /-- Every container that was created; its id is its place. -/
  boxes : List Box
  /-- The container that has the name. -/
  named : Option Nat
  calls : List Call
  done : List Outcome

inductive Answer where
  /-- `exists` or `isHealthy`. -/
  | yes
  | no
  /-- A command that works, fails, or fails after its work. -/
  | ok
  | failed
  | lost
  /-- The deadline of `waitForCompletion` has passed. -/
  | late
  deriving DecidableEq

inductive Ev where
  | summarize (content systemPrompt : String)
  | answer (i : Nat) (a : Answer)
  | prints (text : String)
  | exits

/-! ## The provider -/

variable (containerName : String)

def fullPrompt (content systemPrompt : String) : String :=
  if systemPrompt = "" then content else systemPrompt ++ "\n\n" ++ content

def timedOut : String := s!"Memory container {containerName} timed out after 120000ms"

def commandFailed : String := "Command failed"

def status (s : St) : Option Status := (s.named.bind (s.boxes[·]?)).map Box.status

def setStatus (s : St) (status : Status) : St := match s.named with
  | some b => { s with boxes := s.boxes.modify b fun box => { box with status := status } }
  | none => s

/-- `rm -f`: what has the name is removed. -/
def removed (s : St) : St := { setStatus s .removed with named := none }

def created (s : St) (prompt : String) : St :=
  { s with boxes := s.boxes ++ [⟨prompt, .created, ""⟩], named := some s.boxes.length }

/-- `start` takes the id; a container that is removed cannot be started. -/
def started (s : St) (b : Nat) : Option St := match s.boxes[b]? with
  | some box => if box.status = .removed then none else some { s with boxes := s.boxes.set b { box with status := .running } }
  | none => none

def thrown (prompt : String) (own : Option Nat) (message : String) : Outcome := ⟨prompt, own, none, .error message⟩

/-- What an answer makes of the containers and of the call: its next phase, or its outcome. -/
def respond (s : St) (prompt : String) : Phase → Answer → Option (St × (Phase ⊕ Outcome))
  | .looking, .yes => if s.named.isSome then some (s, .inl .stopping) else none
  | .looking, .no => some (s, .inl .creating)
  | .stopping, .ok => some (setStatus s .exited, .inl .removing)
  | .stopping, .failed => some (s, .inl .removing)
  | .removing, .ok => some (removed s, .inl .creating)
  | .removing, .failed => some (s, .inl .creating)
  | .creating, .ok => if s.named = none then some (created s prompt, .inl (.starting s.boxes.length)) else none
  | .creating, .failed => some (s, .inl (.cleaning (thrown prompt none commandFailed)))
  | .creating, .lost =>
    if s.named = none then some (created s prompt, .inl (.cleaning (thrown prompt none commandFailed))) else none
  | .starting b, .ok => (started s b).map fun t => (t, .inl (.polling b))
  | .starting b, .failed => some (s, .inl (.cleaning (thrown prompt (some b) commandFailed)))
  | .starting b, .lost => (started s b).map fun t => (t, .inl (.cleaning (thrown prompt (some b) commandFailed)))
  | .polling b, .yes => if status s = some .running then some (s, .inl (.polling b)) else none
  | .polling b, .no => some (s, .inl (.reading b))
  | .polling b, .late => some (s, .inl (.cleaning (thrown prompt (some b) (timedOut containerName))))
  | .reading b, .ok => match s.named with
    | some j => (s.boxes[j]?).map fun box => (s, .inl (.cleaning ⟨prompt, some b, some j, .ok (trim box.printed)⟩))
    | none => none
  | .reading b, .failed => some (s, .inl (.cleaning (thrown prompt (some b) commandFailed)))
  | .cleaning o, .yes => if s.named.isSome then some (s, .inl (.cleanStop o)) else none
  | .cleaning o, .no => some (s, .inr o)
  | .cleanStop o, .ok => some (setStatus s .exited, .inl (.cleanRemove o))
  | .cleanStop o, .failed => some (s, .inl (.cleanRemove o))
  | .cleanRemove o, .ok => some (removed s, .inr o)
  | .cleanRemove o, .failed => some (s, .inr o)
  | _, _ => none

/-- The `i`th call goes on, or comes to its outcome. -/
def proceed (s : St) (i : Nat) (call : Call) : Phase ⊕ Outcome → St
  | .inl phase => { s with calls := put s.calls i (some { call with phase := phase }) }
  | .inr outcome => { s with calls := put s.calls i none, done := s.done ++ [outcome] }

def step (s : St) : Ev → Option St
  | .summarize content systemPrompt => some { s with calls := s.calls ++ [⟨fullPrompt content systemPrompt, .looking⟩] }
  | .answer i a => match s.calls[i]? with
    | some call => (respond containerName s call.prompt call.phase a).map fun (t, next) => proceed t i call next
    | none => none
  | .prints text => match s.named with
    | some b => if status s = some .running then
        some { s with boxes := s.boxes.modify b fun box => { box with printed := box.printed ++ text } }
      else none
    | none => none
  | .exits => if status s = some .running then some (setStatus s .exited) else none

/-- An earlier process may have left a container. -/
def provider (left : Option Box) : System St Ev := ⟨⟨left.toList, left.map fun _ => 0, [], []⟩, step containerName⟩

/-! ## Whose container a call has -/

/-- The container whose log the call is going to read. -/
def Phase.awaits : Phase → Option Nat
  | .starting b | .polling b | .reading b => some b
  | _ => none

/-- What the call returns or throws once it has cleaned up. -/
def Phase.carries : Phase → Option Outcome
  | .cleaning o | .cleanStop o | .cleanRemove o => some o
  | _ => none

/-- The container the call has created. -/
def Phase.owner : Phase → Option Nat
  | .starting b | .polling b | .reading b => some b
  | .cleaning o | .cleanStop o | .cleanRemove o => o.own
  | _ => none

def awaited : Phase ⊕ Outcome → Option Nat
  | .inl phase => phase.awaits
  | .inr _ => none

def carried : Phase ⊕ Outcome → Option Outcome
  | .inl phase => phase.carries
  | .inr o => some o

def ownerOf : Phase ⊕ Outcome → Option Nat
  | .inl phase => phase.owner
  | .inr o => o.own

/-- A removal: of what an earlier run left, or of what the call itself created. -/
def Phase.removes : Phase → Bool
  | .removing | .cleanRemove _ => true
  | _ => false

/-! ## What an event does -/

/-- Of a container only the status changes, and what it has printed grows. -/
def Later (box box' : Box) : Prop := box'.prompt = box.prompt ∧ ∃ rest, box'.printed = box.printed ++ rest

def Grows (boxes boxes' : List Box) : Prop :=
  ∀ (b : Nat) (box : Box), boxes[b]? = some box → ∃ box', boxes'[b]? = some box' ∧ Later box box'

theorem Later.refl (box : Box) : Later box box := ⟨rfl, "", by simp⟩

theorem Later.trans {a b c : Box} (hab : Later a b) (hbc : Later b c) : Later a c := by
  obtain ⟨hp, rest, hr⟩ := hab
  obtain ⟨hp', rest', hr'⟩ := hbc
  exact ⟨hp'.trans hp, rest ++ rest', by rw [hr', hr, String.append_assoc]⟩

theorem Grows.refl (boxes : List Box) : Grows boxes boxes := fun _ box h => ⟨box, h, Later.refl box⟩

theorem grows_modify {boxes : List Box} {f : Box → Box} (hf : ∀ box, Later box (f box)) (b : Nat) :
    Grows boxes (boxes.modify b f) := by
  intro c box h
  by_cases hbc : b = c
  · subst hbc
    exact ⟨f box, by simp [h], hf box⟩
  · exact ⟨box, by simp [hbc, h], Later.refl box⟩

theorem grows_set {boxes : List Box} {b : Nat} {box box' : Box} (hb : boxes[b]? = some box) (h : Later box box') :
    Grows boxes (boxes.set b box') := by
  obtain ⟨hlt, -⟩ := List.getElem?_eq_some_iff.mp hb
  intro c other hc
  by_cases hbc : b = c
  · subst hbc
    obtain rfl := Option.some.inj (hb.symm.trans hc)
    exact ⟨box', List.getElem?_set_self hlt, h⟩
  · exact ⟨other, (List.getElem?_set_ne hbc).trans hc, Later.refl other⟩

theorem grows_concat (boxes : List Box) (box : Box) : Grows boxes (boxes ++ [box]) := by
  intro c other hc
  obtain ⟨hlt, -⟩ := List.getElem?_eq_some_iff.mp hc
  exact ⟨other, (List.getElem?_append_left hlt).trans hc, Later.refl other⟩

theorem grows_setStatus (s : St) (status : Status) : Grows s.boxes (setStatus s status).boxes := by
  unfold setStatus
  split
  · exact grows_modify (f := fun box => { box with status := status }) (fun box => ⟨rfl, "", by simp⟩) _
  · exact Grows.refl _

theorem setStatus_named (s : St) (status : Status) : (setStatus s status).named = s.named := by
  unfold setStatus
  split <;> rfl

theorem setStatus_length (s : St) (status : Status) : (setStatus s status).boxes.length = s.boxes.length := by
  unfold setStatus
  split
  · simp
  · rfl

theorem setStatus_calls (s : St) (status : Status) :
    (setStatus s status).calls = s.calls ∧ (setStatus s status).done = s.done := by
  unfold setStatus
  split <;> exact ⟨rfl, rfl⟩

/-- What one answer does: the call's container, and which has the name, change only where the call
    removes or creates one. -/
inductive Next (s : St) (prompt : String) (phase : Phase) (a : Answer) : St → Phase ⊕ Outcome → Prop
  | goes {t : St} {next : Phase ⊕ Outcome} (named : t.named = s.named) (length : t.boxes.length = s.boxes.length)
      (grows : Grows s.boxes t.boxes) (awaits : ∀ b, awaited next = some b → phase.awaits = some b)
      (owner : ownerOf next = phase.owner)
      (carries : ∀ o, carried next = some o → phase.carries = some o ∨ (o.read = none ∧ ∃ message, o.result = .error message)) :
      Next s prompt phase a t next
  | removes {next : Phase ⊕ Outcome} (works : a = .ok) (removes : phase.removes = true) (awaits : awaited next = none)
      (owner : ownerOf next = phase.owner) (carries : carried next = phase.carries) : Next s prompt phase a (removed s) next
  | creates {next : Phase ⊕ Outcome} (free : s.named = none) (creating : phase = .creating)
      (goes : next = .inl (.starting s.boxes.length) ∨ next = .inl (.cleaning (thrown prompt none commandFailed))) :
      Next s prompt phase a (created s prompt) next
  | reads {b j : Nat} {box : Box} (reading : phase = .reading b) (named : s.named = some j) (found : s.boxes[j]? = some box) :
      Next s prompt phase a s (.inl (.cleaning ⟨prompt, some b, some j, .ok (trim box.printed)⟩))

variable {containerName : String}

section

variable {s t : St} {prompt : String} {phase : Phase} {a : Answer} {next : Phase ⊕ Outcome} {b : Nat}

theorem goes_on (awaits : ∀ b, awaited next = some b → phase.awaits = some b) (owner : ownerOf next = phase.owner)
    (carries : ∀ o, carried next = some o → phase.carries = some o ∨ (o.read = none ∧ ∃ message, o.result = .error message)) :
    Next s prompt phase a s next :=
  .goes rfl rfl (Grows.refl _) awaits owner carries

theorem goes_exited (awaits : ∀ b, awaited next = some b → phase.awaits = some b) (owner : ownerOf next = phase.owner)
    (carries : ∀ o, carried next = some o → phase.carries = some o ∨ (o.read = none ∧ ∃ message, o.result = .error message)) :
    Next s prompt phase a (setStatus s .exited) next :=
  .goes (setStatus_named ..) (setStatus_length ..) (grows_setStatus s .exited) awaits owner carries

theorem goes_thrown {own : Option Nat} {message : String} (owner : own = phase.owner) :
    Next s prompt phase a s (.inl (.cleaning (thrown prompt own message))) := by
  refine goes_on nofun owner ?_
  intro o ho
  cases ho
  exact Or.inr ⟨rfl, message, rfl⟩

/-- Only a container that is there is started. -/
theorem started_eq (h : started s b = some t) :
    ∃ box, s.boxes[b]? = some box ∧ t = { s with boxes := s.boxes.set b { box with status := .running } } := by
  unfold started at h
  split at h
  · rename_i box hbox
    split at h <;> cases h
    exact ⟨box, hbox, rfl⟩
  · cases h

theorem goes_started (h : started s b = some t) (owner : ownerOf next = phase.owner)
    (awaits : ∀ b, awaited next = some b → phase.awaits = some b)
    (carries : ∀ o, carried next = some o → phase.carries = some o ∨ (o.read = none ∧ ∃ message, o.result = .error message)) :
    Next s prompt phase a t next ∧ t.calls = s.calls ∧ t.done = s.done := by
  obtain ⟨box, hbox, rfl⟩ := started_eq h
  exact ⟨.goes rfl (List.length_set ..) (grows_set hbox ⟨rfl, "", by simp⟩) awaits owner carries, rfl, rfl⟩

theorem respond_next (h : respond containerName s prompt phase a = some (t, next)) :
    Next s prompt phase a t next ∧ t.calls = s.calls ∧ t.done = s.done := by
  have hremoved : (removed s).calls = s.calls ∧ (removed s).done = s.done := setStatus_calls s .removed
  have hexited := setStatus_calls s .exited
  cases phase with
  | looking =>
    cases a with
    | yes =>
      simp only [respond] at h
      split at h <;> cases h
      exact ⟨goes_on nofun rfl nofun, rfl, rfl⟩
    | no =>
      cases h
      exact ⟨goes_on nofun rfl nofun, rfl, rfl⟩
    | ok | failed | lost | late => cases h
  | stopping =>
    cases a with
    | ok =>
      cases h
      exact ⟨goes_exited nofun rfl nofun, hexited⟩
    | failed =>
      cases h
      exact ⟨goes_on nofun rfl nofun, rfl, rfl⟩
    | yes | no | lost | late => cases h
  | removing =>
    cases a with
    | ok =>
      cases h
      exact ⟨.removes rfl rfl rfl rfl rfl, hremoved⟩
    | failed =>
      cases h
      exact ⟨goes_on nofun rfl nofun, rfl, rfl⟩
    | yes | no | lost | late => cases h
  | creating =>
    cases a with
    | ok =>
      simp only [respond] at h
      split at h <;> cases h
      rename_i hfree
      exact ⟨.creates hfree rfl (Or.inl rfl), rfl, rfl⟩
    | failed =>
      cases h
      exact ⟨goes_thrown rfl, rfl, rfl⟩
    | lost =>
      simp only [respond] at h
      split at h <;> cases h
      rename_i hfree
      exact ⟨.creates hfree rfl (Or.inr rfl), rfl, rfl⟩
    | yes | no | late => cases h
  | starting b =>
    cases a with
    | ok =>
      obtain ⟨u, hu, hout⟩ := Option.map_eq_some_iff.mp h
      cases hout
      exact goes_started hu rfl (fun _ => id) nofun
    | failed =>
      cases h
      exact ⟨goes_thrown rfl, rfl, rfl⟩
    | lost =>
      obtain ⟨u, hu, hout⟩ := Option.map_eq_some_iff.mp h
      cases hout
      refine goes_started hu rfl nofun ?_
      intro o ho
      cases ho
      exact Or.inr ⟨rfl, _, rfl⟩
    | yes | no | late => cases h
  | polling b =>
    cases a with
    | yes =>
      simp only [respond] at h
      split at h <;> cases h
      exact ⟨goes_on (fun _ => id) rfl nofun, rfl, rfl⟩
    | no =>
      cases h
      exact ⟨goes_on (fun _ => id) rfl nofun, rfl, rfl⟩
    | late =>
      cases h
      exact ⟨goes_thrown rfl, rfl, rfl⟩
    | ok | failed | lost => cases h
  | reading b =>
    cases a with
    | ok =>
      simp only [respond] at h
      split at h
      · rename_i j hj
        obtain ⟨box, hbox, hout⟩ := Option.map_eq_some_iff.mp h
        cases hout
        exact ⟨.reads rfl hj hbox, rfl, rfl⟩
      · cases h
    | failed =>
      cases h
      exact ⟨goes_thrown rfl, rfl, rfl⟩
    | yes | no | lost | late => cases h
  | cleaning o =>
    cases a with
    | yes =>
      simp only [respond] at h
      split at h <;> cases h
      exact ⟨goes_on nofun rfl fun _ => Or.inl, rfl, rfl⟩
    | no =>
      cases h
      exact ⟨goes_on nofun rfl fun _ => Or.inl, rfl, rfl⟩
    | ok | failed | lost | late => cases h
  | cleanStop o =>
    cases a with
    | ok =>
      cases h
      exact ⟨goes_exited nofun rfl fun _ => Or.inl, hexited⟩
    | failed =>
      cases h
      exact ⟨goes_on nofun rfl fun _ => Or.inl, rfl, rfl⟩
    | yes | no | lost | late => cases h
  | cleanRemove o =>
    cases a with
    | ok =>
      cases h
      exact ⟨.removes rfl rfl rfl rfl rfl, hremoved⟩
    | failed =>
      cases h
      exact ⟨goes_on nofun rfl fun _ => Or.inl, rfl, rfl⟩
    | yes | no | lost | late => cases h

end

/-- The event is the answer to a call. -/
theorem step_answer {s t : St} {i : Nat} {a : Answer} (h : step containerName s (.answer i a) = some t) :
    ∃ call u next, s.calls[i]? = some call ∧ respond containerName s call.prompt call.phase a = some (u, next) ∧
      t = proceed u i call next := by
  simp only [step] at h
  split at h
  · rename_i call hi
    obtain ⟨⟨u, next⟩, hu, rfl⟩ := Option.map_eq_some_iff.mp h
    exact ⟨call, u, next, hi, hu, rfl⟩
  · cases h

/-- Or it is the container's. -/
theorem step_prints {s t : St} {text : String} (h : step containerName s (.prints text) = some t) :
    Grows s.boxes t.boxes ∧ t.named = s.named ∧ t.boxes.length = s.boxes.length ∧ t.calls = s.calls ∧ t.done = s.done := by
  simp only [step] at h
  split at h
  · rename_i b hb
    split at h <;> cases h
    have hlater : ∀ box : Box, Later box { box with printed := box.printed ++ text } := fun _ => ⟨rfl, text, rfl⟩
    refine ⟨grows_modify hlater _, rfl, ?_, rfl, rfl⟩
    simp
  · cases h

theorem step_exits {s t : St} (h : step containerName s .exits = some t) :
    Grows s.boxes t.boxes ∧ t.named = s.named ∧ t.boxes.length = s.boxes.length ∧ t.calls = s.calls ∧ t.done = s.done := by
  simp only [step] at h
  split at h <;> cases h
  have hcalls := setStatus_calls s .exited
  exact ⟨grows_setStatus s .exited, setStatus_named .., setStatus_length .., hcalls.1, hcalls.2⟩

theorem proceed_boxes (s : St) (i : Nat) (call : Call) (next : Phase ⊕ Outcome) :
    (proceed s i call next).boxes = s.boxes ∧ (proceed s i call next).named = s.named := by
  cases next <;> exact ⟨rfl, rfl⟩

/-- Who is in flight behind it: the others, and the call where it goes on. -/
theorem mem_proceed {s : St} {i : Nat} {call x : Call} {next : Phase ⊕ Outcome} (hi : s.calls[i]? = some call)
    (hx : x ∈ (proceed s i call next).calls) : (∃ phase, next = .inl phase ∧ x = { call with phase := phase }) ∨ x ∈ s.calls := by
  obtain ⟨pre, post, hl, hput⟩ := put_splits hi
  cases next with
  | inl phase =>
    simp only [proceed, hput] at hx
    exact (mem_moved hl hx).imp (fun h => ⟨phase, rfl, h⟩) id
  | inr outcome =>
    simp only [proceed, hput] at hx
    exact Or.inr (mem_others hl hx)

/-! ## Containers and calls -/

/-- How many calls, in flight or done, have created the container. -/
def creators (s : St) (b : Nat) : Nat :=
  (s.calls.map fun call => call.phase.owner).count (some b) + (s.done.map Outcome.own).count (some b)

theorem creators_proceed {s : St} {i : Nat} {call : Call} (next : Phase ⊕ Outcome) (hi : s.calls[i]? = some call) (b : Nat) :
    creators (proceed s i call next) b + [call.phase.owner].count (some b) = creators s b + [ownerOf next].count (some b) := by
  have hcount := fun o => count_put (fun call : Call => call.phase.owner) hi o (some b)
  cases next with
  | inl phase =>
    have h := hcount (some { call with phase := phase })
    simp only [creators, proceed, ownerOf] at h ⊢
    simp only [Option.toList, List.map_cons, List.map_nil] at h
    omega
  | inr outcome =>
    have h := hcount none
    simp only [creators, proceed, ownerOf, List.map_append, List.count_append, List.map_cons, List.map_nil] at h ⊢
    simp only [Option.toList, List.map_nil, List.count_nil] at h
    omega

/-- The name is a container's that was created, a call's container has its prompt, and is the
    container of no other call. -/
structure Base (s : St) : Prop where
  fresh : ∀ b, s.named = some b → b < s.boxes.length
  made : ∀ call ∈ s.calls, ∀ b, call.phase.awaits = some b → ∃ box : Box, s.boxes[b]? = some box ∧ box.prompt = call.prompt
  one : ∀ b, creators s b ≤ if b < s.boxes.length then 1 else 0

theorem owner_of_awaits {phase : Phase} {b : Nat} (h : phase.awaits = some b) : phase.owner = some b := by
  cases phase with
  | starting b | polling b | reading b => exact h
  | _ => cases h

theorem Base.grown {s t : St} (hs : Base s) (grows : Grows s.boxes t.boxes) (named : ∀ b, t.named = some b → s.named = some b)
    (length : t.boxes.length = s.boxes.length) (calls : t.calls = s.calls) (done : t.done = s.done) : Base t where
  fresh b hb := length ▸ hs.fresh b (named b hb)
  made call hcall b hb := by
    obtain ⟨box, hbox, hprompt⟩ := hs.made call (calls ▸ hcall) b hb
    obtain ⟨box', hbox', hlater, -⟩ := grows b box hbox
    exact ⟨box', hbox', hlater.trans hprompt⟩
  one b := by
    unfold creators
    rw [calls, done, length]
    exact hs.one b

theorem Base.proceed {s : St} {i : Nat} {call : Call} {next : Phase ⊕ Outcome} (hs : Base s) (hi : s.calls[i]? = some call)
    (awaits : ∀ b, awaited next = some b → call.phase.awaits = some b) (owner : ownerOf next = call.phase.owner) :
    Base (proceed s i call next) := by
  obtain ⟨hboxes, hnamed⟩ := proceed_boxes s i call next
  refine ⟨?_, ?_, ?_⟩
  · rw [hboxes, hnamed]
    exact hs.fresh
  · intro x hx b hb
    rw [hboxes]
    rcases mem_proceed hi hx with ⟨phase, rfl, rfl⟩ | hx
    · exact hs.made call (List.mem_of_getElem? hi) b (awaits b hb)
    · exact hs.made x hx b hb
  · intro b
    have hcreators := creators_proceed next hi b
    rw [owner] at hcreators
    have := hs.one b
    rw [hboxes]
    omega

/-- A container that is created has no creator yet. -/
theorem Base.created {s : St} {i : Nat} {call : Call} {next : Phase ⊕ Outcome} (hs : Base s) (hi : s.calls[i]? = some call)
    (hcreating : call.phase = .creating)
    (hto : next = .inl (.starting s.boxes.length) ∨ next = .inl (.cleaning (thrown call.prompt none commandFailed))) :
    Base (SummaryContainer.proceed (created s call.prompt) i call next) := by
  obtain ⟨hboxes, hnamed⟩ := proceed_boxes (SummaryContainer.created s call.prompt) i call next
  have hlength : (SummaryContainer.created s call.prompt).boxes.length = s.boxes.length + 1 := by simp [SummaryContainer.created]
  refine ⟨?_, ?_, ?_⟩
  · rw [hboxes, hnamed, hlength]
    intro b hb
    cases hb
    omega
  · intro x hx b hb
    rw [hboxes]
    rcases mem_proceed (s := SummaryContainer.created s call.prompt) hi hx with ⟨phase, rfl, rfl⟩ | hx
    · rcases hto with hto | hto
      · cases hto
        cases hb
        exact ⟨⟨call.prompt, .created, ""⟩, by simp [SummaryContainer.created], rfl⟩
      · cases hto
        cases hb
    · obtain ⟨box, hbox, hprompt⟩ := hs.made x hx b hb
      obtain ⟨box', hbox', hlater, -⟩ := grows_concat s.boxes ⟨call.prompt, .created, ""⟩ b box hbox
      exact ⟨box', hbox', hlater.trans hprompt⟩
  · intro b
    have hcreators := creators_proceed (s := SummaryContainer.created s call.prompt) next hi b
    have hsame : creators (SummaryContainer.created s call.prompt) b = creators s b := rfl
    have hone := hs.one b
    rw [hboxes, hlength]
    rw [hsame, hcreating] at hcreators
    have howner : ownerOf next = some s.boxes.length ∨ ownerOf next = none := by
      rcases hto with rfl | rfl
      · exact Or.inl rfl
      · exact Or.inr rfl
    have hcount : [ownerOf next].count (some b) ≤ if b = s.boxes.length then 1 else 0 := by
      rcases howner with howner | howner
      · rw [howner]
        by_cases hb : b = s.boxes.length
        · subst hb
          simp
        · have hne : ¬s.boxes.length = b := fun h => hb h.symm
          simp [hne]
      · rw [howner]
        simp
    by_cases hb : b < s.boxes.length
    · rw [if_pos hb] at hone
      rw [if_neg (by omega)] at hcount
      rw [if_pos (by omega)]
      omega
    · rw [if_neg hb] at hone
      split at hcount
      · rw [if_pos (by omega)]
        omega
      · omega

theorem base_step {s t : St} {e : Ev} (hs : Base s) (h : step containerName s e = some t) : Base t := by
  cases e with
  | summarize content systemPrompt =>
    cases h
    refine ⟨hs.fresh, ?_, ?_⟩
    · intro call hcall b hb
      rcases List.mem_append.mp hcall with hcall | hcall
      · exact hs.made call hcall b hb
      · obtain rfl := List.mem_singleton.mp hcall
        cases hb
    · intro b
      have hone := hs.one b
      simpa [creators, Phase.owner] using hone
  | answer i a =>
    obtain ⟨call, u, next, hi, hu, rfl⟩ := step_answer h
    obtain ⟨hnext, hcalls, hdone⟩ := respond_next hu
    cases hnext with
    | goes named length grows awaits owner carries =>
      exact (hs.grown grows (fun b hb => named ▸ hb) length hcalls hdone).proceed (hcalls ▸ hi) awaits owner
    | removes works removes awaits owner carries =>
      have hremoved : Base (removed s) := hs.grown (grows_setStatus s .removed) nofun (setStatus_length ..) hcalls hdone
      refine hremoved.proceed (hcalls ▸ hi) ?_ owner
      intro b hb
      cases awaits.symm.trans hb
    | creates free creating goes => exact hs.created hi creating goes
    | reads reading named found => exact hs.proceed hi nofun (by rw [reading]; rfl)
  | prints text =>
    obtain ⟨hgrows, hnamed, hlength, hcalls, hdone⟩ := step_prints h
    exact hs.grown hgrows (fun b hb => hnamed ▸ hb) hlength hcalls hdone
  | exits =>
    obtain ⟨hgrows, hnamed, hlength, hcalls, hdone⟩ := step_exits h
    exact hs.grown hgrows (fun b hb => hnamed ▸ hb) hlength hcalls hdone

variable {left : Option Box} {C : St → Ev → Prop}

theorem base_init : Base (provider containerName left).init where
  fresh b hb := by
    cases left with
    | none => cases hb
    | some box =>
      cases hb
      exact Nat.zero_lt_one
  made call hcall := nomatch hcall
  one _ := Nat.zero_le _

theorem base {s : St} (h : Reach (provider containerName left) C s) : Base s :=
  h.inv base_init fun _ _ _ _ hs _ he => base_step hs he

end FlowHelm.Memory.SummaryContainer
