/-
  FlowHelm.Identity.AgentEdits — channel-commands.ts: two `/identity set agent` commands at once.

  A command reads the identity and merges its fields into what it read; `setAgentIdentity` then
  reads again, for whether there is a row, and updates all four columns. The profile both chats
  resolve to is the same and is left out, as is the identity's id.

  - `Kept`: the columns that a command named are its, the others as they were.
  - `edits_keep`: so it is when both have answered, just if the one that writes second finds the
    columns it does not name as it had read them.
  - `an_edit_is_undone`: both read before either writes.
-/
import FlowHelm.Identity.KeyValuePairs
import FlowHelm.Lib.Commits

namespace FlowHelm.Identity

open Js Runs Commits

/-- The columns of `agent_identity` that a command sets; its role and tone are given. -/
structure AgentIdentity where
  role : JsString
  tone : JsString
  expertise : List JsString
  instructions : Option JsString
  role_ne : role ≠ []
  tone_ne : tone ≠ []
  deriving DecidableEq

structure AgentRow extends AgentIdentity where
  createdAt : Nat
  updatedAt : Nat
  deriving DecidableEq

/-! ## A command -/

/-- `fields[name]`. -/
def Fields.get (fields : Fields) (name : String) : Option JsString := (fields.find? fun f => f.1 == ofString name).map (·.2)

/-- `split(',').map((s) => s.trim()).filter(Boolean)`. -/
def listOf (text : JsString) : List JsString := ((text.splitOn comma).map trimEnds).filter (· != [])

/-- Merged with what there is; `none` where role or tone are missing. -/
def merge (fields : Fields) (existing : Option AgentRow) : Option AgentIdentity :=
  let role := ((fields.get "role").or (existing.map (·.role))).getD []
  let tone := ((fields.get "tone").or (existing.map (·.tone))).getD []
  let kept := (existing.map (·.expertise)).getD []
  let expertise := match fields.get "expertise" with
    | some text => if text = [] then kept else listOf text
    | none => kept
  let instructions := (fields.get "instructions").or (existing.bind (·.instructions))
  if h : role ≠ [] ∧ tone ≠ [] then some ⟨role, tone, expertise, instructions, h.1, h.2⟩ else none

/-- The UPDATE or INSERT, by whether the second SELECT found a row. -/
def setAgentIdentity (identity : AgentIdentity) (now : Nat) (existing row : Option AgentRow) :
    Option AgentRow × Except String AgentRow :=
  match existing, row with
  | some _, some r => (some ⟨identity, r.createdAt, now⟩, .ok ⟨identity, r.createdAt, now⟩)
  | some _, none => (none, .error "rows[0] is undefined")
  | none, some r => (some r, .error "duplicate key value violates unique constraint")
  | none, none => (some ⟨identity, now, now⟩, .ok ⟨identity, now, now⟩)

def usage : String := "Usage: /identity set agent role=Executive assistant\nFields: role, tone, expertise, instructions"

def bothRequired : String :=
  "Both role and tone are required when creating agent identity.\nExample: /identity set agent role=Assistant, tone=Professional"

/-- A command with fields; one with an empty value, such as `tone=,`, is left out. -/
structure Edit where
  fields : Fields
  now : Nat
  fields_ne : fields ≠ []
  values_ne : ∀ f ∈ fields, f.2 ≠ []
  deriving DecidableEq

def identitySetAgent (e : Edit) (existing again row : Option AgentRow) : Option AgentRow × Except String String :=
  if e.fields = [] then (row, .ok usage)
  else match merge e.fields existing with
    | none => (row, .ok bothRequired)
    | some identity =>
      let w := setAgentIdentity identity e.now again row
      (w.1, w.2.map fun _ => "Agent identity updated.")

/-- The commands on the identity `row`. -/
def editing (row : AgentRow) : Cell (Option AgentRow) Edit (Except String String) where
  init := some row
  reads _ := 2
  commit e seen row := identitySetAgent e (seen[0]?.join) (seen[1]?.join) row

/-! ## Columns -/

/-- What a command gives each column, `none` where it does not name it. -/
structure Named where
  role : Option JsString
  tone : Option JsString
  expertise : Option (List JsString)
  instructions : Option (Option JsString)

def Edit.named (e : Edit) : Named :=
  ⟨e.fields.get "role", e.fields.get "tone", (e.fields.get "expertise").map listOf, (e.fields.get "instructions").map some⟩

/-- They name no column both. -/
structure Disjoint (a b : Named) : Prop where
  role : a.role = none ∨ b.role = none
  tone : a.tone = none ∨ b.tone = none
  expertise : a.expertise = none ∨ b.expertise = none
  instructions : a.instructions = none ∨ b.instructions = none

def Named.or (a b : Named) : Named :=
  ⟨a.role.or b.role, a.tone.or b.tone, a.expertise.or b.expertise, a.instructions.or b.instructions⟩

/-- The named columns are as named, the others as in `old`. -/
structure Over (n : Named) (old r : AgentIdentity) : Prop where
  role : r.role = n.role.getD old.role
  tone : r.tone = n.tone.getD old.tone
  expertise : r.expertise = n.expertise.getD old.expertise
  instructions : r.instructions = n.instructions.getD old.instructions

/-- Each column that `a` or `b` names has its new value, and each other its old one. -/
def Kept (old : AgentIdentity) (a b : Edit) (row : Option AgentRow) : Prop :=
  ∃ r ∈ row, Over (a.named.or b.named) old r.toAgentIdentity

/-- The columns that are not named are the same. -/
structure Unmoved (n : Named) (existing r : AgentIdentity) : Prop where
  role : n.role = none → existing.role = r.role
  tone : n.tone = none → existing.tone = r.tone
  expertise : n.expertise = none → existing.expertise = r.expertise
  instructions : n.instructions = none → existing.instructions = r.instructions

/-- A command that writes finds the columns it does not name as its first SELECT read them. -/
def InPlace (p : Pending (Option AgentRow) Edit) (row : Option AgentRow) : Prop :=
  ∀ e ∈ p.seen[0]?.join, ∀ r ∈ row, Unmoved p.op.named e.toAgentIdentity r.toAgentIdentity

/-- One column: `a` has written it over `old`, then `b` over what it read. -/
theorem column_kept {α : Type} {a b : Option α} (hd : a = none ∨ b = none) {old seen found new : α} (hfound : found = a.getD old)
    (hnew : new = b.getD seen) : new = (a.or b).getD old ↔ (b = none → seen = found) := by
  subst hfound hnew
  cases b with
  | none => simp
  | some y =>
    obtain rfl : a = none := hd.resolve_right (by simp)
    simp

theorem over_kept {a b : Named} (hd : Disjoint a b) {old seen found new : AgentIdentity} (hfound : Over a old found)
    (hnew : Over b seen new) : Over (a.or b) old new ↔ Unmoved b seen found := by
  have hrole := column_kept hd.role hfound.role hnew.role
  have htone := column_kept hd.tone hfound.tone hnew.tone
  have hexpertise := column_kept hd.expertise hfound.expertise hnew.expertise
  have hinstructions := column_kept hd.instructions hfound.instructions hnew.instructions
  constructor
  · intro h
    exact ⟨hrole.mp h.role, htone.mp h.tone, hexpertise.mp h.expertise, hinstructions.mp h.instructions⟩
  · intro h
    exact ⟨hrole.mpr h.role, htone.mpr h.tone, hexpertise.mpr h.expertise, hinstructions.mpr h.instructions⟩

/-! ## Writing -/

theorem Edit.get_ne (e : Edit) {name : String} {value : JsString} (h : e.fields.get name = some value) : value ≠ [] := by
  obtain ⟨f, hf, rfl⟩ := Option.map_eq_some_iff.mp h
  exact e.values_ne f (List.mem_of_find?_eq_some hf)

theorem getD_or_some {α : Type} (x : Option α) (y z : α) : (x.or (some y)).getD z = x.getD y := by cases x <;> rfl

/-- Over a row that there is, nothing is missing. -/
theorem merge_some (e : Edit) (existing : AgentRow) :
    ∃ identity, merge e.fields (some existing) = some identity ∧ Over e.named existing.toAgentIdentity identity := by
  have hgiven : ∀ {name : String} {old : JsString}, old ≠ [] → ((e.fields.get name).or (some old)).getD [] ≠ [] := by
    intro name old hold
    cases hget : e.fields.get name with
    | none => exact hold
    | some value => exact e.get_ne hget
  have hboth : ((e.fields.get "role").or (some existing.role)).getD [] ≠ [] ∧
      ((e.fields.get "tone").or (some existing.tone)).getD [] ≠ [] := ⟨hgiven existing.role_ne, hgiven existing.tone_ne⟩
  refine ⟨_, dif_pos hboth, ?_, ?_, ?_, ?_⟩
  · exact getD_or_some _ _ _
  · exact getD_or_some _ _ _
  · cases hget : e.fields.get "expertise" with
    | none => simp [Edit.named, hget]
    | some value => simp [Edit.named, hget, e.get_ne hget]
  · cases hget : e.fields.get "instructions" <;> simp [Edit.named, hget]

/-- A command that read rows writes its columns over the first, into the row it finds. -/
theorem identitySetAgent_some (e : Edit) (existing again row : AgentRow) :
    ∃ r, (identitySetAgent e (some existing) (some again) (some row)).1 = some r ∧
      Over e.named existing.toAgentIdentity r.toAgentIdentity := by
  obtain ⟨identity, hmerge, hover⟩ := merge_some e existing
  refine ⟨⟨identity, row.createdAt, e.now⟩, ?_, hover⟩
  simp only [identitySetAgent, if_neg e.fields_ne, hmerge, setAgentIdentity]

/-! ## Runs -/

variable {old : AgentRow}

abbrev Edits := St (Option AgentRow) Edit (Except String String)

/-- The row is there, and was whenever it was read. -/
def Present (s : Edits) : Prop := s.value.isSome = true ∧ ∀ p ∈ s.pending, ∀ v ∈ p.seen, v.isSome = true

/-- What a command that is about to write has read. -/
theorem seen_two {p : Pending (Option AgentRow) Edit} (hlength : p.seen.length = 2) (hseen : ∀ v ∈ p.seen, v.isSome = true) :
    ∃ existing again, p.seen = [some existing, some again] := by
  obtain ⟨x, y, hxy⟩ := List.length_eq_two.mp hlength
  rw [hxy] at hseen
  obtain ⟨existing, rfl⟩ := Option.isSome_iff_exists.mp (hseen x (by simp))
  obtain ⟨again, rfl⟩ := Option.isSome_iff_exists.mp (hseen y (by simp))
  exact ⟨existing, again, hxy⟩

theorem step_present {s t : Edits} {e : Ev Edit} (h : Present s) (hs : (editing old).step s e = some t) : Present t := by
  obtain ⟨hvalue, hseen⟩ := h
  rcases Cell.step_cases hs with ⟨hsame, -, -, hpending⟩ | ⟨i, p, rfl, hp, hread, rfl⟩
  · exact ⟨hsame ▸ hvalue, Cell.all_seen (P := (·.isSome = true)) hvalue hseen hpending⟩
  · obtain ⟨row, hrow⟩ := Option.isSome_iff_exists.mp hvalue
    obtain ⟨existing, again, htwo⟩ := seen_two hread (hseen p (List.mem_of_getElem? hp))
    refine ⟨?_, fun q hq => hseen q (List.mem_of_mem_eraseIdx hq)⟩
    obtain ⟨r, hr, -⟩ := identitySetAgent_some p.op existing again row
    show (identitySetAgent p.op (p.seen[0]?.join) (p.seen[1]?.join) s.value).1.isSome = true
    rw [htwo, hrow]
    exact hr ▸ rfl

theorem reach_present {s : Edits} (h : Reach (editing old).system Free s) : Present s := by
  refine h.inv (I := Present) ⟨rfl, List.forall_mem_nil _⟩ fun s e t _ hs _ hst => ?_
  exact step_present hs hst

/-- After `a` alone has answered `b` does: each has kept the other's columns just if `b` finds
    those it does not name as it had read them. -/
theorem edits_keep {a b : Edit} (hd : Disjoint a.named b.named) {s t : Edits} {result : Except String String} {i : Nat}
    {p : Pending (Option AgentRow) Edit} (hs : Reach (editing old).system Free s) (ha : s.log = [(a, result)])
    (hp : s.pending[i]? = some p) (hb : p.op = b) (ht : (editing old).step s (.write i) = some t) :
    Kept old.toAgentIdentity a b t.value ↔ InPlace p s.value := by
  obtain ⟨hvalue, hseen⟩ := reach_present hs
  -- `a` wrote over the first row
  have hfirst := congrArg Prod.fst ((Cell.first_alone hs).2 a result ha)
  obtain ⟨found, hfound, hover⟩ := identitySetAgent_some a old old old
  have hrow : s.value = some found := hfirst.trans hfound
  rcases Cell.step_cases ht with ⟨-, -, hwrite, -⟩ | ⟨j, q, hj, hq, hread, rfl⟩
  · exact absurd rfl (hwrite i)
  · cases hj
    obtain rfl := Option.some.inj (hp.symm.trans hq)
    subst hb
    obtain ⟨existing, again, htwo⟩ := seen_two hread (hseen p (List.mem_of_getElem? hp))
    obtain ⟨r, hr, hnew⟩ := identitySetAgent_some p.op existing again found
    show (∃ r ∈ (identitySetAgent p.op (p.seen[0]?.join) (p.seen[1]?.join) s.value).1, _) ↔ _
    rw [InPlace, htwo, hrow]
    show (∃ r ∈ (identitySetAgent p.op (some existing) (some again) (some found)).1, _) ↔ _
    rw [hr]
    simpa using over_kept hd hover hnew

def assistant : AgentRow where
  role := ofString "assistant"
  tone := ofString "warm"
  expertise := []
  instructions := none
  role_ne := by decide
  tone_ne := by decide
  createdAt := 0
  updatedAt := 0

def setTone : Edit where
  fields := [(ofString "tone", ofString "dry")]
  now := 1
  fields_ne := by decide
  values_ne := by decide

def setRole : Edit where
  fields := [(ofString "role", ofString "editor"), (ofString "expertise", ofString "law, tax")]
  now := 2
  fields_ne := by decide
  values_ne := by decide

theorem tone_and_role_disjoint : Disjoint setTone.named setRole.named :=
  ⟨.inl (by decide), .inr (by decide), .inl (by decide), .inl (by decide)⟩

def dryAssistant : AgentRow := { assistant with tone := ofString "dry", tone_ne := by decide, updatedAt := 1 }

/-- The tone is set, and the other command has read `seen` both times. -/
def toneSet (seen : AgentRow) : Edits :=
  ⟨some dryAssistant, [⟨setRole, [some seen, some seen]⟩], [(setTone, .ok "Agent identity updated.")]⟩

theorem in_turn : Reach (editing assistant).system Free (toneSet dryAssistant) :=
  reach_of_exec [.start setTone, .read 0, .read 0, .write 0, .start setRole, .read 0, .read 0] (meets_free ..) rfl

theorem overtaken : Reach (editing assistant).system Free (toneSet assistant) :=
  reach_of_exec [.start setTone, .start setRole, .read 0, .read 0, .read 1, .read 1, .write 0] (meets_free ..) rfl

theorem an_edit_is_kept : ∃ t, Reach (editing assistant).system Free t ∧
    Kept assistant.toAgentIdentity setTone setRole t.value := by
  refine ⟨_, .step (.write 0) in_turn trivial rfl, (edits_keep (i := 0) tone_and_role_disjoint in_turn rfl rfl rfl rfl).mpr ?_⟩
  rintro existing ⟨⟩ r ⟨⟩
  exact ⟨fun _ => rfl, fun _ => rfl, fun _ => rfl, fun _ => rfl⟩

theorem an_edit_is_undone : ∃ t, Reach (editing assistant).system Free t ∧
    ¬Kept assistant.toAgentIdentity setTone setRole t.value := by
  refine ⟨_, .step (.write 0) overtaken trivial rfl, ?_⟩
  rintro ⟨r, ⟨⟩, hover⟩
  exact absurd hover.tone (by decide)

end FlowHelm.Identity
