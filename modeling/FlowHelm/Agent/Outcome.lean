/-
  FlowHelm.Agent.Outcome — whether an item can complete without its user hearing of it.

  The outcome passes through four places: the parse of the output, the retry of a failed
  resume, the task's log line (which throws on a text that is not a string), and the
  router, which sends nothing for an empty text; the task then acknowledges whatever
  `success` says.

  - `failing_run`: behind a failure a task never completes its row.
  - `accounted_ok`: a result is accounted for when it is answered or the task fails on it.
  - `mute_iff`: which JSON values make a result that is not.
  - `no_silent_drop_iff`: for every output of the agent process, the item completes only
    with a success or a text sent, and is failed otherwise, exactly when the output is not
    silent (`Silent`).
  - `a_blank_output_completes`: a process that wrote nothing.
-/
import FlowHelm.Agent.CliResponse
import FlowHelm.Orchestrator.Machine

namespace FlowHelm.Agent

open Js Orchestrator

/-! ## Runs of a task -/

/-- Resume a task with `rets`, one after the other: where it is then, and what it did. -/
def run (cfg : Config) : Task → List Ret → Option (Task × List Effect)
  | t, [] => some (t, [])
  | t, r :: rs => match t.step cfg r with
    | some (t', e) => (run cfg t' rs).map fun (u, es) => (u, e :: es)
    | none => none

/-- The table behind a task's effects. -/
def settle (id now : Nat) (es : List Effect) (q : Queue) : Queue := es.foldl (fun q e => e.onQueue q id now) q

def Completed (q : Queue) (id : Nat) : Prop := ∃ r ∈ q.rows, r.id = id ∧ r.status = .completed

instance decidableCompleted (q : Queue) (id : Nat) : Decidable (Completed q id) :=
  inferInstanceAs (Decidable (∃ r ∈ q.rows, _))

/-! ## The law -/

def ret : Except String AgentResult → Ret
  | .ok r => .result r
  | .error e => .threw e

def nonEmptyText : Json → Bool
  | .str s => !s.isEmpty
  | _ => false

/-- The result succeeded, or has a text for the router. -/
def answered : Except String AgentResult → Bool
  | .ok r => r.success || nonEmptyText r.text
  | .error _ => false

/-- However a task goes on from this outcome, its row is completed only when the outcome
    is answered; otherwise the item is failed. -/
def Accounted (o : Except String AgentResult) : Prop :=
  ∀ (cfg : Config) (t : Task), t.pc = .execute →
    (∀ rets u es q now, run cfg t (ret o :: rets) = some (u, es) → ¬ Completed q t.item.id →
      Completed (settle t.item.id now es q) t.item.id → answered o = true) ∧
    (answered o = false → ∃ u error, t.step cfg (ret o) = some (u, .none) ∧ u.pc = .fail error)

/-- The JSON value says error, and has no text to go with it: its `result` is missing,
    empty, or a list. -/
def Mute (json : Json) : Prop :=
  isError json = true ∧ match json.get "result" with
    | none => True
    | some .null => True
    | some (.str s) => s = []
    | some (.arr xs) => allPrintable xs = true
    | some _ => False

/-- The output that counts is blank, or holds a mute value. -/
def Silent (kind : Kind) (container : Except String Unit) (first retry : Except String ExecResult) : Prop :=
  ∃ r, output container first retry = .ok r ∧
    (trim r.stdout = "" ∨ ∃ json, recover kind (trim r.stdout) = some json ∧ Mute json)

/-! ## Behind a failure -/

theorem completed_ack {q : Queue} {id now : Nat} {e : Effect} (h : Completed (e.onQueue q id now) id)
    (hq : ¬ Completed q id) : e = .acknowledge := by
  obtain ⟨r, hr, hid, hst⟩ := h
  cases e with
  | acknowledge => rfl
  | fail error =>
    rcases Queue.mem_set hr with ⟨hr, -⟩ | ⟨r0, h0, -, rfl⟩
    · exact absurd ⟨r, hr, hid, hst⟩ hq
    · rcases Queue.fail_status r0 error now with ⟨h', -⟩ | ⟨h', -⟩ <;> rw [h'] at hst <;> cases hst
  | _ => exact absurd ⟨r, hr, hid, hst⟩ hq

/-- A failing or settled task stays so, and acknowledges nothing. -/
theorem failing_step {cfg : Config} {t u : Task} {r : Ret} {e : Effect} (h : t.step cfg r = some (u, e))
    (hf : (t.pc.failing || t.pc.settled) = true) : (u.pc.failing || u.pc.settled) = true ∧ e ≠ .acknowledge := by
  cases Task.step_move h with
  | heard x hpc => simp [hpc, Pc.failing, Pc.settled] at hf
  | unheard x hpc => simp [hpc, Pc.failing, Pc.settled] at hf
  | unlinked hpc => simp [hpc, Pc.failing, Pc.settled] at hf
  | kept x hpc => simp [hpc, Pc.failing, Pc.settled] at hf
  | quiet r pc hin =>
    simp only [Pc.inner, Bool.and_eq_true, Bool.not_eq_true'] at hin
    simp [hin.1.2, hin.2] at hf
  | hand hpc => simp [hpc, Pc.failing, Pc.settled] at hf
  | sent res d hpc => simp [hpc, Pc.failing, Pc.settled] at hf
  | acked hpc => cases hp : t.pc <;> simp [hp, Pc.acking, Pc.failing, Pc.settled] at hpc hf
  | ackLost x hpc => cases hp : t.pc <;> simp [hp, Pc.acking, Pc.failing, Pc.settled] at hpc hf
  | failed r x pc hpc hs => exact ⟨by simp [hs], nofun⟩
  | failRefused x y hpc => exact ⟨rfl, nofun⟩
  | notice r pc hpc hs => exact ⟨by simp [hs], nofun⟩

theorem failing_run {cfg : Config} (rets : List Ret) {t u : Task} {es : List Effect} {q : Queue} {id now : Nat}
    (h : run cfg t rets = some (u, es)) (hf : (t.pc.failing || t.pc.settled) = true) (hq : ¬ Completed q id) :
    ¬ Completed (settle id now es q) id := by
  induction rets generalizing t es q with
  | nil =>
    simp only [run, Option.some.injEq, Prod.mk.injEq] at h
    obtain ⟨-, rfl⟩ := h
    exact hq
  | cons r rs ih =>
    simp only [run] at h
    split at h
    · rename_i t' e hst
      obtain ⟨hf', hne⟩ := failing_step hst hf
      cases hr : run cfg t' rs with
      | none => simp [hr] at h
      | some x =>
        obtain ⟨w, ws⟩ := x
        simp only [hr, Option.map_some, Option.some.injEq, Prod.mk.injEq] at h
        obtain ⟨rfl, rfl⟩ := h
        have hq' : ¬ Completed (e.onQueue q id now) id := fun hc => hne (completed_ack hc hq)
        exact ih (q := e.onQueue q id now) hr hf' hq'
    · cases h

/-! ## The law, by what the task does next -/

theorem execute_step {cfg : Config} {t : Task} (h : t.pc = .execute) (r : AgentResult) :
    t.step cfg (.result r) = some (t.at (afterExecute r), .none) := by
  unfold Task.step
  simp only [h]

theorem execute_threw {cfg : Config} {t : Task} (h : t.pc = .execute) (error : String) :
    t.step cfg (.threw error) = some (t.at (.fail error), .none) := by
  unfold Task.step
  simp only [h]

theorem accounted_of_fail {o : Except String AgentResult}
    (h : ∀ (cfg : Config) (t : Task), t.pc = .execute →
      ∃ u error, t.step cfg (ret o) = some (u, .none) ∧ u.pc = .fail error) : Accounted o := by
  intro cfg t hpc
  obtain ⟨u, error, hst, hu⟩ := h cfg t hpc
  refine ⟨?_, fun _ => ⟨u, error, hst, hu⟩⟩
  intro rets w es q now hrun hq hc
  simp only [run, hst] at hrun
  cases hr : run cfg u rets with
  | none => simp [hr] at hrun
  | some x =>
    obtain ⟨v, vs⟩ := x
    simp only [hr, Option.map_some, Option.some.injEq, Prod.mk.injEq] at hrun
    obtain ⟨-, rfl⟩ := hrun
    have hno : ¬ Completed (settle t.item.id now vs q) t.item.id :=
      failing_run rets hr (by rw [hu]; rfl) hq
    exact absurd hc hno

theorem accounted_error (error : String) : Accounted (.error error) := by
  refine accounted_of_fail ?_
  intro cfg t hpc
  exact ⟨_, error, execute_threw hpc error, rfl⟩

/-- A result is accounted for when it is answered, or when the task fails on it. -/
theorem accounted_ok (r : AgentResult) :
    Accounted (.ok r) ↔ answered (.ok r) = true ∨ (afterExecute r).failing = true := by
  constructor
  · intro h
    by_cases ha : answered (.ok r) = true
    · exact Or.inl ha
    · refine Or.inr ?_
      have hpc : (⟨⟨0, ⟨"", .telegram, "", "", none, none, none, none, 0, false⟩, .processing, 0, 0, 0, 0, none⟩,
        none, .execute, false⟩ : Task).pc = .execute := rfl
      obtain ⟨u, error, hst, hu⟩ := (h ⟨0, true, true, true⟩ _ hpc).2 (by simpa using ha)
      rw [ret, execute_step hpc] at hst
      obtain ⟨rfl, -⟩ := Prod.mk.inj (Option.some.inj hst)
      rw [Task.at_pc] at hu
      rw [hu]
      rfl
  · intro h
    by_cases hf : (afterExecute r).failing = true
    · refine accounted_of_fail ?_
      intro cfg t hpc
      cases hp : afterExecute r with
      | fail error => exact ⟨_, error, execute_step hpc r, hp⟩
      | _ => simp [hp, Pc.failing] at hf
    · have ha : answered (.ok r) = true := by
        rcases h with h | h
        · exact h
        · exact absurd h hf
      intro cfg t hpc
      refine ⟨fun _ _ _ _ _ _ _ _ => ha, ?_⟩
      intro hn
      rw [ha] at hn
      cases hn

/-! ## Which results are silent -/

theorem allPrintable_take (n : Nat) (xs : List Json) (h : allPrintable xs = true) : allPrintable (xs.take n) = true := by
  induction xs generalizing n with
  | nil => simp [allPrintable]
  | cons x xs ih =>
    cases n with
    | zero => rfl
    | succ n =>
      simp only [allPrintable, Bool.and_eq_true, List.take_succ_cons] at h ⊢
      exact ⟨h.1, ih n h.2⟩

theorem afterExecute_failing (r : AgentResult) : (afterExecute r).failing =
    !(sliceable r.text && printable (firstHundred r.text) && printable (r.error.getD .null)) := by
  unfold afterExecute
  cases sliceable r.text
  · rfl
  cases printable (firstHundred r.text)
  · rfl
  cases printable (r.error.getD .null)
  · rfl
  cases r.text.truthy <;> rfl

/-- An error value is not accounted for when it has no text, unless the log line throws
    on it. -/
theorem mute_iff (i o : String) (json : Json) : Mute json ↔
    ¬ (answered (.ok (toResult (normalize i o json))) = true ∨
      (afterExecute (toResult (normalize i o json))).failing = true) := by
  have hfix : printable (Json.text "Agent returned an error") = true := rfl
  have hnil : Json.text "" = .str [] := rfl
  rw [afterExecute_failing]
  unfold Mute
  by_cases he : isError json = true
  case neg => simp [answered, toResult, normalize, he]
  simp only [he, answered, toResult, normalize, true_and, Bool.not_true, Bool.false_or, if_true, Option.getD_some]
  cases hr : json.get "result" with
  | none => simp [Json.orElse, jsonOr, hfix, hnil, nonEmptyText, sliceable, firstHundred, printable]
  | some v =>
    cases v with
    | null => simp [Json.orElse, jsonOr, Json.truthy, hfix, hnil, nonEmptyText, sliceable, firstHundred, printable]
    | str s =>
      cases s with
      | nil => simp [Json.orElse, jsonOr, Json.truthy, hfix, nonEmptyText, sliceable, firstHundred, printable]
      | cons c cs => simp [Json.orElse, nonEmptyText]
    | arr xs =>
      have htake := allPrintable_take 100 xs
      simp only [Json.orElse, jsonOr, Json.truthy, nonEmptyText, sliceable, firstHundred, printable, if_true]
      cases hx : allPrintable xs with
      | true => simp [htake hx]
      | false => simp
    | bool b => simp [Json.orElse, sliceable]
    | num neg digits exp => simp [Json.orElse, sliceable]
    | obj fields => simp [Json.orElse, sliceable]

/-! ## No silent drop -/

theorem blank_unaccounted (error : String) : ¬ Accounted (.ok (toResult (failed "" error))) := by
  rw [accounted_ok]
  unfold afterExecute
  simp [answered, toResult, failed, nonEmptyText, Json.text, ofString, sliceable, firstHundred, printable, Json.truthy,
    Pc.failing]

theorem utf16_ne_nil (c : Char) : utf16 c ≠ [] := by
  unfold utf16
  split <;> exact List.cons_ne_nil _ _

theorem ofString_eq_nil {s : String} (h : ofString s = []) : s = "" := by
  have hl : s.toList = [] := by
    cases hs : s.toList with
    | nil => rfl
    | cons c cs =>
      rw [ofString, hs, List.flatMap_cons, List.append_eq_nil_iff] at h
      exact absurd h.1 (utf16_ne_nil c)
  exact String.toList_eq_nil_iff.mp hl

/-- Output that is not JSON is itself the text. -/
theorem malformed_accounted {text : String} (error : String) (h : text ≠ "") :
    Accounted (.ok (toResult (failed text error))) := by
  have hne : ofString text ≠ [] := fun hn => h (ofString_eq_nil hn)
  rw [accounted_ok]
  refine Or.inl ?_
  simpa [answered, toResult, failed, nonEmptyText, Json.text] using hne

theorem execute_of_error {kind : Kind} {container : Except String Unit} {first retry : Except String ExecResult}
    {error : String} (h : output container first retry = .error error) :
    execute kind container first retry = .error error := by
  unfold execute
  rw [h]
  rfl

theorem parseExecResult_fst (kind : Kind) (stdout stderr : String) : ∃ empty malformed i o,
    (parseExecResult kind stdout stderr).map (·.1) =
      (parseResponse (recover kind) empty malformed i o stdout stderr).map toResult := by
  cases kind with
  | cli =>
    have h : (parseExecResult .cli stdout stderr).map (·.1) = (parseCliResponse stdout stderr).map toResult := by
      unfold parseExecResult
      cases parseCliResponse stdout stderr <;> rfl
    exact ⟨_, _, _, _, h⟩
  | sdk =>
    have h : (parseExecResult .sdk stdout stderr).map (·.1) = (parseSdkResponse stdout stderr).map toResult := by
      unfold parseExecResult
      cases parseSdkResponse stdout stderr <;> rfl
    exact ⟨_, _, _, _, h⟩

theorem execute_of_output (kind : Kind) {container : Except String Unit} {first retry : Except String ExecResult}
    {r : ExecResult} (h : output container first retry = .ok r) : ∃ empty malformed i o,
    execute kind container first retry =
      (parseResponse (recover kind) empty malformed i o r.stdout r.stderr).map toResult := by
  obtain ⟨empty, malformed, i, o, hp⟩ := parseExecResult_fst kind r.stdout r.stderr
  refine ⟨empty, malformed, i, o, ?_⟩
  rw [← hp]
  unfold execute
  rw [h]
  show (parseExecResult kind r.stdout r.stderr).bind (fun x => .ok x.1) = _
  cases parseExecResult kind r.stdout r.stderr <;> rfl

/-- For every outcome of the container and of the two commands: an item behind it is
    completed only with a success or a text for the router, and failed otherwise, if and
    only if the output that counts is not silent. -/
theorem no_silent_drop_iff (kind : Kind) (container : Except String Unit) (first retry : Except String ExecResult) :
    Accounted (execute kind container first retry) ↔ ¬ Silent kind container first retry := by
  cases ho : output container first retry with
  | error error =>
    rw [execute_of_error ho]
    refine iff_of_true (accounted_error error) ?_
    rintro ⟨r, hr, -⟩
    rw [ho] at hr
    cases hr
  | ok r =>
    have hsilent : Silent kind container first retry ↔
        trim r.stdout = "" ∨ ∃ json, recover kind (trim r.stdout) = some json ∧ Mute json := by
      constructor
      · rintro ⟨r', hr, h⟩
        rw [ho] at hr
        cases hr
        exact h
      · exact fun h => ⟨r, ho, h⟩
    obtain ⟨empty, malformed, i, o, hex⟩ := execute_of_output kind ho
    rw [hex, hsilent]
    rcases parseResponse_spec (recover kind) empty malformed i o r.stdout r.stderr with
      ⟨hb, error, hp⟩ | ⟨hb, hn, hp⟩ | ⟨hb, hn, hp⟩ | ⟨hb, json, hnn, hj, hp⟩ <;> rw [hp, Except.map]
    · exact iff_of_false (blank_unaccounted error) (fun h => h (Or.inl hb))
    · refine iff_of_true (malformed_accounted malformed hb) ?_
      rintro (h | ⟨json, hj, -⟩)
      · exact hb h
      · rw [hn] at hj
        cases hj
    · refine iff_of_true (accounted_error noProperties) ?_
      rintro (h | ⟨json, hj, hm, -⟩)
      · exact hb h
      · rw [hn] at hj
        cases hj
        cases hm
    · rw [accounted_ok]
      have hmute := mute_iff i o json
      constructor
      · rintro h (hb' | ⟨json', hj', hm⟩)
        · exact hb hb'
        · rw [hj] at hj'
          cases hj'
          exact hmute.mp hm h
      · intro h
        refine Classical.not_not.mp fun hno => h (Or.inr ⟨json, hj, hmute.mpr hno⟩)

/-! ## A blank output -/

def msg : InboundMessage := ⟨"m1", .telegram, "tg:1", "Ann", some "hello", none, none, none, 0, false⟩

def claimed : Queue := ((Queue.empty.enqueue msg 3 0).dequeueForChat "tg:1" 0 0).2

def asked : Task := ⟨⟨1, msg, .processing, 1, 3, 0, 0, none⟩, some "hello", .execute, false⟩

def killed : Except String ExecResult := .ok ⟨"", "Killed", 137⟩

/-- The process is killed before it writes anything: the item is acknowledged, with no
    success and nothing said. -/
theorem a_blank_output_completes : ¬ Accounted (execute .cli (.ok ()) killed killed) ∧
    answered (execute .cli (.ok ()) killed killed) = false ∧
    ∃ u es, run ⟨1, true, true, true⟩ asked [ret (execute .cli (.ok ()) killed killed), .ok] = some (u, es) ∧
      ¬ Completed claimed 1 ∧ Completed (settle 1 0 es claimed) 1 := by
  have he : execute .cli (.ok ()) killed killed = .ok (toResult (failed "" "Killed")) := rfl
  rw [he]
  exact ⟨blank_unaccounted "Killed", by decide, _, _, rfl, by decide, by decide⟩

end FlowHelm.Agent
