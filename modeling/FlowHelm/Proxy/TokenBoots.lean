/-
  FlowHelm.Proxy.TokenBoots — the auth tokens over the boots of the orchestrator (main and
  loadPersistedAuthTokens of src/index.ts, migrateAuthTokens of the vault, and the token files that
  `flowhelm setup` writes).

  A boot first makes rules of the token files, which the proxy then starts with, and only then brings
  the files and its own environment up to date, unless it is given a database. It may be cut short
  anywhere. The vault is loaded and saved as it is; agents are given a placeholder for the token.

  - `rule_after`: the rule is made of the first text any boot finds in the file.
  - `first_and_last`: that is what the proxy sends, whatever the process has by now.
-/
import Mathlib.Data.List.DropRight
import FlowHelm.Lib.Buffer
import FlowHelm.Proxy.Vault

namespace FlowHelm.Proxy.TokenBoots

open Js

inductive Token where
  | oauthToken
  | apiKey
  deriving DecidableEq

def Token.migration : Token → Migration
  | .oauthToken => .oauthToken
  | .apiKey => .apiKey

/-! ## Files -/

/-- `(await readFile(path, 'utf-8')).trim()`; a file that cannot be read has no text. -/
def textOf (file : Option (List UInt8)) : JsString := match file with
  | some bytes => ofString (trim (String.ofList (Utf8.decode bytes)))
  | none => []

def found (text : JsString) : Option JsString := if text = [] then none else some text

/-- What a variable is set to. -/
def given (value : Option JsString) : Option JsString := value.filter (· ≠ [])

/-- One turn of `loadPersistedAuthTokens`: the file, and the variable. -/
def persist (value : Option JsString) (file : Option (List UInt8)) : Option (List UInt8) × Option JsString :=
  match given value with
  | some value => (if file.isSome ∧ textOf file = value then file else some (Buffer.fromUtf8 value), some value)
  | none => (file, found (textOf file))

/-- A value as it is read back. -/
def clean (value : JsString) : JsString := ofString (trim (String.ofList (toWellFormed value)))

theorem trim_trim (s : String) : trim (trim s) = trim s := by
  have htrim : ∀ s : String, trim s = String.ofList ((s.toList.dropWhile isWhite).rdropWhile isWhite) := fun _ => rfl
  rw [htrim (trim s), htrim s, String.toList_ofList]
  generalize hchars : s.toList.dropWhile isWhite = chars
  have hstart : chars.dropWhile isWhite = chars := by rw [← hchars, List.dropWhile_idempotent]
  -- what is left starts as it did
  have hleft : (chars.rdropWhile isWhite).dropWhile isWhite = chars.rdropWhile isWhite := by
    rw [List.dropWhile_eq_self_iff] at hstart ⊢
    intro hpos
    have hkept := List.rdropWhile_prefix isWhite chars
    rw [hkept.getElem hpos]
    exact hstart (Nat.lt_of_lt_of_le hpos hkept.length_le)
  rw [hleft, List.rdropWhile_idempotent]

theorem textOf_clean (value : JsString) : textOf (some (Buffer.fromUtf8 value)) = clean value := by
  rw [textOf, Buffer.fromUtf8, Utf8.decode_encode, clean]

theorem clean_textOf (file : Option (List UInt8)) : clean (textOf file) = textOf file := by
  cases file with
  | none => decide
  | some bytes => rw [textOf, clean, toWellFormed_ofString, String.ofList_toList, trim_trim]

theorem persist_text (value : Option JsString) (file : Option (List UInt8)) :
    textOf (persist value file).1 = ((given value).map clean).getD (textOf file) := by
  unfold persist
  cases given value with
  | none => rfl
  | some value =>
    dsimp only
    split
    · rename_i hsame
      rw [Option.map_some, Option.getD_some, ← hsame.2, clean_textOf]
    · rw [textOf_clean, Option.map_some, Option.getD_some]

/-! ## Rules -/

/-- What the rule puts into a header. -/
def ruleOf (k : Token) (rules : RawRules) : Option JsString :=
  (rules.credentials.find? (·.name == k.migration.name)).map (·.value)

/-- What `migrateAuthTokens` leaves in the vault. -/
def migrated (files : Token → Option (List UInt8)) (rules : RawRules) : RawRules :=
  match migrateAuthTokens (files .oauthToken) (files .apiKey) rules with
  | .saved rules => rules
  | _ => rules

theorem turn_eq (m : Migration) (file : Option (List UInt8)) (rules : RawRules) :
    m.turn file rules = if rules.credentials.any (·.name == m.name) then none
      else (found (textOf file)).map fun value => { rules with credentials := rules.credentials ++ [m.rule value] } := by
  unfold Migration.turn
  split
  · rfl
  · cases file with
    | none => rfl
    | some bytes =>
      dsimp only [Option.bind_some, textOf, found]
      split <;> rfl

theorem migrated_eq (files : Token → Option (List UInt8)) (rules : RawRules) : migrated files rules =
    (Migration.apiKey.turn (files .apiKey) ((Migration.oauthToken.turn (files .oauthToken) rules).getD rules)).getD
      ((Migration.oauthToken.turn (files .oauthToken) rules).getD rules) := by
  unfold migrated migrateAuthTokens
  cases Migration.oauthToken.turn (files .oauthToken) rules with
  | some mid => rfl
  | none =>
    rw [Option.getD_none]
    cases Migration.apiKey.turn (files .apiKey) rules <;> rfl

/-- A turn makes the rule where there is none. -/
theorem ruleOf_turn (k : Token) (file : Option (List UInt8)) (rules : RawRules) :
    ruleOf k ((k.migration.turn file rules).getD rules) =
      (ruleOf k rules).or ((found (textOf file)).map (k.migration.valuePrefix ++ ·)) := by
  rw [turn_eq]
  unfold ruleOf
  cases hfind : rules.credentials.find? (·.name == k.migration.name) with
  | some r =>
    have hname := List.find?_some hfind
    have hany : rules.credentials.any (·.name == k.migration.name) = true :=
      List.any_eq_true.mpr ⟨r, List.mem_of_find?_eq_some hfind, hname⟩
    rw [if_pos hany, Option.getD_none, hfind]
    rfl
  | none =>
    have hany : ¬rules.credentials.any (·.name == k.migration.name) = true := by
      rw [List.any_eq_true]
      rintro ⟨r, hr, hname⟩
      exact List.find?_eq_none.mp hfind r hr hname
    rw [if_neg hany]
    cases found (textOf file) with
    | none => simp [hfind]
    | some value => simp [hfind, Migration.rule]

/-- It leaves the other rules as they are. -/
theorem ruleOf_turn_ne {k : Token} {m : Migration} (hne : m.name ≠ k.migration.name) (file : Option (List UInt8))
    (rules : RawRules) :
    ruleOf k ((m.turn file rules).getD rules) = ruleOf k rules := by
  rw [turn_eq]
  split
  · rfl
  · cases found (textOf file) with
    | none => rfl
    | some value => simp [ruleOf, Migration.rule, hne]

theorem ruleOf_migrated (k : Token) (files : Token → Option (List UInt8)) (rules : RawRules) :
    ruleOf k (migrated files rules) = (ruleOf k rules).or ((found (textOf (files k))).map (k.migration.valuePrefix ++ ·)) := by
  rw [migrated_eq]
  cases k with
  | oauthToken => exact (ruleOf_turn_ne (by decide) _ _).trans (ruleOf_turn .oauthToken _ _)
  | apiKey =>
    refine (ruleOf_turn .apiKey _ _).trans ?_
    rw [ruleOf_turn_ne (by decide)]

/-! ## Runs -/

structure St where
  files : Token → Option (List UInt8)
  rules : RawRules
  /-- The variables of the process that was started last. -/
  env : Token → Option JsString

inductive Act where
  /-- With the variables it is given; `reached`: the rules are saved from 1 on, the token files are
      done from 2 and 3 on. -/
  | boot (env : Token → Option JsString) (database : Bool) (reached : Nat)
  /-- `writeApiKey` and `deleteApiKey` of a setup, or by hand. -/
  | write (k : Token) (file : Option (List UInt8))
  /-- Another call of the vault. -/
  | edit (w : Write)

def Token.place : Token → Nat
  | .oauthToken => 2
  | .apiKey => 3

def boot (s : St) (env : Token → Option JsString) (database : Bool) (reached : Nat) : St where
  rules := if 1 ≤ reached then migrated s.files s.rules else s.rules
  files k := if ¬database ∧ k.place ≤ reached then (persist (env k) (s.files k)).1 else s.files k
  env k := if ¬database ∧ k.place ≤ reached then (persist (env k) (s.files k)).2 else given (env k)

def act (s : St) : Act → St
  | .boot env database reached => boot s env database reached
  | .write k file => { s with files := fun l => if l = k then file else s.files l }
  | .edit w => match w.edit s.rules with
    | .saved rules => { s with rules := rules }
    | _ => s

def run (s : St) (acts : List Act) : St := acts.foldl act s

/-- The call is about other rules than the token's. -/
def Spares (k : Token) : Act → Prop
  | .edit (.addCredential name ..) | .edit (.removeCredential name) => name ≠ k.migration.name
  | .edit (.migrateAuthTokens ..) => False
  | _ => True

/-- What the file of a token has in it behind an act. -/
def textAfter (k : Token) (text : JsString) : Act → JsString
  | .boot env database reached => if ¬database ∧ k.place ≤ reached then ((given (env k)).map clean).getD text else text
  | .write l file => if k = l then textOf file else text
  | .edit _ => text

/-- What a boot finds that saves rules. -/
def Act.finds (text : JsString) : Act → List JsString
  | .boot _ _ reached => if 1 ≤ reached then [text] else []
  | _ => []

/-- What the boots find. -/
def finds (k : Token) (text : JsString) : List Act → List JsString
  | [] => []
  | a :: acts => a.finds text ++ finds k (textAfter k text a) acts

theorem text_act (k : Token) (s : St) (a : Act) : textOf ((act s a).files k) = textAfter k (textOf (s.files k)) a := by
  cases a with
  | boot env database reached =>
    dsimp only [act, boot, textAfter]
    split
    · exact persist_text ..
    · rfl
  | write l file =>
    dsimp only [act, textAfter]
    split <;> rfl
  | edit w =>
    dsimp only [act, textAfter]
    split <;> rfl

theorem text_run (k : Token) (s : St) (acts : List Act) :
    textOf ((run s acts).files k) = acts.foldl (textAfter k) (textOf (s.files k)) := by
  induction acts generalizing s with
  | nil => rfl
  | cons a acts ih => exact (ih (act s a)).trans (by rw [text_act, List.foldl_cons])

theorem find_others {name : JsString} {k : Token} (hname : name ≠ k.migration.name) (rules : RawRules) :
    (rules.credentials.filter (·.name ≠ name)).find? (·.name == k.migration.name) =
      rules.credentials.find? (·.name == k.migration.name) := by
  rw [List.find?_filter]
  refine congrArg (List.find? · rules.credentials) (funext fun r => ?_)
  by_cases hr : r.name = k.migration.name
  · simp [hr, hname.symm]
  · simp [hr]

theorem ruleOf_edit {k : Token} {w : Write} (h : Spares k (.edit w)) {rules rules' : RawRules}
    (he : w.edit rules = .saved rules') :
    ruleOf k rules' = ruleOf k rules := by
  cases w with
  | addCredential name hostPattern header value rateLimit =>
    have hname : name ≠ k.migration.name := h
    obtain rfl := Edited.saved.inj he
    unfold ruleOf Proxy.addCredential
    rw [List.find?_append, find_others hname, List.find?_singleton, if_neg (by simpa using hname), Option.or_none]
  | removeCredential name =>
    have hname : name ≠ k.migration.name := h
    dsimp only [Write.edit, Proxy.removeCredential] at he
    split at he
    · cases he
    · obtain rfl := Edited.saved.inj he
      exact congrArg (Option.map _) (find_others hname rules)
  | setSecret name value =>
    obtain rfl := Edited.saved.inj he
    show ruleOf k (Proxy.setSecret name value rules) = _
    unfold Proxy.setSecret
    split <;> rfl
  | migrateAuthTokens oauthToken apiKey => exact h.elim

theorem finds_append (k : Token) (text : JsString) (acts more : List Act) :
    finds k text (acts ++ more) = finds k text acts ++ finds k (acts.foldl (textAfter k) text) more := by
  induction acts generalizing text with
  | nil => rfl
  | cons a acts ih => rw [List.cons_append, finds, finds, ih, List.append_assoc, List.foldl_cons]

theorem found_find (f : JsString → JsString) (text : JsString) (texts : List JsString) :
    ((found text).map f).or ((texts.find? (· ≠ [])).map f) = ((text :: texts).find? (· ≠ [])).map f := by
  by_cases htext : text = []
  · subst htext
    rfl
  · rw [found, if_neg htext, List.find?_cons_of_pos (by simpa using htext)]
    rfl

/-- The rule is made of the first text that a boot finds. -/
theorem rule_after (k : Token) (s : St) {acts : List Act} (hspares : ∀ a ∈ acts, Spares k a) :
    ruleOf k (run s acts).rules = (ruleOf k s.rules).or
      (((finds k (textOf (s.files k)) acts).find? (· ≠ [])).map (k.migration.valuePrefix ++ ·)) := by
  induction acts generalizing s with
  | nil => exact (Option.or_none).symm
  | cons a acts ih =>
    obtain ⟨ha, hacts⟩ := List.forall_mem_cons.mp hspares
    have hrest := ih (act s a) hacts
    rw [text_act] at hrest
    rw [show run s (a :: acts) = run (act s a) acts from rfl, hrest, finds]
    cases a with
    | boot env database reached =>
      by_cases hreached : 1 ≤ reached
      · have hrules : (act s (.boot env database reached)).rules = migrated s.files s.rules := if_pos hreached
        have hfinds : Act.finds (textOf (s.files k)) (.boot env database reached) = [textOf (s.files k)] := if_pos hreached
        rw [hrules, ruleOf_migrated, Option.or_assoc, found_find, hfinds, List.singleton_append]
      · have hrules : (act s (.boot env database reached)).rules = s.rules := if_neg hreached
        have hfinds : Act.finds (textOf (s.files k)) (.boot env database reached) = [] := if_neg hreached
        rw [hrules, hfinds, List.nil_append]
    | write l file => rfl
    | edit w =>
      have hrules : ruleOf k (act s (.edit w)).rules = ruleOf k s.rules := by
        dsimp only [act]
        split
        · rename_i rules hedit
          exact ruleOf_edit ha hedit
        · rfl
      rw [hrules, show Act.finds (textOf (s.files k)) (.edit w) = [] from rfl, List.nil_append]

/-- Behind any acts a boot starts the proxy with the first text that a boot has found, and the process
    with what it is given itself or with the last text. -/
theorem first_and_last (k : Token) (s : St) {acts : List Act} (hspares : ∀ a ∈ acts, Spares k a) (env : Token → Option JsString) :
    let text := acts.foldl (textAfter k) (textOf (s.files k))
    ruleOf k (run s (acts ++ [.boot env false 3])).rules = (ruleOf k s.rules).or
        (((finds k (textOf (s.files k)) acts ++ [text]).find? (· ≠ [])).map (k.migration.valuePrefix ++ ·)) ∧
      (run s (acts ++ [.boot env false 3])).env k = (given (env k)).or (found text) := by
  intro text
  have hboot : ∀ a ∈ acts ++ [.boot env false 3], Spares k a := by
    intro a ha
    rcases List.mem_append.mp ha with ha | ha
    · exact hspares a ha
    · obtain rfl := List.mem_singleton.mp ha
      trivial
  refine ⟨?_, ?_⟩
  · rw [rule_after k s hboot, finds_append]
    rfl
  · have hplace : k.place ≤ 3 := by cases k <;> decide
    have hrun : run s (acts ++ [.boot env false 3]) = boot (run s acts) env false 3 := by
      unfold run
      rw [List.foldl_append]
      rfl
    have henv : (boot (run s acts) env false 3).env k = (persist (env k) ((run s acts).files k)).2 := if_pos ⟨by decide, hplace⟩
    rw [hrun, henv, ← show textOf ((run s acts).files k) = text from text_run k s acts]
    unfold persist
    cases given (env k) <;> rfl

def fresh : St := ⟨fun _ => none, ⟨[], [], []⟩, fun _ => none⟩

def firstKey : List Act :=
  [.write .apiKey (some (Buffer.fromUtf8 (ofString "sk-ant-api03-old\n"))), .boot (fun _ => none) false 3,
    .write .apiKey (some (Buffer.fromUtf8 (ofString "sk-ant-api03-new\n")))]

/-- The process has the new key, and the proxy sends the old one. -/
theorem a_renewed_key_is_not_sent :
    ruleOf .apiKey (run fresh (firstKey ++ [.boot (fun _ => none) false 3])).rules = some (ofString "sk-ant-api03-old") ∧
      (run fresh (firstKey ++ [.boot (fun _ => none) false 3])).env .apiKey = some (ofString "sk-ant-api03-new") := by
  have hspares : ∀ a ∈ firstKey, Spares .apiKey a :=
    List.forall_mem_cons.mpr ⟨trivial, List.forall_mem_cons.mpr
      ⟨trivial, List.forall_mem_cons.mpr ⟨trivial, List.forall_mem_nil _⟩⟩⟩
  have h := first_and_last .apiKey fresh hspares fun _ => none
  exact ⟨h.1.trans (by decide +kernel), h.2.trans (by decide +kernel)⟩

end FlowHelm.Proxy.TokenBoots
