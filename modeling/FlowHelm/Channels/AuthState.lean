/-
  FlowHelm.Channels.AuthState — auth-state.ts: WhatsApp's session in the vault, and the calls on
  the vault when they overlap.

  `saveCreds` and `keys.set` load the whole vault and save it, as the calls of CredentialStore
  do; Baileys does not wait for the one before the other. A call is one process at the file,
  in this Node process or in another. Its arguments are those of the moment it was made, a
  value is what `serialize` makes of it.

  - `no_update_lost`: where each save finds the file as its load did, the calls are as good as
    made one after another.
  - `creds_are_lost`: a `saveCreds` and a `keys.set` that overlap.
-/
import FlowHelm.Lib.SharedFile
import FlowHelm.Proxy.Vault

namespace FlowHelm.Channels

open Js Proxy Runs SharedFile

/-! ## Signal keys -/

def credsSecretKey : JsString := ofString "whatsapp-auth-creds"

def keyPrefix : JsString := ofString "wa-key:"

def keyName (type id : JsString) : JsString := keyPrefix ++ type ++ ofString ":" ++ id

/-- By category and id; a value that is falsy has no text. -/
abbrev SignalDataSet := List (JsString × Option (List (JsString × Option JsString)))

/-- One entry, put to the secrets and `changed`. -/
def setKey (name : JsString) (value : Option JsString) (acc : List (JsString × JsString) × Bool) :
    List (JsString × JsString) × Bool :=
  match value with
  | some value => (assign name value acc.1, true)
  | none => if acc.1.any (·.1 == name) then (acc.1.filter (·.1 ≠ name), true) else acc

/-- `keys.set`, between load and save. -/
def keysSet (data : SignalDataSet) (rules : RawRules) : Edited :=
  let set := data.foldl (fun acc category => (category.2.getD []).foldl (fun acc entry =>
    setKey (keyName category.1 entry.1) entry.2 acc) acc)
    (rules.secrets, false)
  if set.2 then .saved { rules with secrets := set.1 } else .unchanged

/-! ## Calls on the vault -/

inductive VaultCall where
  | addCredential (name hostPattern header value : JsString) (rateLimit : Option RawRateLimit)
  | removeCredential (name : JsString)
  | setSecret (name value : JsString)
  | saveCreds (creds : JsString)
  | keysSet (data : SignalDataSet)

def VaultCall.edit : VaultCall → RawRules → Edited
  | .addCredential name hostPattern header value rateLimit, rules =>
    .saved (Proxy.addCredential name hostPattern header value rateLimit rules)
  | .removeCredential name, rules => Proxy.removeCredential name rules
  | .setSecret name value, rules => .saved (Proxy.setSecret name value rules)
  | .saveCreds creds, rules => .saved (Proxy.setSecret credsSecretKey creds rules)
  | .keysSet data, rules => Channels.keysSet data rules

/-- What a call writes, and the rules it ends with; it has none where it throws. -/
def VaultCall.perform (gcm : Gcm) (key : List UInt8) (c : VaultCall) (iv : Iv) (file : CredentialFile) :
    Option (List UInt8) × Option RawRules :=
  match loadCredentials gcm key file with
  | none => (none, none)
  | some rules => match c.edit rules.raw with
    | .thrown => (none, none)
    | .unchanged => (none, some rules.raw)
    | .saved raw => (some (saveCredentials gcm key raw iv), some raw)

/-- The calls `ι`, each with what its randomBytes will draw. -/
def performs {ι : Type} (gcm : Gcm) (key : List UInt8) (calls : ι → VaultCall × Iv) (i : ι) :
    CredentialFile → Option (List UInt8) × Option RawRules :=
  (calls i).1.perform gcm key (calls i).2

theorem no_update_lost {ι : Type} [DecidableEq ι] (gcm : Gcm) (key : List UInt8) (calls : ι → VaultCall × Iv)
    (file : CredentialFile)
    {s : State ι UInt8 (Option RawRules)} (h : Reach (system 0 (performs gcm key calls) file)
    (Isolated (performs gcm key calls)) s)
    (hdone : ∀ i, s.stage i = .idle ∨ (s.stage i).result.isSome) : Serializable (performs gcm key calls) file s :=
  Reach.serializable h hdone

/-- `saveCreds` and a new session key. -/
def pairing (b : Bool) : VaultCall × Iv :=
  (if b then .keysSet [(ofString "session", some [(ofString "1", some (ofString "k"))])] else .saveCreds (ofString "c"), zeroIv)

theorem bool_orders {order : List Bool} (hnodup : order.Nodup) (hmem : ∀ b, b ∈ order) :
    order = [false, true] ∨ order = [true, false] := by
  have hperm : order.Perm [false, true] := (List.perm_ext_iff_of_nodup hnodup (by decide)).mpr fun b => by simp [hmem b]
  obtain ⟨a, b, rfl⟩ := List.length_eq_two.mp hperm.length_eq
  cases a with
  | false => cases b with
    | false => simp at hnodup
    | true => exact .inl rfl
  | true => cases b with
    | false => exact .inr rfl
    | true => simp at hnodup

theorem pairing_one_by_one :
    ∃ s, (∀ i, (s.stage i).result.isSome) ∧ Serializable (performs .plain [] pairing) none s := by
  obtain ⟨s, hs, hreturned⟩ := reach_any (M := system 0 (performs .plain [] pairing) none)
    (P := fun s => decide (∀ i, (s.stage i).result.isSome))
    [.start false, .work false, .put false 99, .put false 9999, .start true, .pull true 9999, .pull true 0, .work true,
    .put true 9999]
    (C := Isolated (performs .plain [] pairing)) (by decide +kernel) (by decide +kernel)
  have hreturned := of_decide_eq_true hreturned
  exact ⟨s, hreturned, no_update_lost .plain [] pairing none hs fun i => .inr (hreturned i)⟩

/-- Both calls have returned, and in neither order do they leave this file. -/
def lost (s : State Bool UInt8 (Option RawRules)) : Bool :=
  (s.stage false).result.isSome && (s.stage true).result.isSome &&
    [[false, true], [true, false]].all fun order =>
      decide (s.file ≠ order.foldl (fun file i => after (performs .plain [] pairing) i file) none)

theorem creds_are_lost :
    ∃ s, Reach (system 0 (performs .plain [] pairing) none) Free s ∧ (∀ i, (s.stage i).result.isSome) ∧
      ¬Serializable (performs .plain [] pairing) none s := by
  obtain ⟨s, hs, hlost⟩ := reach_any (M := system 0 (performs .plain [] pairing) none) (P := lost)
    [.start false, .start true, .work false, .put false 9999, .work true, .put true 9999] (meets_free ..) (by decide +kernel)
  simp only [lost, Bool.and_eq_true, List.all_eq_true, decide_eq_true_eq] at hlost
  obtain ⟨⟨hfalse, htrue⟩, hfile⟩ := hlost
  have hreturned : ∀ i, (s.stage i).result.isSome
    | false => hfalse
    | true => htrue
  refine ⟨s, hs, hreturned, ?_⟩
  rintro ⟨order, hnodup, hmem, hserial⟩
  have horder := bool_orders hnodup fun b => (hmem b).mpr (hreturned b)
  exact hfile order (by simpa using horder) hserial.last_eq

end FlowHelm.Channels
