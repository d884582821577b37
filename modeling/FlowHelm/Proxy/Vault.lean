/-
  FlowHelm.Proxy.Vault — the calls of CredentialStore that rewrite the credentials file.

  A call loads the rules, edits the object it got and saves it. Nothing checks what an edit put
  in: `addCredential` pushes its arguments, and only the next load meets the schema. A call that
  fails in the file system leaves any file.

  - `Readable`: what can be saved and loaded again.
  - `loads_what_was_saved`: every call that returned can be loaded, just if `addCredential` was
    only given what the schema accepts.
  - `a_url_closes_the_vault`: a URL for a host pattern, and every later load throws.
-/
import FlowHelm.Lib.Runs
import FlowHelm.Proxy.CredentialStore

namespace FlowHelm.Proxy

open Js Runs

/-! ## Edits -/

/-- How a call goes on once it has the rules. -/
inductive Edited where
  | thrown
  | unchanged
  | saved (rules : RawRules)
  deriving DecidableEq

def addCredential (name hostPattern header value : JsString) (rateLimit : Option RawRateLimit) (rules : RawRules) : RawRules :=
  { rules with credentials := rules.credentials.filter (·.name ≠ name) ++
      [⟨name, hostPattern, header, value, none, rateLimit, none, none, none⟩] }

def removeCredential (name : JsString) (rules : RawRules) : Edited :=
  let credentials := rules.credentials.filter (·.name ≠ name)
  if credentials.length = rules.credentials.length then .thrown else .saved { rules with credentials := credentials }

/-- A string put at `__proto__` goes nowhere. -/
def setSecret (name value : JsString) (rules : RawRules) : RawRules :=
  if name = protoKey then rules else { rules with secrets := assign name value rules.secrets }

/-- A plaintext file that becomes a rule. -/
structure Migration where
  name : JsString
  hostPattern : JsString
  header : JsString
  valuePrefix : JsString
  credentialMethod : CredentialMethod

def Migration.oauthToken : Migration :=
  ⟨ofString "anthropic-oauth", ofString "api.anthropic.com", ofString "Authorization", ofString "Bearer ", .oauth⟩

def Migration.apiKey : Migration := ⟨ofString "anthropic-api-key", ofString "api.anthropic.com",
    ofString "x-api-key", [], .apiKey⟩

def Migration.rule (m : Migration) (value : JsString) : RawRule :=
  ⟨m.name, m.hostPattern, m.header, m.valuePrefix ++ value, none, none, none, none, some m.credentialMethod⟩

/-- One turn of the loop; a file that cannot be read has no bytes. `none` is `continue`. -/
def Migration.turn (m : Migration) (file : Option (List UInt8)) (rules : RawRules) : Option RawRules :=
  if rules.credentials.any (·.name == m.name) then none
  else file.bind fun bytes =>
    let value := ofString (trim (String.ofList (Utf8.decode bytes)))
    if value = [] then none else some { rules with credentials := rules.credentials ++ [m.rule value] }

def migrateAuthTokens (oauthToken apiKey : Option (List UInt8)) (rules : RawRules) : Edited :=
  match Migration.oauthToken.turn oauthToken rules with
  | some rules => .saved ((Migration.apiKey.turn apiKey rules).getD rules)
  | none => match Migration.apiKey.turn apiKey rules with
    | some rules => .saved rules
    | none => .unchanged

/-! ## Calls -/

inductive Write where
  | addCredential (name hostPattern header value : JsString) (rateLimit : Option RawRateLimit)
  | removeCredential (name : JsString)
  | setSecret (name value : JsString)
  /-- The two plaintext files, as they are read. -/
  | migrateAuthTokens (oauthToken apiKey : Option (List UInt8))

def Write.edit : Write → RawRules → Edited
  | .addCredential name hostPattern header value rateLimit, rules =>
    .saved (Proxy.addCredential name hostPattern header value rateLimit rules)
  | .removeCredential name, rules => Proxy.removeCredential name rules
  | .setSecret name value, rules => .saved (Proxy.setSecret name value rules)
  | .migrateAuthTokens oauthToken apiKey, rules => Proxy.migrateAuthTokens oauthToken apiKey rules

inductive Call where
  | write (w : Write) (iv : Iv)
  /-- `save`, of what `load` gave for some file. -/
  | save (loadedFrom : CredentialFile) (iv : Iv)
  /-- A call that fails once it has begun to write. -/
  | failed (left : CredentialFile)

/-- The file, and the rules the last call that returned left in it. -/
structure VaultState where
  file : CredentialFile
  saved : Option RawRules

variable (gcm : Gcm) (key : List UInt8)

/-- A call that throws before it writes does nothing. -/
def vaultStep (s : VaultState) : Call → VaultState
  | .write w iv => match loadCredentials gcm key s.file with
    | none => s
    | some rules => match w.edit rules.raw with
      | .thrown => s
      | .unchanged => { s with saved := some rules.raw }
      | .saved raw => ⟨some (saveCredentials gcm key raw iv), some raw⟩
  | .save loadedFrom iv => match loadCredentials gcm key loadedFrom with
    | none => s
    | some rules => ⟨some (saveCredentials gcm key rules.raw iv), some rules.raw⟩
  | .failed left => ⟨left, none⟩

def vault (file : CredentialFile) : System VaultState Call where
  init := ⟨file, none⟩
  step s c := some (vaultStep gcm key s c)

/-- `load` returns what was saved. -/
def VaultState.Loads (s : VaultState) : Prop := ∀ raw ∈ s.saved, ∃ rules, loadCredentials gcm key s.file = some rules ∧
    rules.raw = raw

/-! ## Rules that can be loaded again -/

def ReadableRule (r : RawRule) : Prop := ∃ c : CredentialRule, Loaded c ∧ c.raw = r

structure Readable (raw : RawRules) : Prop where
  credentials : ∀ r ∈ raw.credentials, ReadableRule r
  pinningBypass : ∀ host ∈ raw.pinningBypass, host ≠ []
  keys : (raw.secrets.map (·.1)).Nodup
  proto : protoKey ∉ raw.secrets.map (·.1)

theorem LoadedRules.readable {rules : CredentialRules} (h : LoadedRules rules) : Readable rules.raw := by
  refine ⟨fun r hr => ?_, h.pinningBypass, h.keys, h.proto⟩
  obtain ⟨c, hc, rfl⟩ := List.mem_map.mp hr
  exact ⟨c, h.credentials c hc, rfl⟩

theorem readable_credentials {rs : List RawRule} (h : ∀ r ∈ rs, ReadableRule r) :
    ∃ cs : List CredentialRule, (∀ c ∈ cs, Loaded c) ∧ cs.map CredentialRule.raw = rs := by
  induction rs with
  | nil => exact ⟨[], List.forall_mem_nil _, rfl⟩
  | cons r rs ih =>
    obtain ⟨c, hc, rfl⟩ := h r (.head _)
    obtain ⟨cs, hcs, rfl⟩ := ih fun r hr => h r (.tail _ hr)
    exact ⟨c :: cs, List.forall_mem_cons.mpr ⟨hc, hcs⟩, rfl⟩

theorem Readable.load {raw : RawRules} (h : Readable raw) (iv : Iv) :
    ∃ rules, loadCredentials gcm key (some (saveCredentials gcm key raw iv)) = some rules ∧ rules.raw = raw := by
  obtain ⟨cs, hcs, hraw⟩ := readable_credentials h.credentials
  have hloaded : LoadedRules ⟨cs, raw.pinningBypass, raw.secrets⟩ := ⟨hcs, h.pinningBypass, h.keys, h.proto⟩
  have heq : CredentialRules.raw ⟨cs, raw.pinningBypass, raw.secrets⟩ = raw := by
    unfold CredentialRules.raw
    rw [hraw]
  refine ⟨⟨cs, raw.pinningBypass, raw.secrets⟩, ?_, heq⟩
  rw [load_save, ← heq]
  exact parse_toJson hloaded

/-- An integer from 1 on. -/
def IsCount : JsNumber → Prop
  | .finite x _ => x.den = 1 ∧ 1 ≤ x
  | _ => False

instance : DecidablePred IsCount
  | .nan => inferInstanceAs (Decidable False)
  | .infinity _ => inferInstanceAs (Decidable False)
  | .finite x _ => inferInstanceAs (Decidable (x.den = 1 ∧ 1 ≤ x))

theorem isCount_iff {n : JsNumber} : IsCount n ↔ ∃ k : Nat, 1 ≤ k ∧ IsDouble (k : Int) ∧ ofInt k = n := by
  constructor
  · intro h
    cases n with
    | finite x hx =>
      have hnum : (x.num : Rat) = x := (Rat.den_eq_one_iff x).mp h.1
      have hone : 1 ≤ x.num := by exact_mod_cast hnum.symm ▸ h.2
      have hk : ((x.num.toNat : Nat) : Int) = x.num := Int.toNat_of_nonneg (by omega)
      have hdouble : IsDouble x.num := by
        unfold IsDouble
        rw [hnum]
        exact hx
      refine ⟨x.num.toNat, by omega, by rw [hk]; exact hdouble, ?_⟩
      rw [hk, ofInt_finite hdouble]
      simp only [hnum]
    | _ => exact h.elim
  · rintro ⟨k, hk, hdouble, rfl⟩
    rw [ofInt_finite hdouble]
    exact ⟨Rat.den_intCast _, by exact_mod_cast hk⟩

/-- What the schema asks of the arguments of `addCredential`. -/
def Acceptable (name hostPattern header value : JsString) (rateLimit : Option RawRateLimit) : Prop :=
  (1 ≤ name.length ∧ name.length ≤ 128) ∧ isHostPattern hostPattern = true ∧
    (1 ≤ header.length ∧ header.length ≤ 256) ∧ value ≠ [] ∧
    ∀ r ∈ rateLimit, IsCount r.requests ∧ IsCount r.windowSeconds

theorem readable_rateLimit {r : RawRateLimit} (hrequests : IsCount r.requests) (hwindow : IsCount r.windowSeconds) :
    ∃ l : RateLimitRule, (IsDouble l.requests ∧ IsDouble l.windowSeconds) ∧ l.raw = r := by
  obtain ⟨requests, h1, hd1, heq1⟩ := isCount_iff.mp hrequests
  obtain ⟨windowSeconds, h2, hd2, heq2⟩ := isCount_iff.mp hwindow
  refine ⟨⟨requests, windowSeconds, h1, h2⟩, ⟨hd1, hd2⟩, ?_⟩
  unfold RateLimitRule.raw
  rw [heq1, heq2]

/-- A rule as the calls push one. -/
theorem readable_pushed {name hostPattern header value : JsString} {rateLimit : Option RawRateLimit}
    {m : Option CredentialMethod} :
    ReadableRule ⟨name, hostPattern, header, value, none, rateLimit, none, none, m⟩ ↔
    Acceptable name hostPattern header value rateLimit := by
  constructor
  · rintro ⟨c, hc, heq⟩
    injection heq with hname hhost hheader hvalue _ hrate
    obtain ⟨h1, h2, h3, h4, h5, h6, -⟩ := c.valid
    subst hname hhost hheader hvalue
    refine ⟨⟨h1, h2⟩, h3, ⟨h4, h5⟩, h6, fun r hr => ?_⟩
    rw [← hrate] at hr
    obtain ⟨l, hl, rfl⟩ := Option.map_eq_some_iff.mp hr
    have hdouble := hc.rateLimit l hl
    exact ⟨isCount_iff.mpr ⟨_, l.valid.1, hdouble.1, rfl⟩, isCount_iff.mpr ⟨_, l.valid.2, hdouble.2, rfl⟩⟩
  · rintro ⟨⟨h1, h2⟩, h3, ⟨h4, h5⟩, h6, hrate⟩
    cases rateLimit with
    | none =>
      exact ⟨⟨name, hostPattern, header, value, none, none, none, none, m, h1, h2, h3, h4, h5, h6, nofun⟩,
        ⟨nofun, nofun, nofun, nofun, nofun⟩, rfl⟩
    | some r =>
      obtain ⟨l, hdouble, hraw⟩ := readable_rateLimit (hrate r rfl).1 (hrate r rfl).2
      refine ⟨⟨name, hostPattern, header, value, none, some l, none, none, m, h1, h2, h3, h4, h5, h6, nofun⟩,
        ⟨?_, nofun, nofun, nofun, nofun⟩, ?_⟩
      · rintro l' ⟨⟩
        exact hdouble
      · unfold CredentialRule.raw
        rw [← hraw]
        rfl

/-! ## Edits keep what can be loaded -/

theorem Readable.filter {raw : RawRules} (h : Readable raw) (p : RawRule → Bool) :
    Readable { raw with credentials := raw.credentials.filter p } :=
  ⟨fun r hr => h.credentials r (List.mem_filter.mp hr).1, h.pinningBypass, h.keys, h.proto⟩

theorem Readable.push {raw : RawRules} (h : Readable raw) {r : RawRule} (hr : ReadableRule r) :
    Readable { raw with credentials := raw.credentials ++ [r] } := by
  refine ⟨fun r' hr' => ?_, h.pinningBypass, h.keys, h.proto⟩
  rcases List.mem_append.mp hr' with hr' | hr'
  · exact h.credentials r' hr'
  · rw [List.mem_singleton.mp hr']
    exact hr

theorem Readable.setSecret {raw : RawRules} (h : Readable raw) (name value : JsString) : Readable (setSecret name value raw) := by
  unfold Proxy.setSecret
  by_cases hname : name = protoKey
  · rw [if_pos hname]
    exact h
  · rw [if_neg hname]
    refine ⟨h.credentials, h.pinningBypass, assign_nodup h.keys, fun hin => ?_⟩
    rcases assign_keys hin with heq | hin
    · exact hname heq.symm
    · exact h.proto hin

/-- The rule of a token that is not empty. -/
theorem Migration.readable {m : Migration} (hm : m = .oauthToken ∨ m = .apiKey) {value : JsString} (hvalue : value ≠ []) :
    ReadableRule (m.rule value) := by
  have hne : m.valuePrefix ++ value ≠ [] := fun h => hvalue (List.append_eq_nil_iff.mp h).2
  refine readable_pushed.mpr ⟨?_, ?_, ?_, hne, nofun⟩
  all_goals rcases hm with rfl | rfl <;> decide

theorem Migration.turn_readable {m : Migration} (hm : m = .oauthToken ∨ m = .apiKey) {file : Option (List UInt8)}
    {raw raw' : RawRules}
    (h : Readable raw) (ht : m.turn file raw = some raw') : Readable raw' := by
  unfold Migration.turn at ht
  split at ht
  · cases ht
  · obtain ⟨bytes, -, ht⟩ := Option.bind_eq_some_iff.mp ht
    dsimp only at ht
    split at ht
    · cases ht
    · rename_i hvalue
      obtain rfl := Option.some.inj ht
      exact h.push (Migration.readable hm hvalue)

theorem migrate_readable {oauthToken apiKey : Option (List UInt8)} {raw raw' : RawRules} (h : Readable raw)
    (he : migrateAuthTokens oauthToken apiKey raw = .saved raw') : Readable raw' := by
  unfold migrateAuthTokens at he
  cases hfirst : Migration.oauthToken.turn oauthToken raw with
  | some mid =>
    have hmid := Migration.turn_readable (.inl rfl) h hfirst
    rw [hfirst] at he
    injection he with he
    subst he
    cases hsecond : Migration.apiKey.turn apiKey mid with
    | none => exact hmid
    | some last => exact Migration.turn_readable (.inr rfl) hmid hsecond
  | none =>
    rw [hfirst] at he
    cases hsecond : Migration.apiKey.turn apiKey raw with
    | none =>
      rw [hsecond] at he
      cases he
    | some last =>
      rw [hsecond] at he
      injection he with he
      subst he
      exact Migration.turn_readable (.inr rfl) h hsecond

def Write.Accepted : Write → Prop
  | .addCredential name hostPattern header value rateLimit => Acceptable name hostPattern header value rateLimit
  | _ => True

theorem Write.edit_readable {w : Write} (hw : w.Accepted) {raw raw' : RawRules} (h : Readable raw)
    (he : w.edit raw = .saved raw') :
    Readable raw' := by
  cases w with
  | addCredential name hostPattern header value rateLimit =>
    injection he with he
    subst he
    exact (h.filter _).push (readable_pushed.mpr hw)
  | removeCredential name =>
    unfold Write.edit Proxy.removeCredential at he
    dsimp only at he
    split at he
    · cases he
    · injection he with he
      subst he
      exact h.filter _
  | setSecret name value =>
    injection he with he
    subst he
    exact h.setSecret name value
  | migrateAuthTokens oauthToken apiKey => exact migrate_readable h he

/-! ## Runs -/

/-- Where it gets as far as an edit, `addCredential` has arguments the schema accepts. -/
def Fit (s : VaultState) : Call → Prop
  | .write w _ => (loadCredentials gcm key s.file).isSome → w.Accepted
  | _ => True

variable {gcm key}

theorem vaultStep_loads {s : VaultState} {c : Call} (h : s.Loads gcm key) (hc : Fit gcm key s c) :
    (vaultStep gcm key s c).Loads gcm key := by
  cases c with
  | write w iv =>
    unfold vaultStep
    cases hload : loadCredentials gcm key s.file with
    | none => exact h
    | some rules =>
      have hw : w.Accepted := hc (by rw [hload]; rfl)
      dsimp only
      cases hedit : w.edit rules.raw with
      | thrown => exact h
      | unchanged =>
        rintro raw ⟨⟩
        exact ⟨rules, hload, rfl⟩
      | saved raw =>
        rintro raw ⟨⟩
        exact (w.edit_readable hw (of_load gcm key hload).readable hedit).load gcm key iv
  | save loadedFrom iv =>
    unfold vaultStep
    dsimp only
    cases hload : loadCredentials gcm key loadedFrom with
    | none => exact h
    | some rules =>
      rintro raw ⟨⟩
      exact (of_load gcm key hload).readable.load gcm key iv
  | failed left => exact nofun

theorem not_loads {s : VaultState} {c : Call} (hc : ¬Fit gcm key s c) : ¬(vaultStep gcm key s c).Loads gcm key := by
  cases c with
  | write w iv =>
    obtain ⟨hsome, hw⟩ := Classical.not_imp.mp hc
    obtain ⟨rules, hload⟩ := Option.isSome_iff_exists.mp hsome
    cases w with
    | addCredential name hostPattern header value rateLimit =>
      unfold vaultStep
      rw [hload]
      intro h
      obtain ⟨read, hread, hraw⟩ := h _ rfl
      have hlast : ReadableRule ⟨name, hostPattern, header, value, none, rateLimit, none, none, none⟩ := by
        refine (of_load gcm key hread).readable.credentials _ ?_
        rw [hraw]
        exact List.mem_append_right _ (List.mem_singleton_self _)
      exact hw (readable_pushed.mp hlast)
    | _ => exact absurd trivial hw
  | _ => exact absurd trivial hc

variable (gcm key)

theorem loads_what_was_saved :
    (∀ file t, Reach (vault gcm key file) (Fit gcm key) t → t.Loads gcm key) ∧
      ∀ file s c t, (vault gcm key file).step s c = some t → ¬Fit gcm key s c → ¬t.Loads gcm key := by
  constructor
  · intro file t ht
    refine ht.inv (I := fun s => s.Loads gcm key) nofun fun s c t _ hs hc hst => ?_
    obtain rfl := Option.some.inj hst
    exact vaultStep_loads hs hc
  · intro file s c t hst hc
    obtain rfl := Option.some.inj hst
    exact not_loads hc

/-- A cipher that changes nothing. -/
def Gcm.plain : Gcm where
  cipher _ _ plaintext := (plaintext, List.replicate authTagLength 0)
  decipher _ _ _ ciphertext := some ciphertext
  inverse _ _ _ := rfl
  tag_length _ _ _ := rfl

def zeroIv : Iv := ⟨List.replicate ivLength 0, rfl⟩

/-- `addCredential('github', 'https://api.github.com', 'Authorization', 'token x')`. -/
def addUrl : Write :=
  .addCredential (ofString "github") (ofString "https://api.github.com") (ofString "Authorization") (ofString "token x") none

theorem a_url_closes_the_vault :
    ∃ t, Reach (vault .plain [] none) Free t ∧ t.saved.isSome ∧ loadCredentials .plain [] t.file = none ∧ ¬t.Loads .plain [] := by
  have hfile : loadCredentials .plain [] (vaultStep .plain [] ⟨none, none⟩ (.write addUrl zeroIv)).file = none := by
    have hread : (match addUrl.edit CredentialRules.empty.raw with
        | .saved raw => parseCredentialRules (Json.reread raw.toJson)
        | _ => some .empty).isNone = true := by decide
    exact (load_save .plain [] _ zeroIv).trans (Option.isNone_iff_eq_none.mp hread)
  refine ⟨vaultStep .plain [] ⟨none, none⟩ (.write addUrl zeroIv), .step _ .init trivial rfl, rfl, hfile, fun h => ?_⟩
  obtain ⟨rules, hload, -⟩ := h _ rfl
  rw [hfile] at hload
  cases hload

end FlowHelm.Proxy
