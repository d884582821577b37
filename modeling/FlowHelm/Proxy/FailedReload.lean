/-
  FlowHelm.Proxy.FailedReload — a SIGHUP at which the credentials file cannot be read.

  loadCredentialRules makes no rules of every failure, as at the first start. The handler's own
  catch is never come to: what was loaded replaces the rules, the limiter, the rotator's counts
  and the bypass set.

  - `failed_reload_keeps`: a failed reload keeps them just if there was nothing to keep.
  - `a_missing_file_removes_the_rules`: the file is gone, and so are the rules.
-/
import FlowHelm.Proxy.RateBound

namespace FlowHelm.Proxy

open Js

/-- What later requests are handled with is what it was. -/
structure Kept (s t : Server) : Prop where
  credentials : t.credentials = s.credentials
  rateLimiter : t.rateLimiter = s.rateLimiter
  keyRotator : t.keyRotator = s.keyRotator
  pinningBypass : t.pinningBypassSet = s.pinningBypassSet

/-- There is nothing to lose. -/
structure Bare (s : Server) : Prop where
  credentials : s.credentials = []
  rateLimiter : s.rateLimiter = ∅
  keyRotator : s.keyRotator = some ∅
  pinningBypass : s.pinningBypassSet = []

/-- What the file is found to be, where it does not give rules. -/
structure BadFile (decipher : Decipher) (keyHex : List Char) where
  file : Option (List UInt8)
  fails : readCredentialRules decipher keyHex file = none

variable {decipher : Decipher} {keyHex : List Char}

/-- It is missing or unreadable, not to be decrypted, no JSON, or not of the schema. -/
theorem fails_iff {file : Option (List UInt8)} : readCredentialRules decipher keyHex file = none ↔
    file = none ∨ ∃ encryptedData, file = some encryptedData ∧ (decrypt decipher encryptedData (fromHex keyHex) = none ∨
      ∃ decrypted, decrypt decipher encryptedData (fromHex keyHex) = some decrypted ∧
        (Json.parse (String.ofList (Utf8.decode decrypted)) = none ∨
          ∃ json, Json.parse (String.ofList (Utf8.decode decrypted)) = some json ∧ parseCredentialRules json = none)) := by
  unfold readCredentialRules
  cases file with
  | none => simp
  | some encryptedData =>
    cases hdecrypted : decrypt decipher encryptedData (fromHex keyHex) with
    | none => simp [hdecrypted]
    | some decrypted =>
      cases hjson : Json.parse (String.ofList (Utf8.decode decrypted)) with
      | none => simp [hdecrypted, hjson]
      | some json => simp [hdecrypted, hjson]

/-- A failure is an empty rule set. -/
theorem load_fails (f : BadFile decipher keyHex) : loadCredentialRules decipher keyHex f.file = .empty := by
  unfold loadCredentialRules
  split
  · rfl
  · rw [f.fails]
    rfl

theorem sighup_empty (s : Server) : (s.sighup .empty).credentials = [] ∧ (s.sighup .empty).rateLimiter = ∅ ∧
    (s.sighup .empty).keyRotator = some ∅ ∧ (s.sighup .empty).pinningBypassSet = [] := ⟨rfl, rfl, rfl, rfl⟩

/-- A failed reload keeps the state just if that is empty already. -/
theorem failed_reload_keeps (decipher : Decipher) (keyHex : List Char) (f : BadFile decipher keyHex) (s : Server) :
    Kept s (s.sighup (loadCredentialRules decipher keyHex f.file)) ↔ Bare s := by
  obtain ⟨hcredentials, hlimiter, hrotator, hbypass⟩ := sighup_empty s
  rw [load_fails f]
  constructor
  · intro h
    exact ⟨h.credentials.symm.trans hcredentials, h.rateLimiter.symm.trans hlimiter, h.keyRotator.symm.trans hrotator,
      h.pinningBypass.symm.trans hbypass⟩
  · intro h
    exact ⟨hcredentials.trans h.credentials.symm, hlimiter.trans h.rateLimiter.symm, hrotator.trans h.keyRotator.symm,
      hbypass.trans h.pinningBypass.symm⟩

theorem a_missing_file_removes_the_rules : ¬Kept limitedProxy.init.server
    (limitedProxy.init.server.sighup (loadCredentialRules (fun _ _ _ ciphertext => some ciphertext) ['0', '0'] none)) := by
  intro h
  cases h.credentials

end FlowHelm.Proxy
