/-
  FlowHelm.AuthBridge.Tokens — token.ts: the short tokens of sessions, drawn from random bytes.

  The bytes that randomBytes hands out are one list, the calls take theirs from its front; where it
  is too short the call is not answered yet. Whether a token is in use does not change while one
  is drawn.

  - `drawn_evenly`: a token that is drawn is not in use, and each that is not is drawn as often as
    any other of all bytes there can be.
  - `generateUniqueToken_drawn`: so are the tokens the Node server opens sessions under.
-/
import Mathlib.Data.List.Nodup
import FlowHelm.AuthBridge.Store
import FlowHelm.Lib.Rejection

namespace FlowHelm.AuthBridge.Tokens

open Js Rejection SessionStore

/-- SAFE_ALPHABET. -/
def safeAlphabet : JsString := ofString "23456789ABCDEFGHJKLMNPQRSTUVWXYZabcdefghijkmnpqrstuvwxyz"

def tokenLength : Nat := 5

/-- REJECT_THRESHOLD, the largest multiple of 56 in a byte. -/
def rejectThreshold : Nat := 224

theorem safeAlphabet_length : safeAlphabet.length = 56 := by decide

theorem safeAlphabet_nodup : safeAlphabet.Nodup := by decide +kernel

/-- The place of a character in the alphabet. -/
abbrev Place := Fin 56

def Place.char (p : Place) : UInt16 := safeAlphabet.get (p.cast safeAlphabet_length.symm)

theorem char_injective : Function.Injective Place.char := by
  intro p q h
  exact Fin.cast_injective _ (List.nodup_iff_injective_get.mp safeAlphabet_nodup h)

/-- `if (byte < REJECT_THRESHOLD)`, and `byte % SAFE_ALPHABET.length`. -/
def place (byte : UInt8) : Option Place :=
  if byte.toNat < rejectThreshold then some ⟨byte.toNat % 56, Nat.mod_lt _ (by decide)⟩ else none

/-- The byte for another place, that many times round the alphabet. -/
def byteFor (p : Place) (byte : UInt8) : UInt8 := UInt8.ofNat (byte.toNat / 56 * 56 + p)

theorem byteFor_toNat {p q : Place} {byte : UInt8} (h : place byte = some q) :
    (byteFor p byte).toNat = byte.toNat / 56 * 56 + p := by
  unfold place at h
  split at h
  · rename_i hlow
    unfold rejectThreshold at hlow
    have hp := p.isLt
    rw [byteFor, UInt8.toNat_ofNat', Nat.mod_eq_of_lt (by omega)]
  · cases h

/-- The bytes for the places: of each the same number. -/
def letters : Code Place UInt8 where
  letter := place
  spell := byteFor
  letter_spell := by
    intro p q byte h
    have hbyte := byteFor_toNat (p := p) h
    have hp := p.isLt
    unfold place at h
    split at h
    · rename_i hlow
      unfold rejectThreshold at hlow
      have hstill : (byteFor p byte).toNat < rejectThreshold := by
        unfold rejectThreshold
        omega
      rw [place, if_pos hstill]
      exact congrArg some (Fin.ext (by simp only [hbyte]; omega))
    · cases h
  spell_letter := by
    intro p byte h
    refine UInt8.toNat_inj.mp ?_
    rw [byteFor_toNat h]
    unfold place at h
    split at h
    · obtain rfl := Option.some.inj h
      exact Nat.div_add_mod' _ _
    · cases h
  spell_spell := by
    intro p q r byte h
    have hbyte := byteFor_toNat (p := q) h
    have hq := q.isLt
    have hround : (byteFor q byte).toNat / 56 = byte.toNat / 56 := by omega
    rw [byteFor, hround, byteFor]

/-! ## Drawing -/

def text (places : List Place) : JsString := places.map Place.char

/-- The token, and the bytes that are left; four bytes more than characters are missing come at a
    time. -/
def generateRawToken (random : List UInt8) : Option (JsString × List UInt8) :=
  (draw letters tokenLength 4 [] random).map fun drawn => (text drawn.1, drawn.2)

/-- `none` where all that were drawn are in use, which is thrown. -/
def generateUniqueToken (existsFn : JsString → Bool) (random : List UInt8) : Option JsString :=
  (drawUnused letters tokenLength 4 (fun places => existsFn (text places)) maxRetries random).map text

structure IsToken (token : JsString) : Prop where
  length : token.length = tokenLength
  safe : ∀ unit ∈ token, unit ∈ safeAlphabet

theorem text_injective : Function.Injective text := List.map_injective_iff.mpr char_injective

theorem isToken_iff {token : JsString} : IsToken token ↔ ∃ places : List Place, places.length = tokenLength ∧
    text places = token := by
  constructor
  · intro h
    have hplaces : ∀ l : JsString, (∀ unit ∈ l, unit ∈ safeAlphabet) → ∃ places, text places = l := by
      intro l hl
      induction l with
      | nil => exact ⟨[], rfl⟩
      | cons unit l ih =>
        obtain ⟨places, hplaces⟩ := ih fun u hu => hl u (List.mem_cons_of_mem _ hu)
        obtain ⟨i, hi⟩ := List.mem_iff_get.mp (hl unit (List.mem_cons_self ..))
        refine ⟨i.cast safeAlphabet_length :: places, ?_⟩
        rw [text, List.map_cons, ← text, hplaces]
        exact congrArg (· :: l) hi
    obtain ⟨places, hplaces⟩ := hplaces token h.safe
    refine ⟨places, ?_, hplaces⟩
    rw [← h.length, ← hplaces, text, List.length_map]
  · rintro ⟨places, hlength, rfl⟩
    refine ⟨by rw [text, List.length_map, hlength], fun unit hunit => ?_⟩
    obtain ⟨p, -, rfl⟩ := List.mem_map.mp hunit
    exact List.get_mem _ _

instance fintypeByte : Fintype UInt8 := Fintype.ofEquiv (Fin 256) ⟨UInt8.ofFin, UInt8.toFin, fun _ => rfl, fun _ => rfl⟩

/-- A token that can be drawn. -/
structure Unused (existsFn : JsString → Bool) (token : JsString) : Prop extends IsToken token where
  free : existsFn token = false

variable {existsFn : JsString → Bool}

/-- What is drawn, as places. -/
theorem drawn_iff {places : List Place} {random : List UInt8} :
    generateUniqueToken existsFn random = some (text places) ↔
      drawUnused letters tokenLength 4 (fun places => existsFn (text places)) maxRetries random = some places := by
  rw [generateUniqueToken, Option.map_eq_some_iff]
  constructor
  · rintro ⟨drawn, hdrawn, htext⟩
    rw [hdrawn, text_injective htext]
  · exact fun h => ⟨places, h, rfl⟩

theorem drawn_unused {token : JsString} {random : List UInt8} (h : generateUniqueToken existsFn random = some token) :
    Unused existsFn token := by
  obtain ⟨places, hplaces, rfl⟩ := Option.map_eq_some_iff.mp h
  obtain ⟨hlength, hfree⟩ := drawUnused_length hplaces
  exact ⟨isToken_iff.mpr ⟨places, hlength, rfl⟩, hfree⟩

variable (existsFn) in
/-- The byte streams that a token comes from. -/
def streams (size : Nat) (token : JsString) : Finset (List.Vector UInt8 size) :=
  Finset.univ.filter fun random => generateUniqueToken existsFn random.toList = some token

theorem streams_text (size : Nat) (places : List Place) : streams existsFn size (text places) =
    Finset.univ.filter fun random : List.Vector UInt8 size =>
      drawUnused letters tokenLength 4 (fun places => existsFn (text places)) maxRetries random.toList = some places :=
  Finset.filter_congr fun _ _ => drawn_iff

/-- Nine bytes are enough for a token. -/
theorem drawn_of_nine {token : JsString} (h : Unused existsFn token) {size : Nat} (hsize : 9 ≤ size) :
    (streams existsFn size token).Nonempty := by
  obtain ⟨places, hlength, rfl⟩ := isToken_iff.mp h.toIsToken
  -- nine zeros are a token, and so is what they are respelt to
  have hzeros : draw letters tokenLength 4 [] (List.replicate size (0 : UInt8)) =
      some ((List.replicate 9 (0 : UInt8)).foldl (push letters tokenLength) [], List.replicate (size - 9) 0) := by
    have hfull : ¬((List.replicate 9 (0 : UInt8)).foldl (push letters tokenLength) []).length < tokenLength := by decide
    have hbatch : tokenLength - ([] : List Place).length + 4 = 9 := rfl
    rw [draw, hbatch, if_pos (by decide), List.length_replicate, if_pos hsize, List.take_replicate, List.drop_replicate,
      Nat.min_eq_left hsize, draw, if_neg hfull]
  have hspelt := draw_respell hzeros (w := []) (v := places) rfl (by simpa using hlength)
  refine ⟨⟨respell letters places (List.replicate size 0), by rw [length_respell, List.length_replicate]⟩,
    Finset.mem_filter.mpr ⟨Finset.mem_univ _, drawn_iff.mpr ?_⟩⟩
  have hfree : ¬existsFn (text places) = true := by simp [h.free]
  show drawUnused letters tokenLength 4 _ maxRetries (respell letters places (List.replicate size 0)) = _
  rw [maxRetries, drawUnused, hspelt]
  exact if_neg hfree

/-- A token comes from as many byte streams as any other that is not in use, from nine bytes on
    from some; nothing else comes from any. -/
structure DrawnEvenly (existsFn : JsString → Bool) (size : Nat) (token : JsString) : Prop where
  drawn : 9 ≤ size → 0 < (streams existsFn size token).card
  evenly : ∀ other, Unused existsFn other → (streams existsFn size other).card = (streams existsFn size token).card
  only : ∀ other, ¬Unused existsFn other → streams existsFn size other = ∅

theorem drawn_evenly {token : JsString} (h : Unused existsFn token) (size : Nat) : DrawnEvenly existsFn size token where
  drawn := fun hsize => Finset.card_pos.mpr (drawn_of_nine h hsize)
  evenly := fun other hother => by
    obtain ⟨places, hlength, rfl⟩ := isToken_iff.mp h.toIsToken
    obtain ⟨places', hlength', rfl⟩ := isToken_iff.mp hother.toIsToken
    rw [streams_text, streams_text]
    exact card_drawUnused (fun places => existsFn (text places)) maxRetries size ⟨hlength', hother.free⟩ ⟨hlength, h.free⟩
  only := fun other hother => Finset.filter_eq_empty_iff.mpr fun _ _ hdrawn => hother (drawn_unused hdrawn)

theorem drawn_evenly_beside_twos : DrawnEvenly (· == ofString "22222") 12 (ofString "abcde") :=
  drawn_evenly ⟨⟨by decide, by decide⟩, by decide⟩ 12

/-! ## The server -/

/-- The tokens of so many draws. -/
def draws : Nat → List UInt8 → List JsString
  | 0, _ => []
  | tries + 1, random => match generateRawToken random with
    | some (token, rest) => token :: draws tries rest
    | none => []

theorem live_get {sessions : Sessions} {now : Nat} (token other : JsString) :
    live (get sessions now token).1 now other = live sessions now other := by
  have hdrops := get_drops sessions now token
  cases hlive : live sessions now other with
  | some d =>
    obtain ⟨hlookup, htime⟩ := live_some.mp hlive
    exact live_some.mpr ⟨hdrops.kept other d hlookup htime, htime⟩
  | none =>
    refine Option.eq_none_iff_forall_ne_some.mpr fun d hd => ?_
    obtain ⟨hlookup, htime⟩ := live_some.mp hd
    rw [live_some.mpr ⟨hdrops.old other d hlookup, htime⟩] at hlive
    cases hlive

/-- The server finds what is drawn. -/
theorem generateUniqueToken_drawn (sessions : Sessions) (now : Nat) (random : List UInt8) :
    (AuthBridge.generateUniqueToken sessions now (draws maxRetries random)).2 =
      generateUniqueToken (fun token => (live sessions now token).isSome) random := by
  rw [generateUniqueToken]
  generalize maxRetries = tries
  induction tries generalizing sessions random with
  | zero => rfl
  | succ tries ih =>
    rw [draws, generateRawToken, drawUnused]
    cases hdraw : draw letters tokenLength 4 [] random with
    | none => rfl
    | some drawn =>
      obtain ⟨places, rest⟩ := drawn
      dsimp only [Option.map_some]
      rw [AuthBridge.generateUniqueToken, SessionStore.has, get_value]
      cases hlive : live sessions now (text places) with
      | none => rfl
      | some d =>
        dsimp only [Option.isSome_some]
        rw [if_pos rfl, ih]
        simp only [live_get]

end FlowHelm.AuthBridge.Tokens
