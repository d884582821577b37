/-
  FlowHelm.Lib.UrlCase — ASCII case in a URL: which host it names does not depend on it.

  What reads a URL does not tell capitals from small letters (`Blind`), up to the scheme and the
  host, where it makes small letters of them or leaves them.

  - `Blind.of_letters`: what is the same for all letters is blind.
  - `eq_of_no_letter` / `exists_other`: what can be written in another case has a letter.
  - `parse_case`: two texts that differ in case name hosts that differ at most in case.
-/
import FlowHelm.Lib.Url

namespace Url

open Js

def lowerUnit (u : UInt16) : UInt16 := if 0x41 ≤ u ∧ u ≤ 0x5A then u + 0x20 else u

/-- Does not tell capitals from small letters. -/
def Blind (p : UInt16 → Bool) : Prop := ∀ u, p (lowerUnit u) = p u

theorem isAlpha_iff {u : UInt16} : isAlpha u = true ↔ (65 ≤ u.toNat ∧ u.toNat ≤ 90) ∨ (97 ≤ u.toNat ∧ u.toNat ≤ 122) := by
  unfold isAlpha
  simp [UInt16.le_iff_toNat_le]

theorem lowerUnit_cases (u : UInt16) : lowerUnit u = u ∨
    (isAlpha u = true ∧ isAlpha (lowerUnit u) = true ∧ lowerUnit (lowerUnit u) = lowerUnit u) := by
  by_cases hcapital : 0x41 ≤ u ∧ u ≤ 0x5A
  · have hlower : lowerUnit u = u + 0x20 := if_pos hcapital
    obtain ⟨hlow, hhigh⟩ := hcapital
    rw [UInt16.le_iff_toNat_le] at hlow hhigh
    have hlow : 65 ≤ u.toNat := hlow
    have hhigh : u.toNat ≤ 90 := hhigh
    have hsum : (u + 0x20).toNat = u.toNat + 32 := by
      rw [UInt16.toNat_add]
      show (u.toNat + 32) % 65536 = _
      omega
    refine .inr ⟨isAlpha_iff.mpr (.inl ⟨hlow, hhigh⟩), ?_, ?_⟩
    · rw [hlower, isAlpha_iff, hsum]
      exact .inr ⟨by omega, by omega⟩
    · rw [hlower]
      refine if_neg fun hagain => ?_
      have hle : (u + 0x20).toNat ≤ 90 := UInt16.le_iff_toNat_le.mp hagain.2
      omega
  · exact .inl (if_neg hcapital)

theorem asciiLower_eq (s : JsString) : asciiLower s = s.map lowerUnit := rfl

theorem asciiLower_nil {s : JsString} : asciiLower s = [] ↔ s = [] := List.map_eq_nil_iff

theorem length_asciiLower (s : JsString) : (asciiLower s).length = s.length := List.length_map _

theorem asciiLower_append (s t : JsString) : asciiLower (s ++ t) = asciiLower s ++ asciiLower t := List.map_append

theorem asciiLower_idem (s : JsString) : asciiLower (asciiLower s) = asciiLower s := by
  rw [asciiLower_eq, asciiLower_eq, List.map_map]
  refine List.map_congr_left fun u _ => ?_
  rcases lowerUnit_cases u with heq | ⟨-, -, heq⟩
  · show lowerUnit (lowerUnit u) = lowerUnit u
    rw [heq, heq]
  · exact heq

/-! ## What is blind -/

/-- What is the same for all letters. -/
theorem Blind.of_letters {p : UInt16 → Bool} (b : Bool) (h : ∀ u, isAlpha u = true → p u = b) : Blind p := by
  intro u
  rcases lowerUnit_cases u with heq | ⟨halpha, hlower, -⟩
  · rw [heq]
  · rw [h _ hlower, h u halpha]

theorem letter_ne {u c : UInt16} (h : isAlpha u = true) (hc : isAlpha c = false) : u ≠ c := by
  rintro rfl
  rw [h] at hc
  cases hc

theorem Blind.ne {c : UInt16} (h : isAlpha c = false) : Blind (· != c) :=
  .of_letters true fun _ hu => bne_iff_ne.mpr (letter_ne hu h)

theorem Blind.eq {c : UInt16} (h : isAlpha c = false) : Blind (· == c) :=
  .of_letters false fun _ hu => beq_false_of_ne (letter_ne hu h)

theorem Blind.mem {cs : List UInt16} (h : ∀ c ∈ cs, isAlpha c = false) : Blind fun u => decide (u ∈ cs) :=
  .of_letters false fun u hu => decide_eq_false fun hmem => letter_ne hu (h u hmem) rfl

theorem Blind.not {p : UInt16 → Bool} (h : Blind p) : Blind fun u => !p u := fun u => congrArg _ (h u)

theorem Blind.or {p q : UInt16 → Bool} (hp : Blind p) (hq : Blind q) : Blind fun u => p u || q u := by
  intro u
  show (p (lowerUnit u) || q (lowerUnit u)) = _
  rw [hp u, hq u]

theorem Blind.and {p q : UInt16 → Bool} (hp : Blind p) (hq : Blind q) : Blind fun u => p u && q u := by
  intro u
  show (p (lowerUnit u) && q (lowerUnit u)) = _
  rw [hp u, hq u]

theorem blind_alpha : Blind isAlpha := .of_letters true fun _ hu => hu

theorem letter_not_digit {u : UInt16} (h : isAlpha u = true) : isDigit u = false := by
  have hletter := isAlpha_iff.mp h
  rw [← Bool.not_eq_true]
  intro hdigit
  have hle : u.toNat ≤ 57 := UInt16.le_iff_toNat_le.mp (of_decide_eq_true ((Bool.and_eq_true ..).mp hdigit).2)
  omega

theorem blind_digit : Blind isDigit := .of_letters false fun _ => letter_not_digit

theorem blind_space : Blind fun u => decide (u ≤ 0x20) := by
  refine .of_letters false fun u hu => decide_eq_false fun hspace => ?_
  have hletter := isAlpha_iff.mp hu
  have hle : u.toNat ≤ 32 := UInt16.le_iff_toNat_le.mp hspace
  omega

theorem blind_colon : Blind (· != colon) := .ne (by decide)

theorem blind_lineEnd : Blind fun u => u != 0x09 && u != 0x0A && u != 0x0D :=
  ((Blind.ne (by decide)).and (.ne (by decide))).and (.ne (by decide))

theorem blind_scheme : Blind fun u => isAlpha u || isDigit u || decide (u ∈ [0x2B, 0x2D, 0x2E]) :=
  (blind_alpha.or blind_digit).or (.mem (by decide))

theorem blind_forbidden : Blind isForbidden := .mem (by decide)

theorem blind_sep (k : Kind) : Blind (isSep k) := by
  cases k
  · exact (Blind.eq (by decide)).or (.eq (by decide))
  · exact (Blind.eq (by decide)).or (.eq (by decide))
  · exact (Blind.eq (by decide)).or fun _ => rfl

theorem letter_not_surrogate {u : UInt16} (h : isAlpha u = true) : isHighSurrogate u = false ∧ isLowSurrogate u = false := by
  have hletter := isAlpha_iff.mp h
  unfold isHighSurrogate isLowSurrogate
  rw [← Bool.not_eq_true, ← Bool.not_eq_true]
  constructor
  · intro hhigh
    have hle : 0xD800 ≤ u.toNat := UInt16.le_iff_toNat_le.mp (of_decide_eq_true ((Bool.and_eq_true ..).mp hhigh).1)
    omega
  · intro hlow
    have hle : 0xDC00 ≤ u.toNat := UInt16.le_iff_toNat_le.mp (of_decide_eq_true ((Bool.and_eq_true ..).mp hlow).1)
    omega

theorem blind_high : Blind isHighSurrogate := .of_letters false fun _ hu => (letter_not_surrogate hu).1

theorem blind_low : Blind isLowSurrogate := .of_letters false fun _ hu => (letter_not_surrogate hu).2

section
variable {p : UInt16 → Bool} (h : Blind p)
include h

theorem Blind.comp : p ∘ lowerUnit = p := funext h

theorem Blind.takeWhile (s : JsString) : (asciiLower s).takeWhile p = asciiLower (s.takeWhile p) := by
  rw [asciiLower_eq, asciiLower_eq, List.takeWhile_map, h.comp]

theorem Blind.dropWhile (s : JsString) : (asciiLower s).dropWhile p = asciiLower (s.dropWhile p) := by
  rw [asciiLower_eq, asciiLower_eq, List.dropWhile_map, h.comp]

theorem Blind.filter (s : JsString) : (asciiLower s).filter p = asciiLower (s.filter p) := by
  rw [asciiLower_eq, asciiLower_eq, List.filter_map, h.comp]

theorem Blind.any (s : JsString) : (asciiLower s).any p = s.any p := by
  rw [asciiLower_eq, List.any_map, h.comp]

theorem Blind.all (s : JsString) : (asciiLower s).all p = s.all p := by
  rw [asciiLower_eq, List.all_map, h.comp]

theorem Blind.head (s : JsString) : (asciiLower s).head?.any p = s.head?.any p := by
  rw [asciiLower_eq, List.head?_map]
  cases s.head? with
  | none => rfl
  | some u => exact h u

end

theorem asciiLower_reverse (s : JsString) : (asciiLower s).reverse = asciiLower s.reverse := List.map_reverse.symm

theorem asciiLower_drop (n : Nat) (s : JsString) : (asciiLower s).drop n = asciiLower (s.drop n) := List.map_drop.symm

theorem cut_lower {u : UInt16} (h : Blind (· != u)) (s : JsString) :
    cut u (asciiLower s) = (asciiLower (cut u s).1, (cut u s).2.map asciiLower) := by
  unfold cut
  dsimp only
  rw [h.takeWhile, length_asciiLower, length_asciiLower, asciiLower_drop]
  split
  · rfl
  · rfl

theorem splitOnP_lower {p : UInt16 → Bool} (h : Blind p) (s : JsString) :
    (asciiLower s).splitOnP p = (s.splitOnP p).map asciiLower := by
  induction s with
  | nil => rfl
  | cons u s ih =>
    have hlower : asciiLower (u :: s) = lowerUnit u :: asciiLower s := rfl
    rw [hlower, List.splitOnP_cons_eq_if_modifyHead, List.splitOnP_cons_eq_if_modifyHead, h u, ih]
    split
    · rfl
    · cases s.splitOnP p with
      | nil => rfl
      | cons piece pieces => rfl

/-- What is in front of the first separator. -/
theorem headD_splitOnP (p : UInt16 → Bool) (s : JsString) : (s.splitOnP p).headD [] = s.takeWhile fun u => !p u := by
  induction s with
  | nil => rfl
  | cons u s ih =>
    rw [List.splitOnP_cons_eq_if_modifyHead, List.takeWhile_cons]
    cases hp : p u with
    | true => rfl
    | false =>
      rw [if_neg Bool.false_ne_true, Bool.not_false, if_pos rfl, ← ih]
      cases hpieces : s.splitOnP p with
      | nil => exact absurd hpieces (List.splitOnP_ne_nil _ _)
      | cons piece pieces => rfl

/-! ## Letters -/

def hasLetter (s : JsString) : Bool := s.any isAlpha

theorem hasLetter_lower (s : JsString) : hasLetter (asciiLower s) = hasLetter s := blind_alpha.any s

theorem hasLetter_case {a b : JsString} (h : asciiLower a = asciiLower b) : hasLetter a = hasLetter b := by
  rw [← hasLetter_lower a, h, hasLetter_lower b]

theorem asciiLower_of_no_letter {s : JsString} (h : hasLetter s = false) : asciiLower s = s := by
  refine (List.map_congr_left fun u hu => ?_).trans (List.map_id s)
  rcases lowerUnit_cases u with heq | ⟨halpha, -, -⟩
  · exact heq
  · exact absurd halpha (List.any_eq_false.mp h u hu)

/-- Without letters there is one way to write a text. -/
theorem eq_of_no_letter {a b : JsString} (h : asciiLower a = asciiLower b) (hb : hasLetter b = false) : a = b := by
  have ha : hasLetter a = false := (hasLetter_case h).trans hb
  rw [← asciiLower_of_no_letter ha, h, asciiLower_of_no_letter hb]

theorem exists_other_unit {u : UInt16} (h : isAlpha u = true) : ∃ v, lowerUnit v = lowerUnit u ∧ v ≠ u := by
  by_cases hlower : lowerUnit u = u
  · -- a small letter
    have hsmall : 97 ≤ u.toNat ∧ u.toNat ≤ 122 := by
      rcases isAlpha_iff.mp h with hcapital | hsmall
      · have hsum : lowerUnit u = u + 0x20 :=
          if_pos ⟨UInt16.le_iff_toNat_le.mpr hcapital.1, UInt16.le_iff_toNat_le.mpr hcapital.2⟩
        rw [hsum] at hlower
        have hnat := congrArg UInt16.toNat hlower
        rw [UInt16.toNat_add] at hnat
        have hnat : (u.toNat + 32) % 65536 = u.toNat := hnat
        omega
      · exact hsmall
    have hsub : (u - 0x20).toNat = u.toNat - 32 := UInt16.toNat_sub_of_le _ _ (UInt16.le_iff_toNat_le.mpr (by
      show 32 ≤ u.toNat
      omega))
    refine ⟨u - 0x20, ?_, fun heq => ?_⟩
    · rw [hlower]
      have hcapital : 0x41 ≤ u - 0x20 ∧ u - 0x20 ≤ 0x5A := by
        rw [UInt16.le_iff_toNat_le, UInt16.le_iff_toNat_le, hsub]
        show 65 ≤ u.toNat - 32 ∧ u.toNat - 32 ≤ 90
        omega
      exact (if_pos hcapital).trans (UInt16.sub_add_cancel ..)
    · have hnat := congrArg UInt16.toNat heq
      omega
  · rcases lowerUnit_cases u with heq | ⟨-, -, hidem⟩
    · exact absurd heq hlower
    · exact ⟨lowerUnit u, hidem, hlower⟩

/-- With a letter there is another. -/
theorem exists_other {s : JsString} (h : hasLetter s = true) : ∃ t, asciiLower t = asciiLower s ∧ t ≠ s := by
  induction s with
  | nil => cases h
  | cons u s ih =>
    by_cases hu : isAlpha u = true
    · obtain ⟨v, hv, hne⟩ := exists_other_unit hu
      refine ⟨v :: s, ?_, fun heq => hne (List.cons.inj heq).1⟩
      show lowerUnit v :: asciiLower s = lowerUnit u :: asciiLower s
      rw [hv]
    · have hs : hasLetter s = true := ((Bool.or_eq_true ..).mp h).resolve_left hu
      obtain ⟨t, ht, hne⟩ := ih hs
      refine ⟨u :: t, ?_, fun heq => hne (List.cons.inj heq).2⟩
      show lowerUnit u :: asciiLower t = lowerUnit u :: asciiLower s
      rw [ht]

/-! ## Hosts -/

theorem encodeUnit_letter {u : UInt16} (h : isAlpha u = true) : encodeUnit c0Set u = [u] := by
  have hletter := isAlpha_iff.mp h
  have hascii : u < 0x80 := by
    rw [UInt16.lt_iff_toNat_lt]
    show u.toNat < 128
    omega
  have hkept : c0Set u = false := by
    unfold c0Set
    rw [Bool.or_eq_false_iff]
    constructor
    · refine decide_eq_false fun hlt => ?_
      have hlt : u.toNat < 32 := UInt16.lt_iff_toNat_lt.mp hlt
      omega
    · refine decide_eq_false fun hlt => ?_
      have hlt : 126 < u.toNat := UInt16.lt_iff_toNat_lt.mp hlt
      omega
  unfold encodeUnit
  rw [decide_eq_true hascii, hkept]
  rfl

theorem encodeUnit_lower (u : UInt16) :
    asciiLower (encodeUnit c0Set (lowerUnit u)) = asciiLower (encodeUnit c0Set u) := by
  rcases lowerUnit_cases u with heq | ⟨halpha, hlower, hidem⟩
  · rw [heq]
  · rw [encodeUnit_letter halpha, encodeUnit_letter hlower, asciiLower_eq, asciiLower_eq, List.map_singleton, List.map_singleton,
      hidem]

/-- A half of a pair is no letter. -/
theorem lowerUnit_surrogate {u : UInt16} (h : isHighSurrogate u = true ∨ isLowSurrogate u = true) : lowerUnit u = u := by
  rcases lowerUnit_cases u with heq | ⟨halpha, -, -⟩
  · exact heq
  · obtain ⟨hhigh, hlow⟩ := letter_not_surrogate halpha
    rw [hhigh, hlow] at h
    simp at h

theorem encode_lower (s : JsString) : asciiLower (encode c0Set (asciiLower s)) = asciiLower (encode c0Set s) := by
  fun_induction encode c0Set s with
  | case1 => rfl
  | case2 u => exact encodeUnit_lower u
  | case3 u v rest hpair ih =>
    obtain ⟨hhigh, hlow⟩ := (Bool.and_eq_true ..).mp hpair
    have hlower : asciiLower (u :: v :: rest) = u :: v :: asciiLower rest := by
      rw [asciiLower_eq, List.map_cons, List.map_cons, lowerUnit_surrogate (.inl hhigh), lowerUnit_surrogate (.inr hlow)]
      rfl
    rw [hlower, encode, if_pos hpair, asciiLower_append, asciiLower_append, ih]
  | case4 u v rest hpair ih =>
    have hlower : asciiLower (u :: v :: rest) = lowerUnit u :: lowerUnit v :: asciiLower rest := rfl
    have htail : asciiLower (v :: rest) = lowerUnit v :: asciiLower rest := rfl
    rw [hlower, encode, blind_high u, blind_low v, if_neg hpair, ← htail, asciiLower_append, asciiLower_append, ih,
      encodeUnit_lower]

theorem parseHost_lower (hosts : HostParser) (k : Kind) (text : JsString) :
    (parseHost hosts k (asciiLower text)).map asciiLower = (parseHost hosts k text).map asciiLower := by
  have hbracket : ((asciiLower text).head? == some 0x5B) = (text.head? == some 0x5B) := by
    have hhead := (Blind.eq (c := 0x5B) (by decide)).head text
    cases text with
    | nil => rfl
    | cons u text => exact hhead
  unfold parseHost
  rw [hbracket, blind_forbidden.any]
  split
  · rw [hosts.ignoresCase (asciiLower text) text (asciiLower_idem text)]
  · split
    · rfl
    · rw [Option.map_some, Option.map_some, encode_lower]

theorem hostAndPort_lower (inside : Bool) (s : JsString) : hostAndPort inside (asciiLower s) =
    (asciiLower (hostAndPort inside s).1, (hostAndPort inside s).2.map asciiLower) := by
  have hcolon : ∀ u, lowerUnit u = colon ↔ u = colon := by
    intro u
    have heq := Blind.eq (c := colon) (by decide) u
    rw [Bool.eq_iff_iff, beq_iff_eq, beq_iff_eq] at heq
    exact heq
  have hinside : ∀ inside, Blind fun u => if u = 0x5B then true else if u = 0x5D then false else inside := by
    intro inside
    refine .of_letters inside fun u hu => ?_
    rw [if_neg (letter_ne hu (by decide)), if_neg (letter_ne hu (by decide))]
  induction s generalizing inside with
  | nil => rfl
  | cons u s ih =>
    have hlower : asciiLower (u :: s) = lowerUnit u :: asciiLower s := rfl
    rw [hlower, hostAndPort, hostAndPort]
    by_cases hport : u = colon ∧ inside = false
    · rw [if_pos hport, if_pos ⟨(hcolon u).mpr hport.1, hport.2⟩]
      rfl
    · have hunit : (if lowerUnit u = 0x5B then true else if lowerUnit u = 0x5D then false else inside) =
          if u = 0x5B then true else if u = 0x5D then false else inside := hinside inside u
      rw [if_neg hport, if_neg fun hboth => hport ⟨(hcolon u).mp hboth.1, hboth.2⟩, hunit, ih]
      rfl

theorem isPort_lower (s : JsString) : isPort (asciiLower s) = isPort s := by
  unfold isPort
  rw [blind_digit.all]
  by_cases hdigits : s.all isDigit = true
  · have hsame : asciiLower s = s := by
      refine asciiLower_of_no_letter (List.any_eq_false.mpr fun u hu halpha => ?_)
      have hdigit := List.all_eq_true.mp hdigits u hu
      rw [letter_not_digit halpha] at hdigit
      cases hdigit
    rw [hsame]
  · rw [Bool.not_eq_true] at hdigits
    rw [hdigits]
    rfl

theorem parseAuthority_lower (hosts : HostParser) (k : Kind) (authority : JsString) :
    (parseAuthority hosts k (asciiLower authority)).map asciiLower = (parseAuthority hosts k authority).map asciiLower := by
  unfold parseAuthority
  dsimp only
  rw [asciiLower_reverse, (Blind.ne (c := 0x40) (by decide)).takeWhile, asciiLower_reverse, hostAndPort_lower]
  generalize (authority.reverse.takeWhile (· != 0x40)).reverse = afterAt
  have hempty : (asciiLower afterAt = [] ∧ asciiLower afterAt ≠ asciiLower authority) ↔ (afterAt = [] ∧ afterAt ≠ authority) := by
    rw [asciiLower_nil]
    refine and_congr_right fun hnil => ?_
    rw [hnil, ne_comm, ne_comm (a := ([] : JsString))]
    exact not_congr asciiLower_nil
  by_cases hnone : afterAt = [] ∧ afterAt ≠ authority
  · rw [if_pos hnone, if_pos (hempty.mpr hnone)]
  · rw [if_neg hnone, if_neg fun h => hnone (hempty.mp h)]
    obtain ⟨host, port⟩ := hostAndPort false afterAt
    have hport : port.map asciiLower ≠ none ↔ port ≠ none := not_congr Option.map_eq_none_iff
    have hisPort : isPort ((port.map asciiLower).getD []) = isPort (port.getD []) := by
      cases port with
      | none => rfl
      | some digits => exact isPort_lower digits
    simp only [asciiLower_nil, hport, hisPort]
    split
    · rfl
    split
    · rfl
    split
    · rfl
    · exact parseHost_lower hosts k host

/-! ## URLs -/

theorem isDrive_lower (s : JsString) : isDrive (asciiLower s) = isDrive s := by
  have hbar : Blind fun u => u == colon || u == 0x7C := (Blind.eq (by decide)).or (.eq (by decide))
  match s with
  | [] | [_] | _ :: _ :: _ :: _ => rfl
  | [a, b] =>
    show (isAlpha (lowerUnit a) && (lowerUnit b == colon || lowerUnit b == 0x7C)) = (isAlpha a && (b == colon || b == 0x7C))
    rw [blind_alpha a]
    exact congrArg _ (hbar b)

theorem parseFile_lower (hosts : HostParser) (text : JsString) :
    (parseFile hosts (asciiLower text)).map (asciiLower ·.1) = (parseFile hosts text).map (asciiLower ·.1) := by
  match text with
  | [] | [_] => rfl
  | a :: b :: rest =>
    have hlower : asciiLower (a :: b :: rest) = lowerUnit a :: lowerUnit b :: asciiLower rest := rfl
    rw [hlower, parseFile, parseFile]
    rw [blind_sep .file a, blind_sep .file b]
    split
    · dsimp only
      simp only [(blind_sep .file).not.takeWhile, isDrive_lower, asciiLower_nil]
      split
      · rfl
      split
      · rfl
      · have hhost : parseHost hosts .file (asciiLower (rest.takeWhile fun u => !isSep .file u)) =
            parseHost hosts .file (rest.takeWhile fun u => !isSep .file u) := hosts.ignoresCase _ _ (asciiLower_idem _)
        rw [hhost, Option.map_map, Option.map_map]
        rfl
    · rfl

theorem parseRest_lower (hosts : HostParser) (k : Kind) (text : JsString) :
    (parseRest hosts k (asciiLower text)).map (asciiLower ·.1) = (parseRest hosts k text).map (asciiLower ·.1) := by
  cases k with
  | special =>
    unfold parseRest
    dsimp only
    rw [(blind_sep .special).dropWhile, (blind_sep .special).not.takeWhile, Option.map_map, Option.map_map]
    exact parseAuthority_lower hosts .special _
  | file => exact parseFile_lower hosts text
  | other =>
    have hslashes : [slash, slash].isPrefixOf (asciiLower text) = [slash, slash].isPrefixOf text := by
      have hblind : Blind fun u => slash == u := .of_letters false fun u hu => beq_false_of_ne (letter_ne hu (by decide)).symm
      match text with
      | [] => rfl
      | [a] =>
        show (slash == lowerUnit a && false) = (slash == a && false)
        rw [Bool.and_false, Bool.and_false]
      | a :: b :: rest =>
        show (slash == lowerUnit a && (slash == lowerUnit b && true)) = (slash == a && (slash == b && true))
        have ha : (slash == lowerUnit a) = (slash == a) := hblind a
        have hb : (slash == lowerUnit b) = (slash == b) := hblind b
        rw [ha, hb]
    have hslash : (asciiLower text).head? = some slash ↔ text.head? = some slash := by
      have hhead := (Blind.eq (c := slash) (by decide)).head text
      cases text with
      | nil => rfl
      | cons u text =>
        rw [Bool.eq_iff_iff] at hhead
        simpa [asciiLower_eq] using hhead
    unfold parseRest
    dsimp only
    rw [hslashes, asciiLower_drop, (Blind.ne (c := slash) (by decide)).takeWhile]
    simp only [hslash]
    split
    · rw [Option.map_map, Option.map_map]
      exact parseAuthority_lower hosts .other _
    split
    · rfl
    · rfl

/-- ASCII case in a URL changes at most the case of the host it names. -/
theorem parse_lower (hosts : HostParser) (text : JsString) :
    (parse hosts (asciiLower text)).map (asciiLower ·.hostname) = (parse hosts text).map (asciiLower ·.hostname) := by
  unfold parse
  dsimp only
  rw [blind_space.dropWhile, asciiLower_reverse, blind_space.dropWhile, asciiLower_reverse, blind_lineEnd.filter,
    cut_lower blind_colon]
  generalize cut colon _ = schemeAndRest
  obtain ⟨scheme, rest⟩ := schemeAndRest
  cases rest with
  | none => rfl
  | some rest =>
    dsimp only [Option.map_some]
    rw [blind_alpha.head, blind_scheme.all, asciiLower_idem, cut_lower (u := hash) (.ne (by decide)),
      cut_lower (u := question) (.ne (by decide))]
    split
    · rw [Option.map_map, Option.map_map]
      exact parseRest_lower hosts _ _
    · rfl

/-- Texts that differ in case name hosts that differ at most in case. -/
theorem parse_case (hosts : HostParser) {a b : JsString} (h : asciiLower a = asciiLower b) :
    (parse hosts a).map (asciiLower ·.hostname) = (parse hosts b).map (asciiLower ·.hostname) := by
  rw [← parse_lower hosts a, h, parse_lower hosts b]

end Url
