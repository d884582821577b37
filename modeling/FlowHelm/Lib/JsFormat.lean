/-
  FlowHelm.Lib.JsFormat — numbers and times printed: `Number.prototype.toFixed` below 10^21,
  where it writes every digit, and `Date.prototype.toISOString`, which throws past the first
  and the last time value.

  - `toFixed_stamp`, `toISOString_stamp`: what they print is made of digits and a few signs.
-/
import Mathlib.Algebra.Order.Ring.Rat
import Mathlib.Data.Rat.Floor
import FlowHelm.Lib.Js

namespace Js

/-- A number `toFixed` writes in full. -/
abbrev Amount := { x : ℚ // |x| < 10 ^ 21 }

def digits (width n : Nat) : List Char := (Nat.toDigits 10 n).leftpad width '0'

/-- `x.toFixed(places)`: the nearest decimal, the larger of two (in absolute value). -/
def toFixed (places : Nat) (x : Amount) : String :=
  let m := digits (places + 1) ⌊|x.val| * 10 ^ places + 1 / 2⌋.toNat
  String.ofList ((if x.val < 0 then ['-'] else []) ++ m.take (m.length - places) ++
    if places = 0 then [] else '.' :: m.drop (m.length - places))

example : toFixed 2 ⟨1999 / 1000, by norm_num [abs_of_pos]⟩ = "2.00" := by decide +kernel

/-- Year, month and day of a day counted from the epoch, by eras of 400 years that begin in March. -/
def civil (days : Int) : Int × Nat × Nat :=
  let z := days + 719468
  let era := z / 146097
  let day := (z % 146097).toNat
  let year := (day - day / 1460 + day / 36524 - day / 146096) / 365
  let ofYear := day - (365 * year + year / 4 - year / 100)
  let month := (5 * ofYear + 2) / 153
  (year + era * 400 + (if month < 10 then 0 else 1), if month < 10 then month + 3 else month - 9,
    ofYear - (153 * month + 2) / 5 + 1)

/-- Years before 0 and from 10000 on have a sign and six digits. -/
def yearDigits (year : Int) : List Char :=
  if 0 ≤ year ∧ year < 10000 then digits 4 year.toNat else (if year < 0 then '-' else '+') :: digits 6 year.natAbs

def maxTime : Nat := 8640000000000000

/-- A day and the milliseconds since its midnight. -/
def isoText : Int × Nat × Nat → Nat → List Char
  | (year, month, day), time =>
    yearDigits year ++ '-' :: digits 2 month ++ '-' :: digits 2 day ++ 'T' :: digits 2 (time / 3600000) ++
      ':' :: digits 2 (time / 60000 % 60) ++ ':' :: digits 2 (time / 1000 % 60) ++
      '.' :: digits 3 (time % 1000) ++ ['Z']

/-- `new Date(ms).toISOString()`. -/
def toISOString (ms : Int) : Except String String :=
  if ms.natAbs ≤ maxTime then .ok (String.ofList (isoText (civil (ms / 86400000)) (ms % 86400000).toNat))
  else .error "Invalid time value"

example : [1709164799999, -1, -62198755200000].map toISOString =
    [.ok "2024-02-28T23:59:59.999Z", .ok "1969-12-31T23:59:59.999Z", .ok "-000001-01-01T00:00:00.000Z"] := by decide

/-- The characters of a number or a time. -/
def isStamp (c : Char) : Bool := c.isDigit || c ∈ ['-', '+', '.', ':', 'T', 'Z', ' ']

def Stamp (s : List Char) : Prop := ∀ c ∈ s, isStamp c = true

theorem Stamp.append {s t : List Char} (hs : Stamp s) (ht : Stamp t) : Stamp (s ++ t) := by
  intro c hc
  rcases List.mem_append.mp hc with hc | hc
  · exact hs c hc
  · exact ht c hc

theorem Stamp.cons {c : Char} {s : List Char} (hc : isStamp c = true) (hs : Stamp s) : Stamp (c :: s) := by
  intro d hd
  rcases List.mem_cons.mp hd with rfl | hd
  · exact hc
  · exact hs d hd

theorem Stamp.sublist {s t : List Char} (h : s.Sublist t) (ht : Stamp t) : Stamp s := fun c hc => ht c (h.mem hc)

theorem digits_stamp (width n : Nat) : Stamp (digits width n) := by
  intro c hc
  unfold isStamp
  rcases List.mem_append.mp hc with hc | hc
  · rw [(List.mem_replicate.mp hc).2]
    rfl
  · rw [Nat.isDigit_of_mem_toDigits (by omega) (by omega) hc]
    rfl

theorem yearDigits_stamp (year : Int) : Stamp (yearDigits year) := by
  unfold yearDigits
  by_cases hyear : 0 ≤ year ∧ year < 10000
  · rw [if_pos hyear]
    exact digits_stamp 4 _
  · rw [if_neg hyear]
    refine .cons ?_ (digits_stamp 6 _)
    split <;> decide

theorem toString_stamp (n : Nat) : Stamp (toString n).toList := by
  have h := digits_stamp 0 n
  unfold digits List.leftpad at h
  simpa [Nat.toString_eq_repr, Nat.toList_repr] using h

theorem toFixed_stamp (places : Nat) (x : Amount) : Stamp (toFixed places x).toList := by
  have hm := digits_stamp (places + 1) ⌊|x.val| * 10 ^ places + 1 / 2⌋.toNat
  unfold toFixed
  rw [String.toList_ofList]
  refine (Stamp.append ?_ (.sublist (List.take_sublist _ _) hm)).append ?_
  · by_cases hneg : x.val < 0
    · rw [if_pos hneg]
      exact .cons (by decide) nofun
    · rw [if_neg hneg]
      exact nofun
  · by_cases hplaces : places = 0
    · rw [if_pos hplaces]
      exact nofun
    · rw [if_neg hplaces]
      exact .cons (by decide) (.sublist (List.drop_sublist _ _) hm)

theorem isoText_stamp (date : Int × Nat × Nat) (time : Nat) : Stamp (isoText date time) := by
  obtain ⟨year, month, day⟩ := date
  have hsign : ∀ (c : Char) (width n : Nat), isStamp c = true → Stamp (c :: digits width n) :=
    fun _ width n hc => .cons hc (digits_stamp width n)
  have hdate := ((yearDigits_stamp year).append (hsign '-' 2 month (by decide))).append (hsign '-' 2 day (by decide))
  have hhour := hdate.append (hsign 'T' 2 (time / 3600000) (by decide))
  have hminute := hhour.append (hsign ':' 2 (time / 60000 % 60) (by decide))
  have hsecond := hminute.append (hsign ':' 2 (time / 1000 % 60) (by decide))
  exact (hsecond.append (hsign '.' 3 (time % 1000) (by decide))).append (.cons (by decide) nofun)

theorem toISOString_stamp {ms : Int} {s : String} (h : toISOString ms = .ok s) : Stamp s.toList := by
  unfold toISOString at h
  by_cases hms : ms.natAbs ≤ maxTime
  · rw [if_pos hms] at h
    obtain rfl := Except.ok.inj h
    rw [String.toList_ofList]
    exact isoText_stamp _ _
  · rw [if_neg hms] at h
    cases h

end Js
