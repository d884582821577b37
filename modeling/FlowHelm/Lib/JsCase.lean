/-
  FlowHelm.Lib.JsCase — `String.prototype.toLowerCase`, by what Unicode's case mapping keeps.

  The mapping of a letter may look at its neighbours (a final sigma), though not across a unit
  that is neither cased nor ignored, such as a space, an angle bracket or a line separator.

  - `CaseMapping.asciiOnly`: the mapping of ASCII letters alone is one.
-/
import FlowHelm.Lib.UrlCase

namespace Js

open Url

/-- Units that part a text for the mapping. -/
def caseBreaks : List UInt16 := [0x20, 0x3C, 0x3E, 0x2028]

structure CaseMapping where
  toLowerCase : JsString → JsString
  ascii : ∀ s : JsString, (∀ u ∈ s, u < 0x80) → toLowerCase s = asciiLower s
  breaks : ∀ u ∈ caseBreaks, ∀ s t : JsString, toLowerCase (s ++ u :: t) = toLowerCase s ++ u :: toLowerCase t
  /-- Lower case text has no letter left to map. -/
  lowered : ∀ s t : JsString, t <+: toLowerCase s → toLowerCase t = t

namespace CaseMapping

/-- ASCII letters alone. -/
def asciiOnly : CaseMapping where
  toLowerCase := asciiLower
  ascii _ _ := rfl
  breaks := by
    intro u hu s t
    have hsame : ∀ u ∈ caseBreaks, lowerUnit u = u := by decide
    rw [asciiLower_append, asciiLower_eq (u :: t), List.map_cons, hsame u hu]
    rfl
  lowered := by
    intro s t h
    have ht : t = asciiLower (s.take t.length) := by
      rw [asciiLower_eq, List.map_take]
      exact List.prefix_iff_eq_take.mp h
    rw [ht, asciiLower_idem]

variable (m : CaseMapping)

@[simp] theorem lower_nil : m.toLowerCase [] = [] := m.ascii [] (List.forall_mem_nil _)

theorem lower_separators (n : Nat) : m.toLowerCase (List.replicate n 0x2028) = List.replicate n 0x2028 := by
  induction n with
  | zero => simp
  | succ n ih =>
    have hbreak := m.breaks 0x2028 (by decide) [] (List.replicate n 0x2028)
    simpa [List.replicate_succ, ih] using hbreak

end CaseMapping

end Js
