/-
  FlowHelm.Lib.Lines — the lines of a file, what appending one does to them, and UTF-8.

  - `lines_append`: behind a final newline the line becomes the last.
  - `lines_lost`: without one, the last line is lost.
  - `Keeps.lines`: an encoding that has the newline for itself keeps lines; UTF-8 is one.
  - `exists_encode`: a file whose lines are in UTF-8 is.
-/
import Mathlib.Data.List.Infix
import Mathlib.Data.Set.List
import FlowHelm.Lib.Utf8

namespace Lines

variable {α β : Type}

/-- An encoding, letter by letter, in which only `a` has the newline, and is one. -/
structure Keeps (f : β → List α) (a : β) (newline : α) : Prop where
  here : f a = [newline]
  only : ∀ b, newline ∈ f b → b = a
  some : ∀ b, f b ≠ []

/-- Every line ends in a newline. -/
def Terminated (newline : α) (text : List α) : Prop := text = [] ∨ text.getLast? = some newline

section Keeps

variable {f : β → List α} {a : β} {newline : α} (h : Keeps f a newline)

include h

theorem Keeps.eq_nil {t : List β} : t.flatMap f = [] ↔ t = [] := by
  cases t with
  | nil => simp
  | cons b t => simp [h.some b]

theorem Keeps.mem {t : List β} : newline ∈ t.flatMap f ↔ a ∈ t := by
  rw [List.mem_flatMap]
  constructor
  · rintro ⟨b, hb, hmem⟩
    exact h.only b hmem ▸ hb
  · exact fun ha => ⟨a, ha, by simp [h.here]⟩

theorem Keeps.terminated {t : List β} : Terminated newline (t.flatMap f) ↔ Terminated a t := by
  unfold Terminated
  rw [h.eq_nil]
  refine or_congr_right ?_
  induction t using List.reverseRecOn with
  | nil => simp
  | append_singleton t b =>
    rw [List.flatMap_append, List.flatMap_singleton, List.getLast?_append_of_ne_nil _ (h.some b), List.getLast?_concat]
    constructor
    · intro hlast
      exact congrArg _ (h.only b (List.mem_of_getLast? hlast))
    · intro hlast
      rw [Option.some.inj hlast, h.here]
      rfl

end Keeps

variable [DecidableEq α]

/-- What stands before each newline, and what is left after the last. -/
def lines (newline : α) (text : List α) : List (List α) :=
  let pieces := text.splitOn newline
  if pieces.getLast? = some [] then pieces.dropLast else pieces

instance (newline : α) (text : List α) : Decidable (Terminated newline text) := inferInstanceAs (Decidable (_ ∨ _))

variable {newline : α} {text line rest : List α}

@[simp] theorem lines_nil : lines newline ([] : List α) = [] := rfl

@[simp] theorem lines_newline : lines newline (text ++ [newline]) = text.splitOn newline := by
  simp [lines, List.splitOn_append_cons_self]

/-- An empty last line is not one. -/
theorem filterMap_lines {γ : Type} {g : List α → Option γ} (hg : g [] = none) :
    (lines newline text).filterMap g = (text.splitOn newline).filterMap g := by
  unfold lines
  dsimp only
  split
  · rename_i hlast
    obtain ⟨init, hinit⟩ := List.getLast?_eq_some_iff.mp hlast
    simp [hinit, hg]
  · rfl

theorem lines_rest (hne : rest ≠ []) (h : newline ∉ rest) : lines newline rest = [rest] := by
  simp [lines, List.splitOn_eq_singleton h, hne]

theorem lines_before_rest (hne : rest ≠ []) (h : newline ∉ rest) :
    lines newline (text ++ newline :: rest) = text.splitOn newline ++ [rest] := by
  simp [lines, List.splitOn_append_cons_self, List.splitOn_eq_singleton h, hne]

theorem lines_append (h : Terminated newline text) (hline : newline ∉ line) :
    lines newline (text ++ (line ++ [newline])) = lines newline text ++ [line] := by
  rcases h with rfl | h
  · simp [List.splitOn_eq_singleton hline]
  · obtain ⟨text, rfl⟩ := List.getLast?_eq_some_iff.mp h
    have hassoc : text ++ [newline] ++ (line ++ [newline]) = text ++ newline :: line ++ [newline] := by simp
    rw [hassoc, lines_newline, lines_newline, List.splitOn_append_cons_self, List.splitOn_eq_singleton hline]

/-- A file ends in a newline or in a line without one. -/
theorem last_line (newline : α) (text : List α) : newline ∉ text ∨ ∃ before rest, text = before ++ newline :: rest ∧
    newline ∉ rest := by
  induction text using List.reverseRecOn with
  | nil => exact .inl List.not_mem_nil
  | append_singleton text a ih =>
    by_cases ha : a = newline
    · exact .inr ⟨text, [], by rw [ha], List.not_mem_nil⟩
    · rcases ih with hnone | ⟨before, rest, rfl, hrest⟩
      · exact .inl (by simp [hnone, Ne.symm ha])
      · exact .inr ⟨before, rest ++ [a], by simp, by simp [hrest, Ne.symm ha]⟩

theorem lines_lost (h : ¬Terminated newline text) (hne : line ≠ []) (hline : newline ∉ line) :
    ¬List.Sublist (lines newline text) (lines newline (text ++ (line ++ [newline]))) := by
  have hlost : ∀ (before : List (List α)) (rest : List α), ¬List.Sublist (before ++ [rest]) (before ++ [rest ++ line]) := by
    intro before rest hsub
    have heq := hsub.eq_of_length (by simp)
    simp [hne] at heq
  rcases last_line newline text with hnone | ⟨before, rest, rfl, hrest⟩
  · have hne : text ≠ [] := fun hnil => h (.inl hnil)
    rw [lines_rest hne hnone, ← List.append_assoc, lines_newline, List.splitOn_eq_singleton (by simp [hnone, hline])]
    exact hlost [] text
  · have hne : rest ≠ [] := by
      rintro rfl
      exact h (.inr (by simp))
    have hassoc : before ++ newline :: rest ++ (line ++ [newline]) = before ++ newline :: (rest ++ line) ++ [newline] := by simp
    have hmem : newline ∉ rest ++ line := by simp [hrest, hline]
    rw [lines_before_rest hne hrest, hassoc, lines_newline, List.splitOn_append_cons_self, List.splitOn_eq_singleton hmem]
    exact hlost _ rest

/-! ## Encodings -/

theorem splitOn_append (h : newline ∉ line) : (line ++ text).splitOn newline = (text.splitOn newline).modifyHead (line ++ ·) := by
  induction line with
  | nil =>
    cases htext : text.splitOn newline with
    | nil => exact absurd htext (List.splitOn_ne_nil _ _)
    | cons first more => simp [htext]
  | cons a line ih =>
    rw [List.mem_cons, not_or] at h
    rw [List.cons_append, List.splitOn_cons_eq_if_modifyHead, if_neg (by simpa using Ne.symm h.1), ih h.2,
      List.modifyHead_modifyHead]
    rfl

section Keeps

variable [DecidableEq β] {f : β → List α} {a : β} (h : Keeps f a newline)

include h

theorem Keeps.splitOn (t : List β) : (t.flatMap f).splitOn newline = (t.splitOn a).map (·.flatMap f) := by
  induction t with
  | nil => rfl
  | cons b t ih =>
    rw [List.flatMap_cons, List.splitOn_cons_eq_if_modifyHead]
    by_cases hb : b = a
    · subst hb
      rw [h.here, List.singleton_append, List.splitOn_cons_eq_if_modifyHead, if_pos (beq_self_eq_true _),
        if_pos (beq_self_eq_true _), ih]
      rfl
    · rw [splitOn_append fun hmem => hb (h.only b hmem), if_neg (by simpa using hb), ih]
      cases t.splitOn a with
      | nil => rfl
      | cons first more => rfl

theorem Keeps.lines (t : List β) : lines newline (t.flatMap f) = (lines a t).map (·.flatMap f) := by
  unfold Lines.lines
  rw [h.splitOn]
  have hlast : ((t.splitOn a).map (·.flatMap f)).getLast? = .some [] ↔ (t.splitOn a).getLast? = .some [] := by
    rw [List.getLast?_map, Option.map_eq_some_iff]
    constructor
    · rintro ⟨last, hlast, hnil⟩
      rw [hlast, h.eq_nil.mp hnil]
    · exact fun hlast => ⟨[], hlast, rfl⟩
  by_cases hnil : (t.splitOn a).getLast? = .some []
  · simp only [hlast.mpr hnil, hnil, if_true, List.map_dropLast]
  · rw [if_neg (mt hlast.mp hnil), if_neg hnil]

end Keeps

/-! ## UTF-8 -/

theorem keeps_encode : Keeps Utf8.encodeChar '\n' (0x0A : UInt8) where
  here := rfl
  only c h := by
    rcases Utf8.encodeChar_cases c with ⟨b, hb, hbc, -⟩ | ⟨b, bytes, q, hb, hfirst, hbytes⟩
    · rw [hb, List.mem_singleton] at h
      subst h
      exact Char.toNat_inj.mp hbc.symm
    · rw [hb] at h
      rcases List.mem_cons.mp h with rfl | h
      · cases (Prod.mk.inj hfirst).2
      · exact absurd (hbytes.trail _ h).1 (by decide)
  some := Utf8.encodeChar_ne_nil

theorem encode_intercalate (ts : List (List Char)) :
    Utf8.encode (['\n'].intercalate ts) = [(0x0A : UInt8)].intercalate (ts.map Utf8.encode) := by
  induction ts with
  | nil => rfl
  | cons t ts ih =>
    cases ts with
    | nil => simp
    | cons u us =>
      have hne : u :: us ≠ [] := List.cons_ne_nil u us
      rw [List.intercalate_cons_of_ne_nil hne, List.map_cons, List.intercalate_cons_of_ne_nil (mt List.map_eq_nil_iff.mp hne),
        Utf8.encode_append, Utf8.encode_append, ih]
      rfl

/-- A file whose lines are all in UTF-8 is. -/
theorem exists_encode {bytes : List UInt8} (h : ∀ line ∈ lines 0x0A bytes, ∃ t, line = Utf8.encode t) :
    ∃ t, bytes = Utf8.encode t := by
  have hpieces : ∀ piece ∈ bytes.splitOn 0x0A, ∃ t, Utf8.encode t = piece := by
    intro piece hpiece
    by_cases hnil : piece = []
    · exact ⟨[], hnil.symm⟩
    · refine (h piece ?_).imp fun t ht => ht.symm
      unfold lines
      dsimp only
      split
      · rename_i hlast
        obtain ⟨init, hinit⟩ := List.getLast?_eq_some_iff.mp hlast
        rw [hinit] at hpiece ⊢
        simpa [hnil] using hpiece
      · exact hpiece
  obtain ⟨ts, hts⟩ : bytes.splitOn 0x0A ∈ Set.range (List.map Utf8.encode) := by
    rw [Set.range_list_map]
    exact hpieces
  exact ⟨['\n'].intercalate ts, by rw [encode_intercalate, hts, List.intercalate_splitOn]⟩

end Lines
