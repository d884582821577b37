/-
  FlowHelm.Lib.MailText — the text of a mail: fields, an empty line, the body.

  A line that starts with a blank goes on with the field before it. A field is read as its
  name, in front of the first colon, and its value, behind the colon and the blank that
  follows it.

  - `read_mail`: what was written is read again when no value has an end of a line in it.
  - `read_unbroken`: no value that is read has one.
-/
import FlowHelm.Lib.CrlfLines
import FlowHelm.Lib.JsSlice

namespace MailText

open Js

def cr : UInt16 := 0x0D

def lf : UInt16 := 0x0A

def colon : UInt16 := 0x3A

def blank : UInt16 := 0x20

abbrev Field := JsString × JsString

def lines (s : JsString) : List JsString := Crlf.lines cr lf s

/-- No CRLF is within it. -/
def Unbroken (s : JsString) : Prop := Crlf.Unbroken cr lf s

instance (s : JsString) : Decidable (Unbroken s) := inferInstanceAs (Decidable (¬[cr, lf] <:+: s))

/-! ## Writing -/

def line (f : Field) : JsString := f.1 ++ colon :: blank :: f.2

/-- Every line ended, then an empty one, then the body. -/
def mail (headers : List JsString) (body : JsString) : JsString := headers.flatMap (· ++ [cr, lf]) ++ cr :: lf :: body

/-! ## Reading -/

def goesOn (s : JsString) : Bool := s.head?.any fun u => u = 0x20 ∨ u = 0x09

/-- A line in front of what goes on with it and of the fields after that. -/
def unfoldLine (s : JsString) (acc : JsString × List JsString) : JsString × List JsString :=
  if goesOn s then (s ++ acc.1, acc.2) else ([], (s ++ acc.1) :: acc.2)

/-- The fields' lines, each with those that go on with it. -/
def unfolded (ls : List JsString) : List JsString :=
  let acc := ls.foldr unfoldLine ([], [])
  if acc.1 = [] then acc.2 else acc.1 :: acc.2

def dropBlank : JsString → JsString
  | u :: s => if u = blank then s else u :: s
  | [] => []

def field? (s : JsString) : Option Field :=
  match s.dropWhile (· ≠ colon) with
  | _ :: value => some (s.takeWhile (· ≠ colon), dropBlank value)
  | [] => none

/-- The fields up to the first empty line, and the body behind it. -/
def read (s : JsString) : Option (List Field × JsString) :=
  ((unfolded ((lines s).takeWhile (· ≠ []))).mapM field?).map (·, [cr, lf].intercalate ((lines s).dropWhile (· ≠ [])).tail)

/-- The name of a field that is read as it was written. -/
structure Plain (name : JsString) : Prop where
  noColon : colon ∉ name
  unbroken : lf ∉ name
  first : goesOn name = false
  nonempty : name ≠ []

/-! ## What was written is read -/

variable {f : Field} {fields : List Field} {ls headers : List JsString} {s body : JsString}

theorem unfolded_plain (h : ∀ s ∈ ls, goesOn s = false) : unfolded ls = ls := by
  have hfold : ls.foldr unfoldLine ([], []) = ([], ls) := by
    induction ls with
    | nil => rfl
    | cons s ls ih =>
      obtain ⟨hs, hls⟩ := List.forall_mem_cons.mp h
      rw [List.foldr_cons, ih hls, unfoldLine, if_neg (by simp [hs]), List.append_nil]
  simp [unfolded, hfold]

theorem field_line (h : Plain f.1) : field? (line f) = some f := by
  have hpos : ∀ u ∈ f.1, (decide (u ≠ colon)) = true := by
    intro u hu
    have hne : u ≠ colon := by
      rintro rfl
      exact h.noColon hu
    simpa using hne
  unfold field? line
  rw [List.dropWhile_append_of_pos hpos, List.takeWhile_append_of_pos hpos]
  simp [dropBlank]

theorem unbroken_append {p q : JsString} (hp : Unbroken p) (hq : Unbroken q) (hhead : q.head? ≠ some lf) : Unbroken (p ++ q) := by
  induction p with
  | nil => exact hq
  | cons u p ih =>
    cases p with
    | nil =>
      cases q with
      | nil => exact Crlf.unbroken_singleton
      | cons v q => exact Crlf.unbroken_cons_cons.mpr ⟨fun h => hhead (by simp [h.2]), hq⟩
    | cons v p =>
      have hparts := Crlf.unbroken_cons_cons.mp hp
      exact Crlf.unbroken_cons_cons.mpr ⟨hparts.1, ih hparts.2⟩

theorem line_unbroken (h : Plain f.1) (hvalue : Unbroken f.2) : Unbroken (line f) := by
  have hname : Unbroken f.1 := Crlf.unbroken_of_not_mem h.unbroken
  have hblank : Unbroken (blank :: f.2) := by
    have hpart : Unbroken ([blank] ++ f.2) := by
      cases hf : f.2 with
      | nil => exact Crlf.unbroken_singleton
      | cons u value => exact Crlf.unbroken_cons_cons.mpr ⟨fun heq => absurd heq.1 (by decide), hf ▸ hvalue⟩
    exact hpart
  have hcolon : Unbroken (colon :: blank :: f.2) := Crlf.unbroken_cons_cons.mpr ⟨fun heq => absurd heq.1 (by decide), hblank⟩
  exact unbroken_append hname hcolon (by simp [colon, lf])

theorem goesOn_line (h : Plain f.1) : goesOn (line f) = false := by
  obtain ⟨u, name, hname⟩ := List.exists_cons_of_ne_nil h.nonempty
  have hfirst := h.first
  simpa [goesOn, line, hname] using hfirst

theorem lines_mail (h : ∀ s ∈ headers, Unbroken s) (body : JsString) :
    lines (mail headers body) = headers ++ [] :: lines body := by
  rw [lines, mail, Crlf.lines_ended (by decide) h, Crlf.lines_break]
  rfl

theorem mapM_field (h : ∀ f ∈ fields, Plain f.1) : (fields.map line).mapM field? = some fields := by
  induction fields with
  | nil => rfl
  | cons f fields ih =>
    obtain ⟨hf, hfields⟩ := List.forall_mem_cons.mp h
    simp [field_line hf, ih hfields]

theorem read_mail (hnames : ∀ f ∈ fields, Plain f.1) (hvalues : ∀ f ∈ fields, Unbroken f.2) (body : JsString) :
    read (mail (fields.map line) body) = some (fields, body) := by
  have hlines : lines (mail (fields.map line) body) = fields.map line ++ [] :: lines body := by
    apply lines_mail
    intro s hs
    obtain ⟨f, hf, rfl⟩ := List.mem_map.mp hs
    exact line_unbroken (hnames f hf) (hvalues f hf)
  have hne : ∀ s ∈ fields.map line, decide (s ≠ []) = true := by
    intro s hs
    obtain ⟨f, hf, rfl⟩ := List.mem_map.mp hs
    simp [line]
  have hplain : ∀ s ∈ fields.map line, goesOn s = false := by
    intro s hs
    obtain ⟨f, hf, rfl⟩ := List.mem_map.mp hs
    exact goesOn_line (hnames f hf)
  have htake : (lines (mail (fields.map line) body)).takeWhile (· ≠ []) = fields.map line := by
    rw [hlines, List.takeWhile_append_of_pos hne]
    simp
  have hdrop : (lines (mail (fields.map line) body)).dropWhile (· ≠ []) = [] :: lines body := by
    rw [hlines, List.dropWhile_append_of_pos hne]
    simp
  rw [read, htake, hdrop, unfolded_plain hplain, mapM_field hnames]
  simp [lines, Crlf.intercalate_lines]

/-! ## What is read has no end of a line in it -/

theorem Unbroken.within {p : JsString} (h : Unbroken s) (hp : p <:+: s) : Unbroken p := fun hin => h (hin.trans hp)

theorem goesOn_head (h : goesOn s = true) : s.head? ≠ some lf := by
  cases s with
  | nil => simp
  | cons u s =>
    intro heq
    rw [List.head?_cons, Option.some.injEq] at heq
    subst heq
    exact absurd h (by simp [goesOn, lf])

theorem unfolded_unbroken (h : ∀ s ∈ ls, Unbroken s) : ∀ s ∈ unfolded ls, Unbroken s := by
  have hfold : (Unbroken (ls.foldr unfoldLine ([], [])).1 ∧ (ls.foldr unfoldLine ([], [])).1.head? ≠ some lf) ∧
      ∀ s ∈ (ls.foldr unfoldLine ([], [])).2, Unbroken s := by
    induction ls with
    | nil => exact ⟨⟨Crlf.unbroken_nil, by simp⟩, by simp⟩
    | cons s ls ih =>
      obtain ⟨hs, hls⟩ := List.forall_mem_cons.mp h
      obtain ⟨⟨hpending, hhead⟩, hdone⟩ := ih hls
      have hjoined := unbroken_append hs hpending hhead
      rw [List.foldr_cons, unfoldLine]
      by_cases hon : goesOn s = true
      · rw [if_pos hon]
        refine ⟨⟨hjoined, ?_⟩, hdone⟩
        have hne : s ≠ [] := by
          rintro rfl
          cases hon
        simpa [List.head?_append_of_ne_nil _ hne] using goesOn_head hon
      · rw [if_neg hon]
        exact ⟨⟨Crlf.unbroken_nil, by simp⟩, List.forall_mem_cons.mpr ⟨hjoined, hdone⟩⟩
  unfold unfolded
  simp only
  split
  · exact hfold.2
  · exact List.forall_mem_cons.mpr ⟨hfold.1.1, hfold.2⟩

theorem value_within (h : field? s = some f) : f.2 <:+: s := by
  unfold field? at h
  split at h
  · rename_i u value hdrop
    obtain rfl := Option.some.inj h
    have hsuffix : value <:+ s := (List.suffix_cons u value).trans (hdrop ▸ List.dropWhile_suffix _)
    refine (List.IsSuffix.trans ?_ hsuffix).isInfix
    cases value with
    | nil => exact List.suffix_refl _
    | cons v value =>
      rw [dropBlank]
      split
      · exact List.suffix_cons v value
      · exact List.suffix_refl _
  · cases h

theorem mem_of_mapM (h : ls.mapM field? = some fields) : ∀ f ∈ fields, ∃ l ∈ ls, field? l = some f := by
  induction ls generalizing fields with
  | nil =>
    obtain rfl : [] = fields := by simpa using h
    simp
  | cons l ls ih =>
    simp only [List.mapM_cons, Option.bind_eq_bind, Option.bind_eq_some_iff, Option.pure_def, Option.some.injEq] at h
    obtain ⟨f, hf, more, hmore, rfl⟩ := h
    refine List.forall_mem_cons.mpr ⟨⟨l, by simp, hf⟩, ?_⟩
    intro g hg
    obtain ⟨m, hm, hfield⟩ := ih hmore g hg
    exact ⟨m, List.mem_cons_of_mem _ hm, hfield⟩

theorem read_unbroken {result : List Field × JsString} (h : read s = some result) : ∀ f ∈ result.1, Unbroken f.2 := by
  obtain ⟨fields, hfields, rfl⟩ := Option.map_eq_some_iff.mp h
  intro f hf
  obtain ⟨l, hl, hfield⟩ := mem_of_mapM hfields f hf
  have hlines : ∀ l ∈ (lines s).takeWhile (· ≠ []), Unbroken l :=
    fun l hl => Crlf.mem_lines_unbroken s l ((List.takeWhile_sublist _).subset hl)
  exact (unfolded_unbroken hlines l hl).within (value_within hfield)

end MailText
