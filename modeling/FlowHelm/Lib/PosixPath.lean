/-
  FlowHelm.Lib.PosixPath — `path.join` and `path.normalize` of POSIX paths, and what lies in a
  directory.

  A path is read segment by segment: empty segments and `.` say nothing, `..` takes the
  segment before it away, where there is one. What a relative path is joined to stays in
  front of it as long as no `..` of it goes above its start.

  - `resolve_join`: a joined path is the directory's, with the segments of the other.
  - `inside_join`: a path that stays below its start lies in whatever it is joined to.
  - `not_inside_join`: one that does not leaves some directory.
-/
import FlowHelm.Lib.Js

namespace PosixPath

open Js

def slash : UInt16 := 0x2F

def dot : UInt16 := 0x2E

def dotdot : JsString := [dot, dot]

def isAbsolute (p : JsString) : Bool := p.head? == some slash

/-- What stands between the slashes, without what says nothing. -/
def segments (p : JsString) : List JsString := (p.splitOn slash).filter fun s => s != [] && s != [dot]

/-- The next segment, on those before it (the last first). -/
def push (absolute : Bool) (out : List JsString) (s : JsString) : List JsString :=
  if s = dotdot then match out with
    | [] => if absolute then [] else [dotdot]
    | t :: below => if t = dotdot then dotdot :: t :: below else below
  else s :: out

/-- What is left of the segments of a path. -/
def resolve (p : JsString) : List JsString := ((segments p).foldl (push (isAbsolute p)) []).reverse

/-- `path.normalize(p)`. -/
def normalize (p : JsString) : JsString :=
  if p = [] then [dot]
  else
    let trailing := p.getLast? == some slash
    let path := [slash].intercalate (resolve p)
    if path = [] then if isAbsolute p then [slash] else if trailing then [dot, slash] else [dot]
    else
      let path := if trailing then path ++ [slash] else path
      if isAbsolute p then slash :: path else path

/-- `path.join(dir, p)`. -/
def join (dir p : JsString) : JsString := normalize ([slash].intercalate ([dir, p].filter (· != [])))

/-- `p` names something below the directory `dir`. -/
def Inside (p dir : JsString) : Prop :=
  isAbsolute p = isAbsolute dir ∧ ∃ rest, rest ≠ [] ∧ dotdot ∉ rest ∧ resolve p = resolve dir ++ rest

/-! ## Segments -/

theorem not_mem_of_splitOn {p s : JsString} (h : s ∈ p.splitOn slash) : slash ∉ s := by
  rw [List.splitOn_eq_splitOnP] at h
  intro hmem
  have hslash := of_mem_splitOnP h slash hmem
  rw [beq_self_eq_true] at hslash
  cases hslash

/-- What a segment is: not empty, not a dot, without a slash. -/
structure Segment (s : JsString) : Prop where
  nonempty : s ≠ []
  notDot : s ≠ [dot]
  plain : slash ∉ s

theorem segment_of_mem {p s : JsString} (h : s ∈ segments p) : Segment s := by
  obtain ⟨hs, hkept⟩ := List.mem_filter.mp h
  obtain ⟨hne, hdot⟩ := (Bool.and_eq_true ..).mp hkept
  exact ⟨bne_iff_ne.mp hne, bne_iff_ne.mp hdot, not_mem_of_splitOn hs⟩

@[simp] theorem segments_nil : segments [] = [] := rfl

theorem segments_append (p q : JsString) : segments (p ++ slash :: q) = segments p ++ segments q := by
  unfold segments
  rw [List.splitOn_append_cons_self, List.filter_append]

theorem segments_slash (p : JsString) : segments (slash :: p) = segments p := segments_append [] p

theorem segments_trailing (p : JsString) : segments (p ++ [slash]) = segments p := by
  rw [segments_append, segments_nil, List.append_nil]

theorem segments_intercalate {ss : List JsString} (h : ∀ s ∈ ss, Segment s) : segments ([slash].intercalate ss) = ss := by
  by_cases hnil : ss = []
  · rw [hnil]
    rfl
  · unfold segments
    rw [List.splitOn_intercalate _ (fun s hs => (h s hs).plain) hnil, List.filter_eq_self]
    intro s hs
    exact (Bool.and_eq_true ..).mpr ⟨bne_iff_ne.mpr (h s hs).nonempty, bne_iff_ne.mpr (h s hs).notDot⟩

theorem segments_single {s : JsString} (h : Segment s) : segments s = [s] := by
  have hall : ∀ t ∈ [s], Segment t := fun t ht => List.mem_singleton.mp ht ▸ h
  simpa using segments_intercalate hall

/-! ## What is left of them -/

theorem push_mem {absolute : Bool} {out : List JsString} {s t : JsString} (h : t ∈ push absolute out s) :
    t ∈ out ∨ t = s := by
  unfold push at h
  split at h
  · rename_i hs
    split at h
    · split at h
      · exact .inl h
      · exact .inr ((List.mem_singleton.mp h).trans hs.symm)
    · split at h
      · rcases List.mem_cons.mp h with rfl | h
        · exact .inr hs.symm
        · exact .inl h
      · exact .inl (List.mem_cons_of_mem _ h)
  · rcases List.mem_cons.mp h with rfl | h
    · exact .inr rfl
    · exact .inl h

theorem foldl_push_mem {absolute : Bool} {ss out : List JsString} {t : JsString}
    (h : t ∈ ss.foldl (push absolute) out) : t ∈ out ∨ t ∈ ss := by
  induction ss generalizing out with
  | nil => exact .inl h
  | cons s ss ih =>
    rcases ih h with h | h
    · rcases push_mem h with h | rfl
      · exact .inl h
      · exact .inr (List.mem_cons_self ..)
    · exact .inr (List.mem_cons_of_mem _ h)

theorem segment_of_resolve {p s : JsString} (h : s ∈ resolve p) : Segment s := by
  rcases foldl_push_mem (List.mem_reverse.mp h) with h | h
  · cases h
  · exact segment_of_mem h

/-- Segments left (the last first): each `..` stands before all names, in a relative path. -/
def Reduced (absolute : Bool) : List JsString → Prop
  | [] => True
  | s :: below => (s = dotdot → absolute = false ∧ ∀ t ∈ below.head?, t = dotdot) ∧ Reduced absolute below

theorem reduced_push {absolute : Bool} {out : List JsString} {s : JsString} (h : Reduced absolute out) :
    Reduced absolute (push absolute out s) := by
  unfold push
  split
  · cases out with
    | nil =>
      cases absolute with
      | true => exact trivial
      | false => exact ⟨fun _ => ⟨rfl, fun t ht => by cases ht⟩, trivial⟩
    | cons t below =>
      dsimp only
      split
      · rename_i ht
        refine ⟨fun _ => ⟨(h.1 ht).1, fun u hu => ?_⟩, h⟩
        exact (Option.some.inj hu).symm.trans ht
      · exact h.2
  · rename_i hs
    exact ⟨fun heq => absurd heq hs, h⟩

theorem push_reduced {absolute : Bool} {out : List JsString} {s : JsString} (h : Reduced absolute (s :: out)) :
    push absolute out s = s :: out := by
  unfold push
  by_cases hs : s = dotdot
  · obtain ⟨habsolute, hout⟩ := h.1 hs
    rw [if_pos hs]
    cases out with
    | nil => rw [habsolute, hs]; rfl
    | cons t below =>
      have ht : t = dotdot := hout t rfl
      dsimp only
      rw [if_pos ht, hs]
  · rw [if_neg hs]

theorem reduced_foldl {absolute : Bool} {ss out : List JsString} (h : Reduced absolute out) :
    Reduced absolute (ss.foldl (push absolute) out) := by
  induction ss generalizing out with
  | nil => exact h
  | cons s ss ih => exact ih (reduced_push h)

theorem foldl_reduced {absolute : Bool} {out : List JsString} (h : Reduced absolute out) :
    out.reverse.foldl (push absolute) [] = out := by
  induction out with
  | nil => rfl
  | cons s out ih =>
    rw [List.reverse_cons, List.foldl_append, ih h.2]
    exact push_reduced h

/-! ## Normal paths -/

theorem head_intercalate {s : JsString} (h : s ≠ []) (ss : List JsString) :
    ([slash].intercalate (s :: ss)).head? = s.head? := by
  cases s with
  | nil => exact absurd rfl h
  | cons u s => cases ss <;> rfl

theorem path_eq_nil {ss : List JsString} (h : ∀ s ∈ ss, Segment s) (hnil : [slash].intercalate ss = []) : ss = [] := by
  cases ss with
  | nil => rfl
  | cons s ss =>
    have hne := (h s (List.mem_cons_self ..)).nonempty
    have hhead := head_intercalate hne ss
    rw [hnil] at hhead
    cases s with
    | nil => exact absurd rfl hne
    | cons u s => cases hhead

theorem segments_normalize (p : JsString) : segments (normalize p) = resolve p := by
  have hbody := segments_intercalate fun s hs => segment_of_resolve (p := p) hs
  unfold normalize
  by_cases hp : p = []
  · rw [if_pos hp, hp]
    rfl
  rw [if_neg hp]
  dsimp only
  by_cases hpath : [slash].intercalate (resolve p) = []
  · rw [if_pos hpath, path_eq_nil (fun s hs => segment_of_resolve hs) hpath]
    split
    · rfl
    · split <;> rfl
  · rw [if_neg hpath]
    have htrailing : segments (if p.getLast? == some slash then [slash].intercalate (resolve p) ++ [slash]
        else [slash].intercalate (resolve p)) = resolve p := by
      split
      · rw [segments_trailing, hbody]
      · exact hbody
    split
    · rw [segments_slash, htrailing]
    · exact htrailing

theorem isAbsolute_normalize (p : JsString) : isAbsolute (normalize p) = isAbsolute p := by
  unfold normalize
  by_cases hp : p = []
  · rw [if_pos hp, hp]
    rfl
  rw [if_neg hp]
  dsimp only
  by_cases habsolute : isAbsolute p = true
  · rw [if_pos habsolute, if_pos habsolute, habsolute]
    split <;> rfl
  · rw [if_neg habsolute, if_neg habsolute, Bool.eq_false_iff.mpr habsolute]
    by_cases hpath : [slash].intercalate (resolve p) = []
    · rw [if_pos hpath]
      split <;> rfl
    · rw [if_neg hpath]
      cases hresolve : resolve p with
      | nil => rw [hresolve] at hpath; exact absurd rfl hpath
      | cons s ss =>
        have hs : Segment s := segment_of_resolve (p := p) (hresolve ▸ List.mem_cons_self ..)
        -- the first unit is one of the first segment's
        have hhead : ∀ more, ([slash].intercalate (s :: ss) ++ more).head? = s.head? := by
          intro more
          rw [List.head?_append, head_intercalate hs.nonempty]
          cases s with
          | nil => exact absurd rfl hs.nonempty
          | cons u s => rfl
        have hplain : (s.head? == some slash) = false := by
          rw [beq_eq_false_iff_ne]
          intro hslash
          exact hs.plain (List.mem_of_mem_head? hslash)
        unfold isAbsolute
        split
        · rw [hhead, hplain]
        · have hhead := hhead []
          rw [List.append_nil] at hhead
          rw [hhead, hplain]

theorem resolve_normalize (p : JsString) : resolve (normalize p) = resolve p := by
  unfold resolve
  rw [segments_normalize, isAbsolute_normalize]
  have hnil : Reduced (isAbsolute p) [] := trivial
  unfold resolve
  rw [foldl_reduced (reduced_foldl hnil)]

/-! ## Joined paths -/

theorem isAbsolute_join {dir : JsString} (h : dir ≠ []) (p : JsString) : isAbsolute (join dir p) = isAbsolute dir := by
  unfold join
  rw [isAbsolute_normalize]
  cases dir with
  | nil => exact absurd rfl h
  | cons u dir =>
    cases p with
    | nil => simp [isAbsolute]
    | cons v p => simp [isAbsolute]

theorem segments_join {dir : JsString} (h : dir ≠ []) (p : JsString) :
    segments ([slash].intercalate ([dir, p].filter (· != []))) = segments dir ++ segments p := by
  by_cases hp : p = []
  · simp [hp, h]
  · have hboth : [dir, p].filter (· != []) = [dir, p] := by simp [h, hp]
    rw [hboth, ← segments_append]
    congr 1
    simp [List.intercalate, List.intersperse]

theorem resolve_join {dir : JsString} (h : dir ≠ []) (p : JsString) :
    resolve (join dir p) = ((segments p).foldl (push (isAbsolute dir)) (resolve dir).reverse).reverse := by
  have habsolute := isAbsolute_join h p
  unfold join at habsolute ⊢
  rw [isAbsolute_normalize] at habsolute
  rw [resolve_normalize]
  unfold resolve
  rw [habsolute, segments_join h, List.foldl_append, List.reverse_reverse]

/-! ## Staying below -/

/-- Where segments lead from a place they must not go above (the last first). -/
def descend (out : List JsString) : List JsString → Option (List JsString)
  | [] => some out
  | s :: ss => if s = dotdot then match out with
      | [] => none
      | _ :: below => descend below ss
    else descend (s :: out) ss

/-- Read from anywhere, the path leads to something below, and never above on its way. -/
def stays (p : JsString) : Bool := match descend [] (segments p) with
  | some (_ :: _) => true
  | _ => false

theorem foldl_descend (absolute : Bool) (base : List JsString) {out left ss : List JsString}
    (h : descend out ss = some left) (hout : dotdot ∉ out) :
    ss.foldl (push absolute) (out ++ base) = left ++ base ∧ dotdot ∉ left := by
  induction ss generalizing out with
  | nil => cases h; exact ⟨rfl, hout⟩
  | cons s ss ih =>
    unfold descend at h
    rw [List.foldl_cons]
    by_cases hs : s = dotdot
    · rw [if_pos hs] at h
      cases out with
      | nil => cases h
      | cons t below =>
        have ht : t ≠ dotdot := fun heq => hout (heq ▸ List.mem_cons_self ..)
        have hpush : push absolute (t :: below ++ base) s = below ++ base := by
          unfold push
          rw [if_pos hs]
          exact if_neg ht
        rw [hpush]
        exact ih h fun hmem => hout (List.mem_cons_of_mem _ hmem)
    · rw [if_neg hs] at h
      have hpush : push absolute (out ++ base) s = s :: out ++ base := if_neg hs
      rw [hpush]
      refine ih h fun hmem => ?_
      rcases List.mem_cons.mp hmem with heq | hmem
      · exact hs heq.symm
      · exact hout hmem

theorem inside_join {dir p : JsString} (hdir : dir ≠ []) (h : stays p = true) : Inside (join dir p) dir := by
  refine ⟨isAbsolute_join hdir p, ?_⟩
  unfold stays at h
  split at h
  · rename_i s left hdescend
    obtain ⟨hfold, hnames⟩ := foldl_descend (isAbsolute dir) (resolve dir).reverse hdescend List.not_mem_nil
    refine ⟨(s :: left).reverse, by simp, fun hmem => hnames (List.mem_reverse.mp hmem), ?_⟩
    rw [resolve_join hdir, ← List.nil_append (resolve dir).reverse, hfold, List.reverse_append, List.reverse_reverse]
  · cases h

/-- What goes above its start loses the name it started below. -/
theorem not_mem_foldl {d : JsString} {out ss : List JsString} (h : descend out ss = none) (hd : d ≠ dotdot)
    (hout : d ∉ out) (hss : d ∉ ss) (hnames : dotdot ∉ out) : d ∉ ss.foldl (push true) (out ++ [d]) := by
  induction ss generalizing out with
  | nil => cases h
  | cons s ss ih =>
    unfold descend at h
    rw [List.foldl_cons]
    have hmore : d ∉ ss := fun hmem => hss (List.mem_cons_of_mem _ hmem)
    by_cases hs : s = dotdot
    · rw [if_pos hs] at h
      cases out with
      | nil =>
        have hpush : push true ([] ++ [d]) s = [] := by
          unfold push
          rw [if_pos hs]
          exact if_neg hd
        rw [hpush]
        intro hmem
        rcases foldl_push_mem hmem with hmem | hmem
        · cases hmem
        · exact hmore hmem
      | cons t below =>
        have ht : t ≠ dotdot := fun heq => hnames (heq ▸ List.mem_cons_self ..)
        have hpush : push true (t :: below ++ [d]) s = below ++ [d] := by
          unfold push
          rw [if_pos hs]
          exact if_neg ht
        rw [hpush]
        exact ih h (fun hmem => hout (List.mem_cons_of_mem _ hmem)) hmore fun hmem => hnames (List.mem_cons_of_mem _ hmem)
    · rw [if_neg hs] at h
      have hpush : push true (out ++ [d]) s = s :: out ++ [d] := if_neg hs
      rw [hpush]
      refine ih h (fun hmem => ?_) hmore fun hmem => ?_
      · rcases List.mem_cons.mp hmem with heq | hmem
        · exact hss (heq ▸ List.mem_cons_self ..)
        · exact hout hmem
      · rcases List.mem_cons.mp hmem with heq | hmem
        · exact hs heq.symm
        · exact hnames hmem

/-- A name longer than the whole of `p`. -/
def otherName (p : JsString) : JsString := List.replicate (p.length + 2) 0x61

theorem segment_otherName (p : JsString) : Segment (otherName p) := by
  refine ⟨fun h => ?_, fun h => ?_, fun h => ?_⟩
  · have hlength := congrArg List.length h
    simp [otherName] at hlength
  · have hlength := congrArg List.length h
    simp [otherName] at hlength
  · exact absurd (List.eq_of_mem_replicate h) (by decide)

theorem otherName_ne_dotdot (p : JsString) : otherName p ≠ dotdot := by
  intro h
  have hmem : (0x61 : UInt16) ∈ dotdot := h ▸ List.mem_replicate.mpr ⟨by omega, rfl⟩
  exact absurd hmem (by decide)

theorem length_segment {p s : JsString} (h : s ∈ segments p) : s.length ≤ p.length := by
  have hs := (List.mem_filter.mp h).1
  have hsub : s.length ≤ ([slash].intercalate (p.splitOn slash)).length := by
    generalize p.splitOn slash = ss at hs
    induction ss with
    | nil => cases hs
    | cons t ss ih =>
      cases ss with
      | nil =>
        obtain rfl := List.mem_singleton.mp hs
        simp
      | cons u ss =>
        have hlength : ([slash].intercalate (t :: u :: ss)).length =
            t.length + (1 + ([slash].intercalate (u :: ss)).length) := by
          simp [List.intercalate, List.intersperse]
          omega
        rcases List.mem_cons.mp hs with rfl | hs
        · omega
        · have hle := ih hs
          omega
  rwa [List.intercalate_splitOn] at hsub

theorem otherName_not_mem (p : JsString) : otherName p ∉ segments p := by
  intro h
  have hlength := length_segment h
  have hlong : (otherName p).length = p.length + 2 := List.length_replicate
  omega

theorem not_inside_join {p : JsString} (h : ¬stays p = true) :
    ¬Inside (join (slash :: otherName p) p) (slash :: otherName p) := by
  have hdir : slash :: otherName p ≠ [] := List.cons_ne_nil _ _
  have hresolve : resolve (slash :: otherName p) = [otherName p] := by
    unfold resolve
    rw [segments_slash, segments_single (segment_otherName p)]
    show (push true [] (otherName p)).reverse = _
    unfold push
    rw [if_neg (otherName_ne_dotdot p)]
    rfl
  rintro ⟨-, rest, hrest, -, heq⟩
  rw [resolve_join hdir, hresolve] at heq
  have heq : (segments p).foldl (push true) ([] ++ [otherName p]) = rest.reverse ++ [otherName p] := by
    have hreverse := congrArg List.reverse heq
    rw [List.reverse_reverse] at hreverse
    have habsolute : isAbsolute (slash :: otherName p) = true := rfl
    rw [habsolute] at hreverse
    simpa using hreverse
  unfold stays at h
  cases hdescend : descend [] (segments p) with
  | none =>
    refine not_mem_foldl hdescend (otherName_ne_dotdot p) List.not_mem_nil (otherName_not_mem p) List.not_mem_nil ?_
    rw [heq]
    simp
  | some left =>
    cases left with
    | nil =>
      rw [(foldl_descend true [otherName p] hdescend List.not_mem_nil).1] at heq
      have hnil : [otherName p] = rest.reverse ++ [otherName p] := heq
      exact hrest (by simpa using hnil)
    | cons s left =>
      rw [hdescend] at h
      exact h rfl

end PosixPath
