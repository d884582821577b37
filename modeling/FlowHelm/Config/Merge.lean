/-
  FlowHelm.Config.Merge — `deepMerge` of src/config/loader.ts.

  Two objects at one place are merged; else the later value is taken, unless it is undefined. What
  comes of the values at a path is that of merging them one after another, so of two the later
  wins. The exception is `__proto__`: assigned to an object it is no property but its prototype.

  - `deepMerge_eq`: the recursion of the source.
  - `mergeObject_clean`: what one source does to a property.
  - `atPath_deepMerge`: what all do to a path.
  - `deepMerge_lawful_iff`: the law, and when `__proto__` breaks it.
-/
import Mathlib.Data.List.Induction
import Mathlib.Order.Basic
import FlowHelm.Lib.JsObject

namespace FlowHelm.Config

open Js JsValue

/-- One property of an object; `merge` is for two objects. -/
def mergeEntry (merge : JsValue → JsValue → JsValue) (result : JsValue) (entry : JsString × JsValue) : JsValue :=
  if entry.2.isPlain = true ∧ (result.get entry.1).isPlain = true then result.set entry.1 (merge (result.get entry.1) entry.2)
  else if entry.2.isUndefined then result
  else result.set entry.1 entry.2

def mergeObject (merge : JsValue → JsValue → JsValue) (result obj : JsValue) : JsValue :=
  obj.entries.foldl (mergeEntry merge) result

def mergeObjects (merge : JsValue → JsValue → JsValue) (objects : List JsValue) : JsValue :=
  objects.foldl (mergeObject merge) empty

/-- Two objects, so many levels down. -/
def mergeLevels : Nat → JsValue → JsValue → JsValue
  | 0, r, _ => r
  | n + 1, r, v => mergeObjects (mergeLevels n) [r, v]

def deepest (objects : List JsValue) : Nat := objects.foldr (fun o n => max o.depth n) 1

def deepMerge (objects : List JsValue) : JsValue := mergeObjects (mergeLevels (deepest objects)) objects

/-! ## The recursion -/

theorem depth_pos {v : JsValue} (h : v.isPlain = true) : 1 ≤ v.depth := by
  unfold isPlain at h
  split at h
  · rw [depth]
    omega
  · cases h

theorem le_deepest {objects : List JsValue} {o : JsValue} (h : o ∈ objects) : o.depth ≤ deepest objects := by
  induction objects with
  | nil => cases h
  | cons o' objects ih =>
    simp only [deepest, List.foldr_cons] at ih ⊢
    rcases List.mem_cons.mp h with rfl | h
    · exact le_max_left ..
    · exact (ih h).trans (le_max_right ..)

theorem one_le_deepest (objects : List JsValue) : 1 ≤ deepest objects := by
  induction objects with
  | nil => exact le_refl 1
  | cons o objects ih =>
    simp only [deepest, List.foldr_cons] at ih ⊢
    omega

theorem deepest_pair_lt {r v : JsValue} {m : Nat} (hv : v.isPlain = true) (hr : r.depth < m) (hvm : v.depth < m) :
    deepest [r, v] < m := by
  have hpos := depth_pos hv
  simp only [deepest, List.foldr_cons, List.foldr_nil]
  omega

/-- Objects below `m` are merged to ones below `m`, in the same way by `f` and `g`. -/
def AgreeBelow (m : Nat) (f g : JsValue → JsValue → JsValue) : Prop :=
  ∀ r v, v.isPlain = true → r.depth < m → v.depth < m → f r v = g r v ∧ (f r v).depth < m

theorem AgreeBelow.entry {m : Nat} {f g : JsValue → JsValue → JsValue} (h : AgreeBelow m f g) {result : JsValue}
    {entry : JsString × JsValue} (hresult : result.depth ≤ m) (hentry : entry.2.depth < m) :
    mergeEntry f result entry = mergeEntry g result entry ∧ (mergeEntry f result entry).depth ≤ m := by
  have hset := depth_set result entry.1
  unfold mergeEntry
  split
  case isTrue hplain =>
    have hpos := depth_pos hplain.1
    have hget := depth_get result entry.1
    obtain ⟨heq, hlt⟩ := h _ _ hplain.1 (show (result.get entry.1).depth < m by omega) hentry
    have hle := hset (f (result.get entry.1) entry.2)
    exact ⟨by rw [heq], by omega⟩
  case isFalse =>
    have hle := hset entry.2
    split
    · exact ⟨rfl, hresult⟩
    · exact ⟨rfl, by omega⟩

theorem AgreeBelow.object {m : Nat} {f g : JsValue → JsValue → JsValue} (h : AgreeBelow m f g) {result obj : JsValue}
    (hresult : result.depth ≤ m) (hobj : obj.depth ≤ m) :
    mergeObject f result obj = mergeObject g result obj ∧ (mergeObject f result obj).depth ≤ m := by
  have hentries : ∀ entry ∈ obj.entries, entry.2.depth < m := fun _ he => (depth_entries he).trans_le hobj
  unfold mergeObject
  generalize obj.entries = entries at hentries ⊢
  induction entries generalizing result with
  | nil => exact ⟨rfl, hresult⟩
  | cons entry entries ih =>
    obtain ⟨heq, hle⟩ := h.entry hresult (hentries entry (.head _))
    rw [List.foldl_cons, List.foldl_cons, ← heq]
    exact ih hle fun e he => hentries e (.tail _ he)

theorem AgreeBelow.objects {m : Nat} {f g : JsValue → JsValue → JsValue} (h : AgreeBelow m f g) (hm : 1 ≤ m)
    {objects : List JsValue}
    (hobjects : ∀ o ∈ objects, o.depth ≤ m) :
    mergeObjects f objects = mergeObjects g objects ∧ (mergeObjects f objects).depth ≤ m := by
  have hempty : empty.depth ≤ m := hm
  unfold mergeObjects
  generalize empty = start at hempty ⊢
  induction objects generalizing start with
  | nil => exact ⟨rfl, hempty⟩
  | cons o objects ih =>
    obtain ⟨heq, hle⟩ := h.object hempty (hobjects o (.head _))
    rw [List.foldl_cons, List.foldl_cons, ← heq]
    exact ih (fun o ho => hobjects o (.tail _ ho)) _ hle

theorem forall_pair {r v : JsValue} {P : JsValue → Prop} (hr : P r) (hv : P v) : ∀ o ∈ [r, v], P o := by
  simpa using ⟨hr, hv⟩

/-- Levels enough for the objects' depth give what any more give. -/
theorem mergeLevels_agree (n : Nat) : AgreeBelow (n + 1) (mergeLevels n) (mergeLevels (n + 1)) := by
  induction n with
  | zero =>
    intro r v hv _ hlt
    have hpos := depth_pos hv
    omega
  | succ n ih =>
    intro r v hv hr hlt
    have hpos := depth_pos hv
    have hpair : ∀ o ∈ [r, v], o.depth ≤ n + 1 := forall_pair (by omega) (by omega)
    obtain ⟨heq, hle⟩ := ih.objects (by omega) hpair
    exact ⟨heq, Nat.lt_succ_of_le hle⟩

theorem mergeLevels_enough {n k : Nat} (h : n ≤ k) {r v : JsValue} (hv : v.isPlain = true) (hr : r.depth ≤ n)
    (hvn : v.depth ≤ n) :
    mergeLevels k r v = mergeLevels n r v ∧ (mergeLevels n r v).depth ≤ n := by
  induction k, h using Nat.le_induction with
  | base => exact ⟨rfl, Nat.le_of_lt_succ (mergeLevels_agree n r v hv (by omega) (by omega)).2⟩
  | succ k hk ih =>
    obtain ⟨heq, -⟩ := mergeLevels_agree k r v hv (by omega) (by omega)
    exact ⟨heq.symm.trans ih.1, ih.2⟩

theorem deepMerge_eq (objects : List JsValue) : deepMerge objects = mergeObjects (fun r v => deepMerge [r, v]) objects := by
  have hagree : AgreeBelow (deepest objects) (mergeLevels (deepest objects)) fun r v => deepMerge [r, v] := by
    intro r v hv hr hlt
    have hpair := deepest_pair_lt hv hr hlt
    have hrd : r.depth ≤ deepest [r, v] := le_deepest (.head _)
    have hvd : v.depth ≤ deepest [r, v] := le_deepest (.tail _ (.head _))
    obtain ⟨heq, hle⟩ := mergeLevels_enough hpair.le hv hrd hvd
    have hsucc := (mergeLevels_enough (Nat.le_succ _) hv hrd hvd).1
    exact ⟨heq.trans hsucc.symm, by rw [heq]; omega⟩
  exact (hagree.objects (one_le_deepest objects) fun _ => le_deepest).1

theorem made_deepMerge (objects : List JsValue) : Made (deepMerge objects) := by
  refine List.foldlRecOn (motive := Made) objects _ clean_empty.made fun result hresult o _ => ?_
  refine List.foldlRecOn (motive := Made) o.entries _ hresult fun result hresult entry _ => ?_
  unfold mergeEntry
  split
  · exact hresult.set ..
  · split
    · exact hresult
    · exact hresult.set ..

/-! ## One property -/

/-- What comes of an earlier and a later value at one place. -/
def mergeValue (a v : JsValue) : JsValue :=
  if v.isPlain = true ∧ a.isPlain = true then deepMerge [a, v] else if v.isUndefined then a else v

@[simp] theorem mergeValue_undefined (a : JsValue) : mergeValue a undefined = a := rfl

@[simp] theorem undefined_mergeValue (v : JsValue) : mergeValue undefined v = v := by
  unfold mergeValue
  cases v <;> simp [isPlain, isUndefined]

theorem mergeValue_plain {a v : JsValue} (ha : a.isPlain = true) (hv : v.isPlain = true) : mergeValue a v = deepMerge [a, v] :=
  if_pos ⟨hv, ha⟩

theorem mergeValue_later {a v : JsValue} (hv : v ≠ undefined) (hplain : v.isPlain = false ∨ a.isPlain = false) :
    mergeValue a v = v := by
  have hnot : ¬ (v.isPlain = true ∧ a.isPlain = true) := by
    rintro ⟨hv, ha⟩
    simp [hv, ha] at hplain
  rw [mergeValue, if_neg hnot, if_neg fun h => hv (isUndefined_iff.mp h)]

/-- A plain object without a `__proto__` that is anything. -/
def Tidy (v : JsValue) : Prop := ∃ fields proto, v = obj false fields proto ∧ (keys fields).Nodup ∧ v.own protoName = undefined

theorem mergeEntry_clean {result : JsValue} (h : Clean result) {entry : JsString × JsValue}
    (hentry : entry.1 = protoName → entry.2 = undefined) :
    Clean (mergeEntry (fun r v => deepMerge [r, v]) result entry) ∧ ∀ k,
      (mergeEntry (fun r v => deepMerge [r, v]) result entry).own k =
        if k = entry.1 then mergeValue (result.own k) entry.2 else result.own k := by
  by_cases hkey : entry.1 = protoName
  · have hsame : mergeEntry (fun r v => deepMerge [r, v]) result entry = result := by
      simp [mergeEntry, hentry hkey, isPlain, isUndefined]
    rw [hsame, hentry hkey]
    exact ⟨h, fun k => by simp⟩
  · unfold mergeEntry mergeValue
    rw [get_clean h hkey]
    split
    case isTrue hplain =>
      obtain ⟨hclean, hown⟩ := set_clean h hkey (deepMerge [result.own entry.1, entry.2])
      refine ⟨hclean, fun k => ?_⟩
      rw [hown]
      split
      case isTrue hk => rw [hk, if_pos hplain]
      case isFalse => rfl
    case isFalse hplain =>
      split
      case isTrue hundefined =>
        refine ⟨h, fun k => ?_⟩
        split
        case isTrue hk => rw [hk, if_neg hplain]
        case isFalse => rfl
      case isFalse =>
        obtain ⟨hclean, hown⟩ := set_clean h hkey entry.2
        refine ⟨hclean, fun k => ?_⟩
        rw [hown]
        split
        case isTrue hk => rw [hk, if_neg hplain]
        case isFalse => rfl

theorem mergeFields_clean {result : JsValue} (h : Clean result) {fields : List (JsString × JsValue)}
    (hnodup : (keys fields).Nodup)
    (hproto : (fields.lookup protoName).getD undefined = undefined) :
    Clean (fields.foldl (mergeEntry fun r v => deepMerge [r, v]) result) ∧ ∀ k,
      (fields.foldl (mergeEntry fun r v => deepMerge [r, v]) result).own k =
        mergeValue (result.own k) ((fields.lookup k).getD undefined) := by
  induction fields generalizing result with
  | nil => exact ⟨h, fun k => rfl⟩
  | cons entry fields ih =>
    obtain ⟨hnew, hnodup'⟩ := List.nodup_cons.mp hnodup
    rw [lookup_cons] at hproto
    have hentry : entry.1 = protoName → entry.2 = undefined := by
      intro hkey
      simpa [hkey] using hproto
    have hproto' : (fields.lookup protoName).getD undefined = undefined := by
      by_cases hkey : protoName = entry.1
      · rw [hkey, lookup_eq_none.mpr hnew]
        rfl
      · rwa [if_neg hkey] at hproto
    obtain ⟨hclean, hown⟩ := mergeEntry_clean h hentry
    obtain ⟨hclean', hown'⟩ := ih hclean hnodup' hproto'
    refine ⟨hclean', fun k => ?_⟩
    rw [List.foldl_cons, hown', hown, lookup_cons]
    by_cases hk : k = entry.1
    · rw [if_pos hk, if_pos hk, hk, lookup_eq_none.mpr hnew]
      rfl
    · rw [if_neg hk, if_neg hk]

/-- A property after one more source. -/
theorem mergeObject_clean {result o : JsValue} (h : Clean result) (ho : Tidy o) :
    Clean (mergeObject (fun r v => deepMerge [r, v]) result o) ∧ ∀ k,
      (mergeObject (fun r v => deepMerge [r, v]) result o).own k = mergeValue (result.own k) (o.own k) := by
  obtain ⟨fields, proto, rfl, hnodup, hproto⟩ := ho
  exact mergeFields_clean h hnodup hproto

/-- What comes of the values at one place. -/
def mergeValues (values : List JsValue) : JsValue := values.foldl mergeValue undefined

@[simp] theorem mergeValues_concat (values : List JsValue) (v : JsValue) :
    mergeValues (values ++ [v]) = mergeValue (mergeValues values) v := by
  simp [mergeValues]

theorem deepMerge_clean {objects : List JsValue} (h : ∀ o ∈ objects, Tidy o) :
    Clean (deepMerge objects) ∧ ∀ k, (deepMerge objects).own k = mergeValues (objects.map (·.own k)) := by
  rw [deepMerge_eq, mergeObjects]
  induction objects using List.reverseRecOn with
  | nil => exact ⟨clean_empty, fun k => rfl⟩
  | append_singleton objects o ih =>
    obtain ⟨hclean, hown⟩ := ih fun o' ho' => h o' (List.mem_append_left _ ho')
    obtain ⟨hclean', hown'⟩ := mergeObject_clean hclean (h o (by simp))
    rw [List.foldl_append, List.foldl_cons, List.foldl_nil]
    refine ⟨hclean', fun k => ?_⟩
    rw [hown', hown, List.map_append, List.map_singleton, mergeValues_concat]

theorem own_deepMerge_pair {a v : JsValue} (ha : Tidy a) (hv : Tidy v) (k : JsString) :
    (deepMerge [a, v]).own k = mergeValue (a.own k) (v.own k) := by
  rw [(deepMerge_clean (forall_pair ha hv)).2]
  simp [mergeValues]

/-! ## Values at one place -/

theorem plain_of_mergeValues {values : List JsValue} (h : (mergeValues values).isPlain = true) :
    ∃ v ∈ values, v.isPlain = true := by
  induction values using List.reverseRecOn with
  | nil => cases h
  | append_singleton values v ih =>
    by_cases hv : v.isPlain = true
    · exact ⟨v, by simp, hv⟩
    · by_cases hu : v = undefined
      · rw [mergeValues_concat, hu, mergeValue_undefined] at h
        obtain ⟨w, hw, hplain⟩ := ih h
        exact ⟨w, List.mem_append_left _ hw, hplain⟩
      · rw [mergeValues_concat, mergeValue_later hu (.inl (by simpa using hv))] at h
        exact absurd h hv

theorem mergeValues_undefined {values : List JsValue} (h : ∀ v ∈ values, v = undefined) : mergeValues values = undefined := by
  refine List.foldlRecOn (motive := (· = undefined)) values _ rfl fun a ha v hv => ?_
  rw [ha, h v hv, mergeValue_undefined]

/-- It is one of them, or a merged object. -/
theorem mergeValues_cases (values : List JsValue) :
    mergeValues values = undefined ∨ mergeValues values ∈ values ∨ Made (mergeValues values) := by
  induction values using List.reverseRecOn with
  | nil => exact .inl rfl
  | append_singleton values v ih =>
    rw [mergeValues_concat]
    unfold mergeValue
    split
    · exact .inr (.inr (made_deepMerge _))
    · split
      · rcases ih with hu | hmem | hmade
        · exact .inl hu
        · exact .inr (.inl (List.mem_append_left _ hmem))
        · exact .inr (.inr hmade)
      · exact .inr (.inl (by simp))

/-- No plain object and another value are at one place. -/
def Uniform (values : List JsValue) : Prop := ∀ v ∈ values, ∀ w ∈ values, v.isPlain = true → w = undefined ∨ w.isPlain = true

theorem Uniform.init {values : List JsValue} {v : JsValue} (h : Uniform (values ++ [v])) : Uniform values := fun w hw x hx =>
  h w (List.mem_append_left _ hw) x (List.mem_append_left _ hx)

/-- The last that is anything. -/
def lastDefined (values : List JsValue) : JsValue := (values.filter fun v => !v.isUndefined).getLast?.getD undefined

theorem lastDefined_concat (values : List JsValue) (v : JsValue) :
    lastDefined (values ++ [v]) = if v.isUndefined then lastDefined values else v := by
  unfold lastDefined
  rw [List.filter_append]
  cases hv : v.isUndefined <;> simp [hv]

theorem lastDefined_eq_undefined {values : List JsValue} : lastDefined values = undefined ↔ ∀ v ∈ values, v = undefined := by
  induction values using List.reverseRecOn with
  | nil => simp [lastDefined]
  | append_singleton values v ih =>
    rw [lastDefined_concat]
    by_cases hv : v = undefined
    · simp [hv, isUndefined, ih, or_imp]
    · have hdefined : v.isUndefined = false := by simpa using mt isUndefined_iff.mp hv
      simp [hdefined, hv]

theorem mem_or_undefined (values : List JsValue) : lastDefined values ∈ values ∨ lastDefined values = undefined := by
  unfold lastDefined
  cases hlast : (values.filter fun v => !v.isUndefined).getLast? with
  | none => exact .inr rfl
  | some v => exact .inl (List.mem_of_mem_filter (List.mem_of_getLast? hlast))

/-- Two plain objects, or the same. -/
def Alike (v w : JsValue) : Prop := (v.isPlain = true ∧ w.isPlain = true) ∨ v = w

theorem mergeValues_alike (values : List JsValue) : Alike (mergeValues values) (lastDefined values) := by
  induction values using List.reverseRecOn with
  | nil => exact .inr rfl
  | append_singleton values v ih =>
    rw [mergeValues_concat, lastDefined_concat]
    by_cases hu : v = undefined
    · subst hu
      exact ih
    · rw [if_neg fun h => hu (isUndefined_iff.mp h)]
      by_cases hplain : v.isPlain = true ∧ (mergeValues values).isPlain = true
      · obtain ⟨fields, proto, hmade, -⟩ := made_deepMerge [mergeValues values, v]
        refine .inl ⟨?_, hplain.1⟩
        rw [mergeValue_plain hplain.2 hplain.1, hmade]
        rfl
      · refine .inr (mergeValue_later hu ?_)
        rwa [not_and_or, Bool.not_eq_true, Bool.not_eq_true] at hplain

theorem Uniform.plain {values : List JsValue} (h : Uniform values) {v : JsValue} (hv : v ∈ values) (hplain : v.isPlain = true) :
    (mergeValues values).isPlain = true := by
  rcases mergeValues_alike values with ⟨hmerged, -⟩ | heq
  · exact hmerged
  · rw [heq]
    rcases mem_or_undefined values with hmem | hu
    · refine (h v hv _ hmem hplain).resolve_left fun hu => ?_
      exact defined_of_plain hplain (lastDefined_eq_undefined.mp hu v hv)
    · exact absurd (lastDefined_eq_undefined.mp hu v hv) (defined_of_plain hplain)

/-- A merged object, where two are at the place. -/
theorem made_mergeValues {values : List JsValue} (h : Uniform values) (htwo : 2 ≤ values.countP isPlain) :
    Made (mergeValues values) := by
  induction values using List.reverseRecOn with
  | nil => simp at htwo
  | append_singleton values v ih =>
    rw [List.countP_append, List.countP_singleton] at htwo
    rw [mergeValues_concat]
    by_cases hv : v.isPlain = true
    · have hone : 0 < values.countP isPlain := by
        rw [if_pos hv] at htwo
        omega
      obtain ⟨w, hw, hplain⟩ := List.countP_pos_iff.mp hone
      rw [mergeValue_plain (h.init.plain hw hplain) hv]
      exact made_deepMerge _
    · rw [if_neg hv] at htwo
      obtain ⟨w, hw, hplain⟩ := List.countP_pos_iff.mp (show 0 < values.countP isPlain by omega)
      obtain rfl : v = undefined := (h w (List.mem_append_left _ hw) v (by simp) hplain).resolve_right hv
      exact ih h.init htwo

/-! ## Paths -/

/-- A key comes once in an object, and the prototypes are the built-in ones. -/
def WellFormed (v : JsValue) : Prop :=
  ∀ path fields proto, v.atPath path = obj false fields proto → proto = none ∧ (keys fields).Nodup

/-- No path has a nested object in one source and another value in another. -/
def Compatible (sources : List JsValue) : Prop := ∀ path, Uniform (sources.map (·.atPath path))

/-- More than one source has an object there. -/
def Meet (sources : List JsValue) (path : List JsString) : Prop := 2 ≤ (sources.map (·.atPath path)).countP isPlain

def NoProtoAt (sources : List JsValue) (path : List JsString) : Prop := ∀ o ∈ sources, o.atPath (path ++ [protoName]) = undefined

/-- Where objects meet on the way, none has a `__proto__`. -/
def ClearTo (sources : List JsValue) (path : List JsString) : Prop :=
  ∀ above, above <+: path → above ≠ path → Meet sources above → NoProtoAt sources above

section Sources

variable {sources : List JsValue} {o : JsValue} {path above : List JsString}

theorem map_atPath_concat (sources : List JsValue) (o : JsValue) (path : List JsString) :
    (sources ++ [o]).map (·.atPath path) = sources.map (·.atPath path) ++ [o.atPath path] := by simp

theorem Compatible.init (h : Compatible (sources ++ [o])) : Compatible sources := by
  intro path
  have huniform := h path
  rw [map_atPath_concat] at huniform
  exact huniform.init

theorem NoProtoAt.init (h : NoProtoAt (sources ++ [o]) path) : NoProtoAt sources path :=
  fun o' ho' => h o' (List.mem_append_left _ ho')

theorem NoProtoAt.merged (h : NoProtoAt sources path) :
    mergeValues (sources.map (·.atPath (path ++ [protoName]))) = undefined := by
  refine mergeValues_undefined fun v hv => ?_
  obtain ⟨o, ho, rfl⟩ := List.mem_map.mp hv
  exact h o ho

theorem Meet.concat (h : Meet sources path) : Meet (sources ++ [o]) path := by
  unfold Meet at h ⊢
  rw [map_atPath_concat, List.countP_append]
  omega

theorem meet_of_plain (hsome : ∃ v ∈ sources.map (·.atPath path), v.isPlain = true) (ho : (o.atPath path).isPlain = true) :
    Meet (sources ++ [o]) path := by
  have hone : 0 < (sources.map (·.atPath path)).countP isPlain := List.countP_pos_iff.mpr hsome
  unfold Meet
  rw [map_atPath_concat, List.countP_append, List.countP_singleton, if_pos ho]
  omega

theorem ClearTo.init (h : ClearTo (sources ++ [o]) path) : ClearTo sources path :=
  fun above hpre hne hmeet => (h above hpre hne hmeet.concat).init

theorem ne_of_above {above' : List JsString} (h' : above' <+: above) (h : above <+: path) (hne : above ≠ path) :
    above' ≠ path := by
  rintro rfl
  exact hne (h.eq_of_length_le h'.length_le)

theorem ClearTo.upTo (h : ClearTo sources path) (habove : above <+: path) : ClearTo sources above := by
  intro above' hpre hne hmeet
  by_cases heq : above = path
  · exact h above' (hpre.trans habove) (heq ▸ hne) hmeet
  · exact h above' (hpre.trans habove) (ne_of_above hpre habove heq) hmeet

theorem ClearTo.proto (h : ClearTo sources path) (hproto : NoProtoAt sources path) : ClearTo sources (path ++ [protoName]) := by
  intro above hpre hne hmeet
  have habove : above <+: path := (List.prefix_concat_iff.mp hpre).resolve_left hne
  by_cases heq : above = path
  · rwa [heq]
  · exact h above habove heq hmeet

/-! The same below a path. -/

theorem WellFormed.atPath {v : JsValue} (h : WellFormed v) (path : List JsString) : WellFormed (v.atPath path) :=
  fun below fields proto hobj => h (path ++ below) fields proto (by rw [atPath_append, hobj])

theorem wellFormed_atPath (h : ∀ o ∈ sources, WellFormed o) (path : List JsString) :
    ∀ v ∈ sources.map (·.atPath path), WellFormed v := by
  intro v hv
  obtain ⟨o, ho, rfl⟩ := List.mem_map.mp hv
  exact (h o ho).atPath path

theorem map_atPath_append (sources : List JsValue) (path below : List JsString) :
    (sources.map (·.atPath path)).map (·.atPath below) = sources.map (·.atPath (path ++ below)) := by
  simp [atPath_append]

theorem Compatible.atPath (h : Compatible sources) (path : List JsString) : Compatible (sources.map (·.atPath path)) := by
  intro below
  rw [map_atPath_append]
  exact h (path ++ below)

theorem meet_atPath {below : List JsString} : Meet (sources.map (·.atPath path)) below ↔ Meet sources (path ++ below) := by
  rw [Meet, Meet, map_atPath_append]

theorem noProtoAt_atPath {below : List JsString} :
    NoProtoAt (sources.map (·.atPath path)) below ↔ NoProtoAt sources (path ++ below) := by
  simp [NoProtoAt, atPath_append]

theorem ClearTo.atPath {below : List JsString} (h : ClearTo sources (path ++ below)) :
    ClearTo (sources.map (·.atPath path)) below := by
  intro above hpre hne hmeet
  rw [noProtoAt_atPath]
  exact h (path ++ above) (List.prefix_append_right_inj path |>.mpr hpre) (by simpa using hne) (meet_atPath.mp hmeet)

end Sources

theorem tidy_of_own {v : JsValue} (hplain : v.isPlain = true)
    (hnodup : ∀ fields proto, v = obj false fields proto → (keys fields).Nodup)
    (hproto : v.own protoName = undefined) : Tidy v := by
  unfold isPlain at hplain
  split at hplain
  case h_1 fields proto => exact ⟨fields, proto, rfl, hnodup fields proto rfl, hproto⟩
  case h_2 => cases hplain

theorem WellFormed.tidy {v : JsValue} (h : WellFormed v) (hplain : v.isPlain = true) (hproto : v.own protoName = undefined) :
    Tidy v :=
  tidy_of_own hplain (fun fields proto hobj => (h [] fields proto hobj).2) hproto

theorem tidy_mergeValues {values : List JsValue} (h : ∀ v ∈ values, WellFormed v) (hplain : (mergeValues values).isPlain = true)
    (hproto : (mergeValues values).own protoName = undefined) : Tidy (mergeValues values) := by
  refine tidy_of_own hplain (fun fields proto hobj => ?_) hproto
  rcases mergeValues_cases values with hu | hmem | ⟨fields', proto', hmade, hnodup, -⟩
  · rw [hu] at hobj
    cases hobj
  · exact (h _ hmem [] fields proto hobj).2
  · rw [hmade] at hobj
    cases hobj
    exact hnodup

theorem atPath_mergeValue {a v : JsValue} {path : List JsString}
    (hcompat : ∀ above, above <+: path → above ≠ path → (a.atPath above).isPlain = true →
      v.atPath above = undefined ∨ (v.atPath above).isPlain = true)
    (htidy : ∀ above, above <+: path → above ≠ path → (a.atPath above).isPlain = true → (v.atPath above).isPlain = true →
      Tidy (a.atPath above) ∧ Tidy (v.atPath above)) :
    (mergeValue a v).atPath path = mergeValue (a.atPath path) (v.atPath path) := by
  induction path generalizing a v with
  | nil => rfl
  | cons k path ih =>
    have hstep : (mergeValue (a.own k) (v.own k)).atPath path = mergeValue ((a.own k).atPath path) ((v.own k).atPath path) := by
      apply ih
      · intro above hpre hne
        exact hcompat (k :: above) (List.cons_prefix_cons.mpr ⟨rfl, hpre⟩) (by simpa using hne)
      · intro above hpre hne
        exact htidy (k :: above) (List.cons_prefix_cons.mpr ⟨rfl, hpre⟩) (by simpa using hne)
    have hcompat' := hcompat [] List.nil_prefix (List.cons_ne_nil k path).symm
    have htidy' := htidy [] List.nil_prefix (List.cons_ne_nil k path).symm
    simp only [atPath_nil] at hcompat' htidy'
    by_cases ha : a.isPlain = true
    · rcases hcompat' ha with hu | hv
      · subst hu
        simp
      · obtain ⟨hat, hvt⟩ := htidy' ha hv
        rw [mergeValue_plain ha hv, atPath_cons, own_deepMerge_pair hat hvt, hstep]
        rfl
    · have hnone : a.atPath (k :: path) = undefined := atPath_of_not_plain (by simpa using ha) (List.cons_ne_nil k path)
      rw [hnone, undefined_mergeValue]
      by_cases hu : v = undefined
      · rw [hu, mergeValue_undefined, hnone, atPath_undefined]
      · rw [mergeValue_later hu (.inr (by simpa using ha))]

/-- The values at a path, merged one after another, are what the objects merged have there. -/
theorem atPath_mergeValues {sources : List JsValue} (hwell : ∀ o ∈ sources, WellFormed o) (hcompat : Compatible sources)
    {path : List JsString} (hclear : ClearTo sources path) :
    (mergeValues sources).atPath path = mergeValues (sources.map (·.atPath path)) := by
  induction sources using List.reverseRecOn generalizing path with
  | nil => simp [mergeValues]
  | append_singleton sources o ih =>
    have hwell' : ∀ o' ∈ sources, WellFormed o' := fun o' ho' => hwell o' (List.mem_append_left _ ho')
    have hat : ∀ {above}, ClearTo (sources ++ [o]) above →
        (mergeValues sources).atPath above = mergeValues (sources.map (·.atPath above)) :=
      fun hclear => ih hwell' hcompat.init hclear.init
    rw [mergeValues_concat, map_atPath_concat, mergeValues_concat, ← hat hclear]
    apply atPath_mergeValue
    · intro above habove _ hplain
      rw [hat (hclear.upTo habove)] at hplain
      obtain ⟨w, hw, hwplain⟩ := plain_of_mergeValues hplain
      have huniform := hcompat above
      rw [map_atPath_concat] at huniform
      exact huniform w (List.mem_append_left _ hw) _ (by simp) hwplain
    · intro above habove hne hplain hoplain
      have hmerged := hat (hclear.upTo habove)
      have hsome := plain_of_mergeValues (hmerged ▸ hplain)
      have hnone := hclear above habove hne (meet_of_plain hsome hoplain)
      constructor
      · have hproto : ((mergeValues sources).atPath above).own protoName = undefined := by
          rw [← atPath_concat, hat ((hclear.upTo habove).proto hnone)]
          exact hnone.init.merged
        rw [hmerged] at hplain hproto ⊢
        exact tidy_mergeValues (wellFormed_atPath hwell' above) hplain hproto
      · refine ((hwell o (by simp)).atPath above).tidy hoplain ?_
        rw [← atPath_concat]
        exact hnone o (by simp)

/-- What is merged of them inherits nothing. -/
theorem proto_mergeValues {values : List JsValue} (hwell : ∀ v ∈ values, WellFormed v) (hcompat : Compatible values)
    (hclear : Meet values [] → NoProtoAt values []) {fields : List (JsString × JsValue)} {proto : Option JsValue}
    (hobj : mergeValues values = obj false fields proto) : proto = none := by
  induction values using List.reverseRecOn with
  | nil => cases hobj
  | append_singleton values v ih =>
    have hwell' : ∀ w ∈ values, WellFormed w := fun w hw => hwell w (List.mem_append_left _ hw)
    have hv : WellFormed v := hwell v (by simp)
    rw [mergeValues_concat] at hobj
    by_cases hplain : v.isPlain = true ∧ (mergeValues values).isPlain = true
    · have hnone := hclear (meet_of_plain (by simpa using plain_of_mergeValues hplain.2) hplain.1)
      have hclear' : ClearTo values [] := fun above hpre hne => absurd (List.prefix_nil.mp hpre) hne
      have hproto := (atPath_mergeValues hwell' hcompat.init (hclear'.proto hnone.init)).trans hnone.init.merged
      have hmerged : Tidy (mergeValues values) := tidy_mergeValues hwell' hplain.2 hproto
      have htidy : Tidy v := hv.tidy hplain.1 (hnone v (by simp))
      obtain ⟨fields', hclean, -⟩ := (deepMerge_clean (forall_pair hmerged htidy)).1
      rw [mergeValue_plain hplain.2 hplain.1, hclean] at hobj
      cases hobj
      rfl
    · by_cases hu : v = undefined
      · rw [hu, mergeValue_undefined] at hobj
        refine ih hwell' hcompat.init (fun hmeet w hw => ?_) hobj
        exact hclear hmeet.concat w (List.mem_append_left _ hw)
      · rw [not_and_or, Bool.not_eq_true, Bool.not_eq_true] at hplain
        rw [mergeValue_later hu hplain] at hobj
        exact (hv [] fields proto hobj).1

/-! ## The law -/

/-- An object as the sources are. -/
structure ConfigObject where
  value : JsValue
  plain : value.isPlain = true
  wellFormed : WellFormed value

/-- Every path has what the last source has there that has anything, and nothing else is there. -/
structure Lawful (result : JsValue) (sources : List JsValue) : Prop where
  last : ∀ key path, Alike (result.atPath (key :: path)) (lastDefined (sources.map (·.atPath (key :: path))))
  inherits : ∀ path fields proto, result.atPath path = obj false fields proto → proto = none

/-- No source has a `__proto__` at its top or where it meets another. -/
def Unaffected (sources : List JsValue) : Prop := ∀ path, path = [] ∨ Meet sources path → NoProtoAt sources path

theorem tidy_top {sources : List JsValue} (hplain : ∀ o ∈ sources, o.isPlain = true) (hwell : ∀ o ∈ sources, WellFormed o)
    (htop : NoProtoAt sources []) : ∀ o ∈ sources, Tidy o :=
  fun o ho => (hwell o ho).tidy (hplain o ho) (htop o ho)

theorem atPath_deepMerge {sources : List JsValue} (hplain : ∀ o ∈ sources, o.isPlain = true) (hwell : ∀ o ∈ sources, WellFormed o)
    (hcompat : Compatible sources) (htop : NoProtoAt sources []) {key : JsString} {path : List JsString}
    (hclear : ClearTo sources (key :: path)) :
    (deepMerge sources).atPath (key :: path) = mergeValues (sources.map (·.atPath (key :: path))) := by
  have hclear' : ClearTo (sources.map (·.atPath [key])) path := ClearTo.atPath hclear
  have hbelow := atPath_mergeValues (wellFormed_atPath hwell [key]) (hcompat.atPath [key]) hclear'
  rw [atPath_cons, (deepMerge_clean (tidy_top hplain hwell htop)).2]
  exact hbelow.trans (by rw [map_atPath_append]; rfl)

theorem Unaffected.lawful {sources : List JsValue} (hplain : ∀ o ∈ sources, o.isPlain = true)
    (hwell : ∀ o ∈ sources, WellFormed o)
    (hcompat : Compatible sources) (h : Unaffected sources) : Lawful (deepMerge sources) sources := by
  have htop : NoProtoAt sources [] := h [] (.inl rfl)
  have hclear : ∀ path, ClearTo sources path := fun path above _ _ hmeet => h above (.inr hmeet)
  refine ⟨fun key path => ?_, fun path fields proto hobj => ?_⟩
  · rw [atPath_deepMerge hplain hwell hcompat htop (hclear _)]
    exact mergeValues_alike _
  · cases path with
    | nil =>
      obtain ⟨fields', hclean, -⟩ := (deepMerge_clean (tidy_top hplain hwell htop)).1
      rw [atPath_nil, hclean] at hobj
      cases hobj
      rfl
    | cons key path =>
      rw [atPath_deepMerge hplain hwell hcompat htop (hclear _)] at hobj
      refine proto_mergeValues (wellFormed_atPath hwell _) (hcompat.atPath _) (fun hmeet => ?_) hobj
      rw [noProtoAt_atPath, List.append_nil]
      rw [meet_atPath, List.append_nil] at hmeet
      exact h _ (.inr hmeet)

/-- Where the result has a `__proto__` of its own it has another prototype too. -/
theorem Lawful.no_proto {sources : List JsValue} (h : Lawful (deepMerge sources) sources) {path : List JsString}
    (hmade : Made ((deepMerge sources).atPath path)) : NoProtoAt sources path := by
  obtain ⟨fields, proto, hobj, -, hproto⟩ := hmade
  have hnone := hproto (h.inherits path fields proto hobj)
  have hown : (deepMerge sources).atPath (path ++ [protoName]) = undefined := by
    rw [atPath_concat, hobj, own, lookup_eq_none.mpr hnone]
    rfl
  obtain ⟨key, rest, hpath⟩ : ∃ key rest, path ++ [protoName] = key :: rest := List.exists_cons_of_ne_nil (by simp)
  have hlast := h.last key rest
  rw [← hpath, hown] at hlast
  intro o ho
  have hundefined : lastDefined (sources.map (·.atPath (path ++ [protoName]))) = undefined := by
    rcases hlast with ⟨hplain, -⟩ | heq
    · cases hplain
    · exact heq.symm
  exact lastDefined_eq_undefined.mp hundefined _ (List.mem_map.mpr ⟨o, ho, rfl⟩)

theorem Lawful.unaffected {sources : List JsValue} (hplain : ∀ o ∈ sources, o.isPlain = true)
    (hwell : ∀ o ∈ sources, WellFormed o)
    (hcompat : Compatible sources) (h : Lawful (deepMerge sources) sources) : Unaffected sources := by
  have htop : NoProtoAt sources [] := h.no_proto (made_deepMerge sources)
  intro path hpath
  -- the shortest path with a `__proto__` where sources meet is merged as the others above it
  induction hlength : path.length using Nat.strong_induction_on generalizing path with
  | _ n ih =>
    cases path with
    | nil => exact htop
    | cons key path =>
      have hmeet : Meet sources (key :: path) := hpath.resolve_left (List.cons_ne_nil key path)
      have hclear : ClearTo sources (key :: path) := by
        intro above hpre hne hmeet'
        have hshort : above.length < n := by
          rw [← hlength]
          exact Nat.lt_of_le_of_ne hpre.length_le fun heq => hne (hpre.eq_of_length heq)
        exact ih above.length hshort above (.inr hmeet') rfl
      refine h.no_proto ?_
      rw [atPath_deepMerge hplain hwell hcompat htop hclear]
      exact made_mergeValues (hcompat _) hmeet

/-- Config objects without a conflict are merged by the law just if no `__proto__` is merged. -/
theorem deepMerge_lawful_iff (sources : List ConfigObject) (hcompat : Compatible (sources.map (·.value))) :
    Lawful (deepMerge (sources.map (·.value))) (sources.map (·.value)) ↔ Unaffected (sources.map (·.value)) := by
  have hplain : ∀ o ∈ sources.map (·.value), o.isPlain = true := by
    intro o ho
    obtain ⟨source, -, rfl⟩ := List.mem_map.mp ho
    exact source.plain
  have hwell : ∀ o ∈ sources.map (·.value), WellFormed o := by
    intro o ho
    obtain ⟨source, -, rfl⟩ := List.mem_map.mp ho
    exact source.wellFormed
  exact ⟨fun h => h.unaffected hplain hwell hcompat, fun h => h.lawful hplain hwell hcompat⟩

end FlowHelm.Config
