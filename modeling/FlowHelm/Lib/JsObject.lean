/-
  FlowHelm.Lib.JsObject — JavaScript objects: own properties, a prototype, and the `__proto__`
  of Object.prototype, which reads and sets the prototype.

  A property that an object does not have itself is looked for along its prototypes. The built-in
  ones have functions only, which no value here is, and the accessor of `__proto__`. An array is
  an object too; its elements are its properties.

  - `find_own` / `find_builtin`: where a property is found.
  - `set_accessor` / `set_assign`: what an assignment does.
  - `get_clean` / `set_clean`: where the built-in prototype and no own `__proto__` is.
  - `Made.set`: a `__proto__` of its own needs another prototype first.
  - `depth_get` / `depth_set`: how deep the objects are.
-/
import Mathlib.Data.List.Nodup
import FlowHelm.Lib.JsonNumber

namespace Js

inductive JsValue where
  | undefined
  | null
  | bool (b : Bool)
  | num (x : JsNumber)
  | str (s : JsString)
  /-- No `proto` is the built-in prototype. -/
  | obj (array : Bool) (fields : List (JsString × JsValue)) (proto : Option JsValue)

def protoName : JsString := ofString "__proto__"

namespace JsValue

/-- An object of Object.prototype with these properties. -/
def record (fields : List (JsString × JsValue)) : JsValue := obj false fields none

def empty : JsValue := record []

/-- Object.prototype: nothing that `Object.entries` gives, and nothing above it. -/
def objectPrototype : JsValue := obj false [] (some null)

/-- `typeof v === 'object' && v !== null && !Array.isArray(v)`. -/
def isPlain : JsValue → Bool
  | obj false _ _ => true
  | _ => false

def isUndefined : JsValue → Bool
  | undefined => true
  | _ => false

/-- What the setter of `__proto__` takes. -/
def isPrototype : JsValue → Bool
  | obj .. => true
  | null => true
  | _ => false

def entries : JsValue → List (JsString × JsValue)
  | obj _ fields _ => fields
  | _ => []

/-- What a property is found to be. -/
inductive Found where
  | value (v : JsValue)
  | accessor
  | nothing

/-- Along the prototypes. -/
def find (key : JsString) : JsValue → Found
  | obj _ fields none => match fields.lookup key with
    | some v => .value v
    | none => if key = protoName then .accessor else .nothing
  | obj _ fields (some proto) => match fields.lookup key with
    | some v => .value v
    | none => find key proto
  | _ => .nothing

def prototype : JsValue → JsValue
  | obj _ _ (some proto) => proto
  | obj _ _ none => objectPrototype
  | _ => undefined

/-- `v[key]`. -/
def get (v : JsValue) (key : JsString) : JsValue := match find key v with
  | .value w => w
  | .accessor => v.prototype
  | .nothing => undefined

/-- An own property, in its place or as the last. -/
def assign (key : JsString) (w : JsValue) : List (JsString × JsValue) → List (JsString × JsValue)
  | [] => [(key, w)]
  | f :: fields => if f.1 = key then (key, w) :: fields else f :: assign key w fields

/-- `v[key] = w`. -/
def set (v : JsValue) (key : JsString) (w : JsValue) : JsValue := match v with
  | obj array fields proto =>
    match fields.lookup key, find key v with
    | none, .accessor => if w.isPrototype then obj array fields (some w) else v
    | _, _ => obj array (assign key w fields) proto
  | _ => v

/-- An own property of a plain object. -/
def own (v : JsValue) (key : JsString) : JsValue := match v with
  | obj false fields _ => (fields.lookup key).getD undefined
  | _ => undefined

/-- What is at a path of own properties, through plain objects. -/
def atPath (v : JsValue) (path : List JsString) : JsValue := path.foldl own v

@[simp] theorem atPath_nil (v : JsValue) : v.atPath [] = v := rfl

@[simp] theorem atPath_cons (v : JsValue) (key : JsString) (path : List JsString) : v.atPath (key :: path) =
    (v.own key).atPath path := rfl

theorem atPath_append (v : JsValue) (path more : List JsString) : v.atPath (path ++ more) = (v.atPath path).atPath more :=
  List.foldl_append ..

theorem atPath_concat (v : JsValue) (path : List JsString) (key : JsString) :
    v.atPath (path ++ [key]) = (v.atPath path).own key := by
  rw [atPath_append, atPath_cons, atPath_nil]

@[simp] theorem own_record (fields : List (JsString × JsValue)) (key : JsString) :
    (record fields).own key = (fields.lookup key).getD undefined := rfl

theorem own_of_not_plain {v : JsValue} (h : v.isPlain = false) (key : JsString) : v.own key = undefined := by
  cases v with
  | obj array fields proto =>
    cases array with
    | false => cases h
    | true => rfl
  | _ => rfl

@[simp] theorem own_undefined (key : JsString) : undefined.own key = undefined := rfl

@[simp] theorem atPath_undefined (path : List JsString) : undefined.atPath path = undefined := by
  induction path with
  | nil => rfl
  | cons key path ih => rw [atPath_cons, own_undefined, ih]

theorem atPath_of_not_plain {v : JsValue} (h : v.isPlain = false) {path : List JsString} (hpath : path ≠ []) :
    v.atPath path = undefined := by
  cases path with
  | nil => exact absurd rfl hpath
  | cons key path => rw [atPath_cons, own_of_not_plain h, atPath_undefined]

theorem isUndefined_iff {v : JsValue} : v.isUndefined = true ↔ v = undefined := by
  cases v <;> simp [isUndefined]

theorem defined_of_plain {v : JsValue} (h : v.isPlain = true) : v ≠ undefined := by
  rintro rfl
  cases h

/-! ## Fields -/

abbrev keys (fields : List (JsString × JsValue)) : List JsString := fields.map (·.1)

theorem lookup_cons (f : JsString × JsValue) (fields : List (JsString × JsValue)) (key : JsString) :
    (f :: fields).lookup key = if key = f.1 then some f.2 else fields.lookup key := by
  rw [List.lookup_cons]
  by_cases hkey : key = f.1
  · simp [hkey]
  · rw [beq_false_of_ne hkey, if_neg hkey]

theorem lookup_eq_none {fields : List (JsString × JsValue)} {key : JsString} : fields.lookup key = none ↔ key ∉ keys fields := by
  induction fields with
  | nil => simp
  | cons f fields ih =>
    rw [lookup_cons]
    by_cases hkey : key = f.1 <;> simp [hkey, ih]

theorem assign_same {f : JsString × JsValue} {key : JsString} (h : f.1 = key) (w : JsValue) (fields : List (JsString × JsValue)) :
    assign key w (f :: fields) = (key, w) :: fields := if_pos h

theorem assign_other {f : JsString × JsValue} {key : JsString} (h : f.1 ≠ key) (w : JsValue)
    (fields : List (JsString × JsValue)) :
    assign key w (f :: fields) = f :: assign key w fields := if_neg h

theorem lookup_assign (key k : JsString) (w : JsValue) (fields : List (JsString × JsValue)) :
    (assign key w fields).lookup k = if k = key then some w else fields.lookup k := by
  induction fields with
  | nil => exact lookup_cons ..
  | cons f fields ih =>
    by_cases hf : f.1 = key
    · rw [assign_same hf, lookup_cons, lookup_cons, hf]
      by_cases hk : k = key <;> simp [hk]
    · rw [assign_other hf, lookup_cons, lookup_cons, ih]
      by_cases hk : k = key
      · rw [if_pos hk, if_neg fun heq => hf (heq.symm.trans hk), if_pos hk]
      · rw [if_neg hk, if_neg hk]

theorem mem_keys_assign {key k : JsString} {w : JsValue} {fields : List (JsString × JsValue)} :
    k ∈ keys (assign key w fields) ↔ k = key ∨ k ∈ keys fields := by
  rw [← not_iff_not, ← lookup_eq_none, lookup_assign, not_or, ← lookup_eq_none]
  by_cases hk : k = key <;> simp [hk]

theorem nodup_assign (key : JsString) (w : JsValue) {fields : List (JsString × JsValue)} (h : (keys fields).Nodup) :
    (keys (assign key w fields)).Nodup := by
  induction fields with
  | nil => exact List.nodup_singleton key
  | cons f fields ih =>
    have hcons := List.nodup_cons.mp h
    by_cases hf : f.1 = key
    · rw [assign_same hf]
      exact List.nodup_cons.mpr ⟨hf ▸ hcons.1, hcons.2⟩
    · rw [assign_other hf]
      refine List.nodup_cons.mpr ⟨fun hmem => ?_, ih hcons.2⟩
      exact (mem_keys_assign.mp hmem).elim hf hcons.1

/-! ## Properties -/

section Properties

variable {array : Bool} {fields : List (JsString × JsValue)} {proto : Option JsValue} {above v w : JsValue} {key : JsString}

theorem find_own (h : fields.lookup key = some w) : find key (obj array fields proto) = .value w := by
  cases proto with
  | none =>
    show (match fields.lookup key with
      | some v => Found.value v
      | none => if key = protoName then .accessor else .nothing) = _
    rw [h]
  | some above =>
    show (match fields.lookup key with
      | some v => Found.value v
      | none => find key above) = _
    rw [h]

theorem find_builtin (h : fields.lookup key = none) :
    find key (obj array fields none) = if key = protoName then .accessor else .nothing := by
  show (match fields.lookup key with
    | some v => Found.value v
    | none => if key = protoName then .accessor else .nothing) = _
  rw [h]

theorem get_of_find : v.get key = match find key v with
    | .value w => w
    | .accessor => v.prototype
    | .nothing => undefined := rfl

theorem get_value (h : find key v = .value w) : v.get key = w := by rw [get_of_find, h]

theorem get_accessor (h : find key v = .accessor) : v.get key = v.prototype := by rw [get_of_find, h]

theorem get_nothing (h : find key v = .nothing) : v.get key = undefined := by rw [get_of_find, h]

theorem set_accessor (h : fields.lookup key = none) (hfind : find key (obj array fields proto) = .accessor) :
    (obj array fields proto).set key w = if w.isPrototype then obj array fields (some w) else obj array fields proto := by
  show (match fields.lookup key, find key (obj array fields proto) with
    | none, .accessor => if w.isPrototype then obj array fields (some w) else obj array fields proto
    | _, _ => obj array (assign key w fields) proto) = _
  rw [h, hfind]

theorem set_assign (h : fields.lookup key = none → find key (obj array fields proto) ≠ .accessor) :
    (obj array fields proto).set key w = obj array (assign key w fields) proto := by
  show (match fields.lookup key, find key (obj array fields proto) with
    | none, .accessor => if w.isPrototype then obj array fields (some w) else obj array fields proto
    | _, _ => obj array (assign key w fields) proto) = _
  cases hlookup : fields.lookup key with
  | some v => rfl
  | none =>
    cases hfind : find key (obj array fields proto) with
    | accessor => exact absurd hfind (h hlookup)
    | _ => rfl

end Properties

/-! ## Objects of Object.prototype -/

/-- Without a `__proto__` of its own. -/
def Clean (v : JsValue) : Prop := ∃ fields, v = record fields ∧ (keys fields).Nodup ∧ protoName ∉ keys fields

theorem clean_empty : Clean empty := ⟨[], rfl, .nil, nofun⟩

theorem Clean.isPlain {v : JsValue} (h : Clean v) : v.isPlain = true := by
  obtain ⟨fields, rfl, -⟩ := h
  rfl

theorem get_clean {v : JsValue} (h : Clean v) {key : JsString} (hkey : key ≠ protoName) : v.get key = v.own key := by
  obtain ⟨fields, rfl, -⟩ := h
  rw [own_record]
  cases hlookup : fields.lookup key with
  | none => exact get_nothing ((find_builtin hlookup).trans (if_neg hkey))
  | some w => exact get_value (find_own hlookup)

theorem Clean.set_eq {v : JsValue} (h : Clean v) {key : JsString} (hkey : key ≠ protoName) (w : JsValue) :
    v.set key w = record (assign key w v.entries) := by
  obtain ⟨fields, rfl, -⟩ := h
  refine set_assign fun hlookup => ?_
  rw [find_builtin hlookup, if_neg hkey]
  exact nofun

theorem set_clean {v : JsValue} (h : Clean v) {key : JsString} (hkey : key ≠ protoName) (w : JsValue) :
    Clean (v.set key w) ∧ ∀ k, (v.set key w).own k = if k = key then w else v.own k := by
  rw [h.set_eq hkey]
  obtain ⟨fields, rfl, hnodup, hproto⟩ := h
  refine ⟨⟨_, rfl, nodup_assign key w hnodup, fun hmem => ?_⟩, fun k => ?_⟩
  · exact (mem_keys_assign.mp hmem).elim (fun heq => hkey heq.symm) hproto
  · show (record (assign key w fields)).own k = if k = key then w else (record fields).own k
    rw [own_record, own_record, lookup_assign]
    by_cases hk : k = key <;> simp [hk]

/-- A plain object that has got its properties one after another: a `__proto__` of its own needs
    another prototype first. -/
def Made (v : JsValue) : Prop :=
  ∃ fields proto, v = obj false fields proto ∧ (keys fields).Nodup ∧ (proto = none → protoName ∉ keys fields)

theorem Clean.made {v : JsValue} (h : Clean v) : Made v := by
  obtain ⟨fields, rfl, hnodup, hproto⟩ := h
  exact ⟨fields, none, rfl, hnodup, fun _ => hproto⟩

theorem Made.set {v : JsValue} (h : Made v) (key : JsString) (w : JsValue) : Made (v.set key w) := by
  obtain ⟨fields, proto, rfl, hnodup, hproto⟩ := h
  have hassign : (proto = none → key ≠ protoName) → Made (obj false (assign key w fields) proto) := by
    intro hkey
    refine ⟨_, proto, rfl, nodup_assign key w hnodup, fun hnone hmem => ?_⟩
    exact (mem_keys_assign.mp hmem).elim (fun heq => hkey hnone heq.symm) (hproto hnone)
  by_cases haccessor : fields.lookup key = none ∧ find key (obj false fields proto) = .accessor
  · rw [set_accessor haccessor.1 haccessor.2]
    split
    · exact ⟨fields, some w, rfl, hnodup, nofun⟩
    · exact ⟨fields, proto, rfl, hnodup, hproto⟩
  · rw [set_assign (not_and.mp haccessor)]
    refine hassign ?_
    rintro rfl rfl
    have hnone := lookup_eq_none.mpr (hproto rfl)
    exact haccessor ⟨hnone, (find_builtin hnone).trans (if_pos rfl)⟩

/-! ## Depths -/

mutual

/-- How deep the objects in it are, and those above it. -/
def depth : JsValue → Nat
  | obj _ fields proto => 1 + max (depths fields) (protoDepth proto)
  | _ => 0

def depths : List (JsString × JsValue) → Nat
  | [] => 0
  | (_, v) :: fields => max v.depth (depths fields)

def protoDepth : Option JsValue → Nat
  | none => 0
  | some proto => proto.depth

end

@[simp] theorem depth_obj (array : Bool) (fields : List (JsString × JsValue)) (proto : Option JsValue) :
    (obj array fields proto).depth = 1 + max (depths fields) (protoDepth proto) := rfl

@[simp] theorem depths_nil : depths [] = 0 := rfl

@[simp] theorem depths_cons (f : JsString × JsValue) (fields : List (JsString × JsValue)) :
    depths (f :: fields) = max f.2.depth (depths fields) := rfl

@[simp] theorem protoDepth_none : protoDepth none = 0 := rfl

@[simp] theorem protoDepth_some (proto : JsValue) : protoDepth (some proto) = proto.depth := rfl

theorem depth_le_depths {f : JsString × JsValue} {fields : List (JsString × JsValue)} (h : f ∈ fields) :
    f.2.depth ≤ depths fields := by
  induction fields with
  | nil => cases h
  | cons g fields ih =>
    rw [depths_cons]
    rcases List.mem_cons.mp h with rfl | h
    · exact le_max_left ..
    · exact (ih h).trans (le_max_right ..)

theorem depth_entries {v : JsValue} {f : JsString × JsValue} (h : f ∈ v.entries) : f.2.depth < v.depth := by
  cases v with
  | obj array fields proto =>
    have hle : f.2.depth ≤ depths fields := depth_le_depths h
    rw [depth_obj]
    omega
  | _ => cases h

theorem mem_of_lookup {fields : List (JsString × JsValue)} {key : JsString} {w : JsValue} (h : fields.lookup key = some w) :
    (key, w) ∈ fields := by
  obtain ⟨before, after, hfields, -⟩ := List.lookup_eq_some_iff.mp h
  rw [hfields]
  simp

theorem depth_of_lookup {array : Bool} {fields : List (JsString × JsValue)} {proto : Option JsValue}
    {key : JsString} {w : JsValue}
    (h : fields.lookup key = some w) : w.depth < (obj array fields proto).depth := by
  have hle : w.depth ≤ depths fields := depth_le_depths (mem_of_lookup h)
  rw [depth_obj]
  omega

theorem depth_find {key : JsString} {v w : JsValue} (h : find key v = .value w) : w.depth < v.depth := by
  fun_induction find key v with
  | case1 array fields v hlookup =>
    obtain rfl : v = w := by simpa using h
    exact depth_of_lookup hlookup
  | case2 => simp at h
  | case3 => simp at h
  | case4 array fields proto v hlookup =>
    obtain rfl : v = w := by simpa using h
    exact depth_of_lookup hlookup
  | case5 array fields proto hlookup ih =>
    have hlt := ih h
    rw [depth_obj, protoDepth_some]
    omega
  | case6 => simp at h

theorem depth_prototype (v : JsValue) : v.prototype.depth ≤ max 1 (v.depth - 1) := by
  cases v with
  | obj array fields proto =>
    cases proto with
    | none => exact le_max_left ..
    | some above =>
      show above.depth ≤ _
      rw [depth_obj, protoDepth_some]
      omega
  | _ => exact Nat.zero_le _

theorem depth_get (v : JsValue) (key : JsString) : (v.get key).depth ≤ max 1 (v.depth - 1) := by
  cases hfind : find key v with
  | value w =>
    have hlt := depth_find hfind
    rw [get_value hfind]
    omega
  | accessor =>
    rw [get_accessor hfind]
    exact depth_prototype v
  | nothing =>
    rw [get_nothing hfind]
    exact Nat.zero_le _

theorem depths_assign (key : JsString) (w : JsValue) (fields : List (JsString × JsValue)) :
    depths (assign key w fields) ≤ max (depths fields) w.depth := by
  induction fields with
  | nil => exact max_comm w.depth 0 ▸ le_refl _
  | cons f fields ih =>
    by_cases hf : f.1 = key
    · rw [assign_same hf]
      simp only [depths_cons]
      omega
    · rw [assign_other hf]
      simp only [depths_cons]
      omega

theorem depth_set (v : JsValue) (key : JsString) (w : JsValue) : (v.set key w).depth ≤ max v.depth (1 + w.depth) := by
  cases v with
  | obj array fields proto =>
    by_cases haccessor : fields.lookup key = none ∧ find key (obj array fields proto) = .accessor
    · rw [set_accessor haccessor.1 haccessor.2]
      split
      · simp only [depth_obj, protoDepth_some]
        omega
      · exact le_max_left ..
    · have hassign := depths_assign key w fields
      rw [set_assign (not_and.mp haccessor)]
      simp only [depth_obj]
      omega
  | _ => exact le_max_left ..

end JsValue

end Js
