/-
  FlowHelm.Config.Args — which flags `loadConfigFromArgs` of src/config/loader.ts finds among other
  arguments.

  A flag without an equals sign takes the next argument as its value, whatever it is. So a flag
  that is not known and has no value takes the flag behind it: a known flag is lost, and of a flag
  in two arguments the second is read by itself. What the config has of a flag is the last value
  the loop reads for it.

  - `applyArgs_cons`: the loop, one argument at a time.
  - `applyFrom_item`: a flag with its value at a time.
  - `reads_flags`: the last value of every flag.
  - `args_same_iff`: when the other arguments make no difference.
  - `undisturbed_of_spare`: they make none where no known flag can be taken.
-/
import Mathlib.Data.List.Chain
import FlowHelm.Config.Loader

namespace FlowHelm.Config

open Js JsValue

/-! ## Arguments -/

inductive Known where
  | username
  | logLevel
  | dataDir
  | agentRuntime
  | config
  deriving DecidableEq

def Known.name : Known → JsString
  | username => ofString "username"
  | logLevel => ofString "log-level"
  | dataDir => ofString "data-dir"
  | agentRuntime => ofString "agent-runtime"
  | config => ofString "config"

/-- A flag's value, in an argument of its own or behind an equals sign. -/
inductive Style where
  | apart
  | joined

inductive Item where
  | known (flag : Known) (style : Style) (value : JsString)
  | word (text : JsString) (noFlag : dashes.isPrefixOf text = false)
  | unknown (name : JsString) (foreign : equals ∉ name ∧ ∀ flag : Known, name ≠ flag.name) (value : Option (Style × JsString))

def flagArgs (name : JsString) (value : JsString) : Style → List JsString
  | .apart => [dashes ++ name, value]
  | .joined => [dashes ++ name ++ equals :: value]

def Item.args : Item → List JsString
  | known flag style value => flagArgs flag.name value style
  | word text _ => [text]
  | unknown name _ none => [dashes ++ name]
  | unknown name _ (some (style, value)) => flagArgs name value style

def argsOf (items : List Item) : List JsString := items.flatMap Item.args

def Item.isKnown : Item → Bool
  | known .. => true
  | _ => false

def Item.flags : Item → List (JsString × JsValue)
  | known flag _ value => [(flag.name, .str value)]
  | _ => []

/-! ## What the loop reads -/

/-- An argument by itself: a flag with its value, or one whose value comes next. -/
def readArg (arg : JsString) : List (JsString × JsValue) × Option JsString :=
  if dashes.isPrefixOf arg = false then ([], none)
  else if equals ∈ arg then ([((arg.take (arg.idxOf equals)).drop 2, .str (arg.drop (arg.idxOf equals + 1)))], none)
  else ([], some (arg.drop 2))

/-- The flags read out of an item, where the flag `awaiting` takes its first argument. -/
def Item.read (item : Item) : Option JsString → List (JsString × JsValue) × Option JsString
  | none => match item with
    | known flag _ value => ([(flag.name, .str value)], none)
    | unknown name _ none => ([], some name)
    | _ => ([], none)
  | some name => match item.args with
    | first :: second :: _ => ((name, .str first) :: (readArg second).1, (readArg second).2)
    | first :: _ => ([(name, .str first)], none)
    | [] => ([], some name)

def readFlags : Option JsString → List Item → List (JsString × JsValue)
  | none, [] => []
  | some name, [] => [(name, .undefined)]
  | awaiting, item :: items => (item.read awaiting).1 ++ readFlags (item.read awaiting).2 items

/-- Of every known flag the last value that is read is the last there is. -/
def Undisturbed (items : List Item) : Prop :=
  ∀ flag : Known, flag ≠ .config → (readFlags none items).reverse.lookup flag.name =
    (items.flatMap Item.flags).reverse.lookup flag.name

def applyFlags (config : JsValue) (flags : List (JsString × JsValue)) : JsValue :=
  flags.foldl (fun config flag => applyFlag config flag.1 flag.2) config

/-- The loop where a flag awaits its value. -/
def applyFrom (config : JsValue) : Option JsString → List JsString → JsValue
  | none, args => applyArgs config args
  | some name, [] => applyFlag config name .undefined
  | some name, value :: args => applyArgs (applyFlag config name (.str value)) args

theorem applyArgs_cons (config : JsValue) (arg : JsString) (args : List JsString) :
    applyArgs config (arg :: args) = applyFrom (applyFlags config (readArg arg).1) (readArg arg).2 args := by
  unfold readArg
  rw [applyArgs.eq_def]
  dsimp only
  split
  · rfl
  · split
    · rfl
    · cases args <;> rfl

theorem dashes_isPrefixOf (name : JsString) : dashes.isPrefixOf (dashes ++ name) = true := by
  simp [dashes, ofString, utf16, List.isPrefixOf]

theorem equals_dashes {name : JsString} (h : equals ∉ name) : equals ∉ dashes ++ name := by
  have hdashes : equals ∉ dashes := by decide
  simp [hdashes, h]

theorem readArg_apart {name : JsString} (h : equals ∉ name) : readArg (dashes ++ name) = ([], some name) := by
  have hflag := dashes_isPrefixOf name
  rw [readArg, hflag, if_neg (by simp), if_neg (equals_dashes h)]
  rfl

theorem readArg_joined {name value : JsString} (h : equals ∉ name) :
    readArg (dashes ++ name ++ equals :: value) = ([(name, .str value)], none) := by
  have hflag : dashes.isPrefixOf (dashes ++ name ++ equals :: value) = true := by
    rw [List.append_assoc]
    exact dashes_isPrefixOf _
  have hindex : (dashes ++ name ++ equals :: value).idxOf equals = (dashes ++ name).length := by
    rw [List.idxOf_append_of_notMem (equals_dashes h), List.idxOf_cons_self, Nat.add_zero]
  have hvalue : (dashes ++ name ++ equals :: value).drop ((dashes ++ name).length + 1) = value := by
    rw [← List.drop_drop, List.drop_left]
    rfl
  rw [readArg, hflag, if_neg (by simp), if_pos (by simp), hindex, List.take_left, hvalue]
  rfl

theorem readArg_word {text : JsString} (h : dashes.isPrefixOf text = false) : readArg text = ([], none) := if_pos h

/-! ## Item by item -/

theorem name_equals (flag : Known) : equals ∉ flag.name := by
  cases flag <;> decide

theorem name_inj {flag flag' : Known} (h : flag.name = flag'.name) : flag = flag' := by
  cases flag <;> cases flag' <;> first | rfl | exact absurd h (by decide)

/-- A name that is not known does nothing. -/
theorem applyFlag_foreign {name : JsString} (h : ∀ flag : Known, name ≠ flag.name) (config value : JsValue) :
    applyFlag config name value = config := by
  have husername : name ≠ ofString "username" := h .username
  have hlogLevel : name ≠ ofString "log-level" := h .logLevel
  have hdataDir : name ≠ ofString "data-dir" := h .dataDir
  have hruntime : name ≠ ofString "agent-runtime" := h .agentRuntime
  simp [applyFlag, husername, hlogLevel, hdataDir, hruntime]

theorem applyFrom_flag {name value : JsString} (h : equals ∉ name) (config : JsValue) (style : Style) (args : List JsString) :
    applyArgs config (flagArgs name value style ++ args) = applyArgs (applyFlag config name (.str value)) args := by
  cases style with
  | apart =>
    rw [flagArgs, List.cons_append, applyArgs_cons, readArg_apart h]
    rfl
  | joined =>
    rw [flagArgs, List.singleton_append, applyArgs_cons, readArg_joined h]
    rfl

theorem Item.args_cases (item : Item) : (∃ first, item.args = [first]) ∨ ∃ first second, item.args = [first, second] := by
  have hflag : ∀ (name value : JsString) (style : Style),
      (∃ first, flagArgs name value style = [first]) ∨ ∃ first second, flagArgs name value style = [first, second] := by
    intro name value style
    cases style with
    | apart => exact .inr ⟨_, _, rfl⟩
    | joined => exact .inl ⟨_, rfl⟩
  cases item with
  | known flag style value => exact hflag flag.name value style
  | word text _ => exact .inl ⟨text, rfl⟩
  | unknown name _ value =>
    match value with
    | none => exact .inl ⟨_, rfl⟩
    | some (style, value) => exact hflag name value style

theorem applyFrom_item (config : JsValue) (awaiting : Option JsString) (item : Item) (args : List JsString) :
    applyFrom config awaiting (item.args ++ args) = applyFrom (applyFlags config (item.read awaiting).1)
        (item.read awaiting).2 args := by
  cases awaiting with
  | none =>
    cases item with
    | known flag style value => exact applyFrom_flag (name_equals flag) config style args
    | word text noFlag => exact (applyArgs_cons config text args).trans (by rw [readArg_word noFlag]; rfl)
    | unknown name foreign value =>
      match value with
      | none => exact (applyArgs_cons config _ args).trans (by rw [readArg_apart foreign.1]; rfl)
      | some (style, value) =>
        refine (applyFrom_flag foreign.1 config style args).trans ?_
        rw [applyFlag_foreign foreign.2]
        rfl
  | some name =>
    rcases item.args_cases with ⟨first, hargs⟩ | ⟨first, second, hargs⟩
    · simp only [Item.read, hargs]
      rfl
    · simp only [Item.read, hargs]
      exact applyArgs_cons (applyFlag config name (.str first)) second args

theorem applyFrom_items (config : JsValue) (awaiting : Option JsString) (items : List Item) :
    applyFrom config awaiting (argsOf items) = applyFlags config (readFlags awaiting items) := by
  induction items generalizing config awaiting with
  | nil => cases awaiting <;> rfl
  | cons item items ih =>
    rw [argsOf, List.flatMap_cons, applyFrom_item]
    refine (ih _ _).trans ?_
    cases awaiting <;> exact (List.foldl_append ..).symm

theorem loadConfigFromArgs_eq (items : List Item) : loadConfigFromArgs (argsOf items) = applyFlags empty (readFlags none items) :=
  applyFrom_items empty none items

/-! ## The last value of a flag -/

def Known.field : Known → Option JsString
  | username => some (ofString "username")
  | logLevel => some (ofString "logLevel")
  | dataDir => some (ofString "dataDir")
  | agentRuntime => some (ofString "agent")
  | config => none

/-- The property that a value becomes. -/
def Known.property : Known → JsValue → JsValue
  | agentRuntime, value => record [(ofString "runtime", value)]
  | _, value => value

theorem property_inj (flag : Known) : Function.Injective flag.property := by
  intro v w h
  cases flag with
  | agentRuntime => simpa [Known.property, record] using h
  | _ => exact h

theorem field_inj {flag flag' : Known} {key : JsString} (h : flag.field = some key) (h' : flag'.field = some key) :
    flag = flag' := by
  have heq := h.trans h'.symm
  cases flag <;> cases flag' <;> first | rfl | exact absurd heq (by decide)

theorem field_ne_proto {flag : Known} {key : JsString} (h : flag.field = some key) : key ≠ protoName := by
  rintro rfl
  cases flag <;> exact absurd h (by decide)

/-- The config has these values and no others. -/
structure Reads (config : JsValue) (last : Known → Option JsValue) : Prop where
  clean : Clean config
  field : ∀ flag key, flag.field = some key → config.entries.lookup key = (last flag).map flag.property
  other : ∀ key, (∀ flag : Known, flag.field ≠ some key) → config.entries.lookup key = none

theorem reads_empty : Reads empty fun _ => none := ⟨clean_empty, fun _ _ _ => rfl, fun _ _ => rfl⟩

theorem Reads.set {config : JsValue} {last : Known → Option JsValue} (h : Reads config last) (flag : Known) {key : JsString}
    (hkey : flag.field = some key) (value : JsValue) :
    Reads (config.set key (flag.property value)) fun flag' => if flag'.name = flag.name then some value else last flag' := by
  have hproto := field_ne_proto hkey
  have hlookup : ∀ key', (config.set key (flag.property value)).entries.lookup key' =
      if key' = key then some (flag.property value) else config.entries.lookup key' := by
    intro key'
    rw [h.clean.set_eq hproto]
    exact lookup_assign key key' _ _
  refine ⟨(set_clean h.clean hproto _).1, fun flag' key' hkey' => ?_, fun key' hkey' => ?_⟩
  · rw [hlookup]
    by_cases hflag : flag' = flag
    · subst hflag
      rw [hkey, Option.some_inj] at hkey'
      simp [hkey']
    · have hne : key' ≠ key := fun heq => hflag (field_inj hkey' (heq ▸ hkey))
      rw [if_neg hne, if_neg fun heq => hflag (name_inj heq), h.field flag' key' hkey']
  · have hne : key' ≠ key := fun heq => hkey' flag (heq ▸ hkey)
    rw [hlookup, if_neg hne, h.other key' hkey']

/-- The agent has nothing but its runtime. -/
theorem Reads.nested {config : JsValue} {last : Known → Option JsValue} (h : Reads config last) (value : JsValue) :
    setNested config (ofString "agent") (ofString "runtime") value =
        config.set (ofString "agent") (Known.agentRuntime.property value) := by
  have hagent : ofString "agent" ≠ protoName := by decide
  have hruntime : ofString "runtime" ≠ protoName := by decide
  have hown : config.own (ofString "agent") = ((last .agentRuntime).map Known.agentRuntime.property).getD undefined := by
    rw [← h.field .agentRuntime _ rfl]
    obtain ⟨fields, hconfig, -⟩ := h.clean
    rw [hconfig]
    rfl
  unfold setNested
  rw [get_clean h.clean hagent, hown]
  cases last .agentRuntime with
  | none =>
    refine congrArg _ ((clean_empty.set_eq hruntime value).trans ?_)
    rfl
  | some old =>
    have hclean : Clean (record [(ofString "runtime", old)]) :=
      ⟨_, rfl, List.nodup_singleton _, by simpa using Ne.symm hruntime⟩
    refine congrArg _ ((hclean.set_eq hruntime value).trans ?_)
    simp [assign, entries, record, Known.property]

theorem Reads.apply {config : JsValue} {last : Known → Option JsValue} (h : Reads config last) (name : JsString)
    (value : JsValue) :
    Reads (applyFlag config name value) fun flag => if flag.name = name then some value else last flag := by
  by_cases hknown : ∃ flag : Known, flag.name = name
  · obtain ⟨flag, rfl⟩ := hknown
    cases flag with
    | username => exact h.set .username rfl value
    | logLevel => exact h.set .logLevel rfl value
    | dataDir => exact h.set .dataDir rfl value
    | agentRuntime =>
      have hset := h.set .agentRuntime rfl value
      rw [← h.nested value] at hset
      exact hset
    | config =>
      refine ⟨h.clean, fun flag key hkey => ?_, h.other⟩
      have hne : flag.name ≠ Known.config.name := by
        intro heq
        rw [name_inj heq] at hkey
        cases hkey
      rw [if_neg hne]
      exact h.field flag key hkey
  · rw [not_exists] at hknown
    rw [applyFlag_foreign fun flag => Ne.symm (hknown flag)]
    simpa [hknown] using h

theorem reads_flags (flags : List (JsString × JsValue)) :
    Reads (applyFlags empty flags) fun flag => flags.reverse.lookup flag.name := by
  induction flags using List.reverseRecOn with
  | nil => exact reads_empty
  | append_singleton flags entry ih =>
    have happly := ih.apply entry.1 entry.2
    rw [applyFlags, List.foldl_append]
    simp only [List.reverse_append, List.reverse_singleton, List.singleton_append, lookup_cons]
    exact happly

/-! ## Other arguments -/

/-- The same properties, in whatever order. -/
def SameConfig (config config' : JsValue) : Prop := ∀ key, config.entries.lookup key = config'.entries.lookup key

theorem Reads.same_iff {config config' : JsValue} {last last' : Known → Option JsValue} (h : Reads config last)
    (h' : Reads config' last') :
    SameConfig config config' ↔ ∀ flag : Known, flag ≠ .config → last flag = last' flag := by
  constructor
  · intro hsame flag hflag
    obtain ⟨key, hkey⟩ : ∃ key, flag.field = some key := by
      cases flag with
      | config => exact absurd rfl hflag
      | _ => exact ⟨_, rfl⟩
    have heq := hsame key
    rw [h.field flag key hkey, h'.field flag key hkey] at heq
    exact Option.map_injective (property_inj flag) heq
  · intro hlast key
    by_cases hfield : ∃ flag : Known, flag.field = some key
    · obtain ⟨flag, hkey⟩ := hfield
      have hflag : flag ≠ .config := by
        rintro rfl
        cases hkey
      rw [h.field flag key hkey, h'.field flag key hkey, hlast flag hflag]
    · rw [not_exists] at hfield
      rw [h.other key hfield, h'.other key hfield]

/-- A flag that is not known, where its value would be the next argument. -/
def Item.isBare : Item → Bool
  | unknown _ _ none => true
  | _ => false

/-- A flag in front may take it without a difference. -/
def Item.isSpare (item : Item) : Bool := !item.isKnown && item.args.length == 1

/-- No flag takes what could not be spared. -/
def Spared (items : List Item) : Prop := items.IsChain fun item next => item.isBare = true → next.isSpare = true

theorem Item.read_spare {item : Item} (h : item.isSpare = true) (name : JsString) :
    (∃ first, item.read (some name) = ([(name, .str first)], none)) ∧ item.flags = [] := by
  simp only [Item.isSpare, Bool.and_eq_true, Bool.not_eq_true', beq_iff_eq] at h
  obtain ⟨hknown, hlength⟩ := h
  constructor
  · obtain ⟨first, hargs⟩ := List.length_eq_one_iff.mp hlength
    exact ⟨first, by simp only [Item.read, hargs]⟩
  · cases item with
    | known flag style value => cases hknown
    | _ => rfl

/-- What is read of known flags where every flag that is taken could be spared. -/
theorem lookup_readFlags {items : List Item} (h : Spared items)
    (awaiting : Option JsString) (hawaiting : ∀ name, awaiting = some name →
      (∀ flag : Known, name ≠ flag.name) ∧ ∀ item ∈ items.head?, item.isSpare = true) (flag : Known) :
    (readFlags awaiting items).reverse.lookup flag.name = (items.flatMap Item.flags).reverse.lookup flag.name := by
  induction items generalizing awaiting with
  | nil =>
    cases awaiting with
    | none => rfl
    | some name =>
      have hne : flag.name ≠ name := Ne.symm ((hawaiting name rfl).1 flag)
      simp [readFlags, lookup_cons, hne]
  | cons item items ih =>
    have hread : (item.read awaiting).1.reverse.lookup flag.name = item.flags.reverse.lookup flag.name ∧
        ∀ name, (item.read awaiting).2 = some name → (∀ flag : Known, name ≠ flag.name) ∧ item.isBare = true := by
      cases awaiting with
      | none =>
        cases item with
        | unknown name foreign value =>
          cases value with
          | none =>
            refine ⟨rfl, fun name' hname => ?_⟩
            cases hname
            exact ⟨foreign.2, rfl⟩
          | some value => exact ⟨rfl, nofun⟩
        | _ => exact ⟨rfl, nofun⟩
      | some name =>
        obtain ⟨hforeign, hspare⟩ := hawaiting name rfl
        obtain ⟨⟨first, hfirst⟩, hflags⟩ := Item.read_spare (hspare item rfl) name
        have hne : flag.name ≠ name := Ne.symm (hforeign flag)
        rw [hfirst, hflags]
        exact ⟨by simp [lookup_cons, hne], nofun⟩
    have hrest := ih (List.IsChain.tail h) (item.read awaiting).2 fun name hname => by
      obtain ⟨hforeign, hbare⟩ := hread.2 name hname
      refine ⟨hforeign, fun next hnext => ?_⟩
      cases items with
      | nil => cases hnext
      | cons next' items =>
        cases hnext
        exact (List.isChain_cons_cons.mp h).1 hbare
    have hcons : readFlags awaiting (item :: items) = (item.read awaiting).1 ++ readFlags (item.read awaiting).2 items := by
      cases awaiting <;> rfl
    rw [hcons, List.flatMap_cons, List.reverse_append, List.reverse_append, List.lookup_append, List.lookup_append,
      hrest, hread.1]

/-- A flag that is not known and has no value does nothing where neither a known flag nor one in
    two arguments is next. -/
theorem undisturbed_of_spare {items : List Item} (h : Spared items) :
    Undisturbed items := fun flag _ => lookup_readFlags h none nofun flag

/-- Of known flags alone every one is read. -/
theorem readFlags_known (items : List Item) : readFlags none (items.filter Item.isKnown) = items.flatMap Item.flags := by
  induction items with
  | nil => rfl
  | cons item items ih =>
    cases item with
    | known flag style value =>
      rw [List.filter_cons_of_pos rfl, List.flatMap_cons, ← ih]
      rfl
    | word text noFlag => exact ih
    | unknown name foreign value => exact ih

/-- The other arguments make no difference just if of every known flag the last value that is read
    is the last there is. -/
theorem args_same_iff (items : List Item) :
    SameConfig (loadConfigFromArgs (argsOf items)) (loadConfigFromArgs (argsOf (items.filter Item.isKnown))) ↔
        Undisturbed items := by
  rw [loadConfigFromArgs_eq, loadConfigFromArgs_eq, (reads_flags _).same_iff (reads_flags _), readFlags_known]
  rfl

/-- `--verbose --username=bob`: the second flag is the value of the first. -/
theorem a_flag_is_taken :
    ∃ items : List Item, argsOf items = [ofString "--verbose", ofString "--username=bob"] ∧
      argsOf (items.filter Item.isKnown) = [ofString "--username=bob"] ∧ loadConfigFromArgs (argsOf items) = empty ∧
      (loadConfigFromArgs (argsOf (items.filter Item.isKnown))).own (ofString "username") = .str (ofString "bob") ∧
      ¬ SameConfig (loadConfigFromArgs (argsOf items)) (loadConfigFromArgs (argsOf (items.filter Item.isKnown))) := by
  have hforeign : equals ∉ ofString "verbose" ∧ ∀ flag : Known, ofString "verbose" ≠ flag.name := by
    refine ⟨by decide, fun flag => ?_⟩
    cases flag <;> decide
  refine ⟨[.unknown (ofString "verbose") hforeign none, .known .username .joined (ofString "bob")], rfl, rfl, rfl, rfl,
    fun hsame => ?_⟩
  have husername := hsame (ofString "username")
  cases husername

end FlowHelm.Config
