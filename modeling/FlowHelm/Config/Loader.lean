/-
  FlowHelm.Config.Loader — src/config/loader.ts: the config from its file, the environment and the
  command line, merged in this order.

  The files, the YAML parser and the schema are parameters, and so is the home directory. What the
  environment and the command line give is built of assignments to fixed names.

  - `Built.set` / `Built.wellFormed`: what such assignments build.
  - `loadConfigFromEnv_built` / `loadConfigFromArgs_built`: these two are built so.
  - `config_precedence`: which value of the three a path has.
-/
import FlowHelm.Config.Merge
import FlowHelm.Lib.JsInteger
import FlowHelm.Lib.PosixPath

namespace FlowHelm.Config

open Js JsValue

/-! ## The file -/

section File

variable {E : Type} (home : JsString) (readFile : JsString → Option JsString) (parseYaml : JsString → Except E JsValue)

inductive LoadError (E : Type) where
  /-- What the YAML parser or the schema throws. -/
  | thrown (e : E)
  | notAnObject (filePath type : JsString)

/-- `path.resolve(dir, p)` where only `dir` is absolute. -/
def resolve (dir p : JsString) : JsString :=
  PosixPath.slash :: [PosixPath.slash].intercalate (PosixPath.resolve (dir ++ PosixPath.slash :: p))

def expandHome (path : JsString) : JsString := if (ofString "~/").isPrefixOf path then resolve home (path.drop 2) else path

def configDir : JsString := ofString "~/.flowhelm"

def configFileName : JsString := ofString "config.yaml"

def typeOf : JsValue → JsString
  | .undefined => ofString "undefined"
  | .null | .obj .. => ofString "object"
  | .bool _ => ofString "boolean"
  | .num _ => ofString "number"
  | .str _ => ofString "string"

/-- A file that is not there gives an empty config. -/
def loadConfigFile (configPath : Option JsString) : Except (LoadError E) JsValue :=
  let filePath := configPath.getD (resolve (expandHome home configDir) configFileName)
  match readFile filePath with
  | none => .ok empty
  | some raw => match parseYaml raw with
    | .error e => .error (.thrown e)
    | .ok .null | .ok .undefined => .ok empty
    | .ok parsed => if typeOf parsed ≠ ofString "object" then .error (.notAnObject filePath (typeOf parsed)) else .ok parsed

end File

/-! ## The environment -/

/-- The own properties, copied. -/
def spread (v : JsValue) : JsValue := record v.entries

/-- The names of the environment, and where their values go. -/
def simple : List (JsString × JsString) :=
  [("FLOWHELM_USERNAME", "username"), ("FLOWHELM_LOG_LEVEL", "logLevel"), ("FLOWHELM_DATA_DIR", "dataDir"),
    ("FLOWHELM_DB_PATH", "dbPath"), ("FLOWHELM_POLL_INTERVAL", "pollInterval")].map fun e => (ofString e.1, ofString e.2)

def simpleStep (env : JsString → Option JsString) (config : JsValue) (e : JsString × JsString) : JsValue :=
  match env e.1 with
  | none => config
  | some val => config.set e.2 (if e.2 = ofString "pollInterval" then .num (JsNumber.ofText val) else .str val)

/-- One property of an object in the config, the others copied. -/
def setNested (config : JsValue) (group key : JsString) (value : JsValue) : JsValue :=
  config.set group ((spread (config.get group)).set key value)

def loadConfigFromEnv (env : JsString → Option JsString) : JsValue :=
  let config := simple.foldl (simpleStep env) empty
  let config := match env (ofString "FLOWHELM_AGENT_RUNTIME") with
    | none => config
    | some runtime => setNested config (ofString "agent") (ofString "runtime") (.str runtime)
  let config := match env (ofString "FLOWHELM_CONTAINER_RUNTIME") with
    | none => config
    | some runtime => setNested config (ofString "container") (ofString "runtime") (.str runtime)
  match env (ofString "FLOWHELM_TELEGRAM_BOT_TOKEN") with
  | none => config
  | some token => setNested config (ofString "channels") (ofString "telegram") (empty.set (ofString "botToken") (.str token))

/-! ## The command line -/

def dashes : JsString := ofString "--"

def equals : UInt16 := 0x3D

/-- The `switch`; `config` and a key that is not known do nothing. -/
def applyFlag (config : JsValue) (key : JsString) (value : JsValue) : JsValue :=
  if key = ofString "username" then config.set (ofString "username") value
  else if key = ofString "log-level" then config.set (ofString "logLevel") value
  else if key = ofString "data-dir" then config.set (ofString "dataDir") value
  else if key = ofString "agent-runtime" then setNested config (ofString "agent") (ofString "runtime") value
  else config

/-- The loop: a flag without an equals sign takes the next argument. -/
def applyArgs (config : JsValue) : List JsString → JsValue
  | [] => config
  | arg :: args =>
    if dashes.isPrefixOf arg = false then applyArgs config args
    else if equals ∈ arg then
      let eqIndex := arg.idxOf equals
      applyArgs (applyFlag config ((arg.take eqIndex).drop 2) (.str (arg.drop (eqIndex + 1)))) args
    else match args with
      | [] => applyFlag config (arg.drop 2) .undefined
      | value :: args => applyArgs (applyFlag config (arg.drop 2) (.str value)) args

def loadConfigFromArgs (args : List JsString) : JsValue := applyArgs empty args

def getConfigPathFromArgs : List JsString → Option JsString
  | [] => none
  | arg :: args =>
    if arg = ofString "--config" ∧ (args.head?.getD []) ≠ [] then args.head?
    else if (ofString "--config=").isPrefixOf arg then some (arg.drop 9)
    else getConfigPathFromArgs args

/-! ## All three -/

section Load

variable {E C : Type} (home : JsString) (readFile : JsString → Option JsString) (parseYaml : JsString → Except E JsValue)
  (parseSchema : JsValue → Except E C)

def loadConfig (args : List JsString) (env : JsString → Option JsString) : Except (LoadError E) C := do
  let fileConfig ← loadConfigFile home readFile parseYaml (getConfigPathFromArgs args)
  let merged := deepMerge [fileConfig, loadConfigFromEnv env, loadConfigFromArgs args]
  (parseSchema merged).mapError .thrown

end Load

/-! ## What is built of assignments -/

/-- Objects without a `__proto__`, down to values that are no objects. -/
inductive Built : JsValue → Prop
  | leaf {v : JsValue} : (∀ array fields proto, v ≠ obj array fields proto) → Built v
  | node {v : JsValue} : Clean v → (∀ key, Built (v.own key)) → Built v

theorem built_undefined : Built undefined := .leaf nofun

theorem built_str (s : JsString) : Built (.str s) := .leaf nofun

theorem built_empty : Built empty := .node clean_empty fun _ => built_undefined

theorem Built.own {v : JsValue} (h : Built v) (key : JsString) : Built (v.own key) := by
  cases h with
  | leaf hnot =>
    rw [own_of_not_plain]
    · exact built_undefined
    · unfold isPlain
      split
      · exact absurd rfl (hnot _ _ _)
      · rfl
  | node _ hbelow => exact hbelow key

theorem Built.spread {v : JsValue} (h : Built v) : Clean (spread v) ∧ Built (spread v) := by
  cases h with
  | leaf hnot =>
    have hempty : Config.spread v = empty := by
      cases v with
      | obj array fields proto => exact absurd rfl (hnot array fields proto)
      | _ => rfl
    rw [hempty]
    exact ⟨clean_empty, built_empty⟩
  | node hclean hbelow =>
    obtain ⟨fields, rfl, -⟩ := id hclean
    exact ⟨hclean, .node hclean hbelow⟩

theorem Built.set {v : JsValue} (hv : Built v) (hclean : Clean v) {key : JsString} (hkey : key ≠ protoName) {w : JsValue}
    (hw : Built w) :
    Clean (v.set key w) ∧ Built (v.set key w) := by
  obtain ⟨hset, hown⟩ := set_clean hclean hkey w
  refine ⟨hset, .node hset fun k => ?_⟩
  rw [hown]
  split
  · exact hw
  · exact hv.own k

theorem Built.wellFormed {v : JsValue} (h : Built v) : WellFormed v := by
  induction h with
  | leaf hnot =>
    rename_i v
    intro path fields proto hobj
    cases path with
    | nil => exact absurd hobj (hnot _ _ _)
    | cons key path =>
      have hplain : v.isPlain = false := by
        unfold isPlain
        split
        · exact absurd rfl (hnot _ _ _)
        · rfl
      rw [atPath_cons, own_of_not_plain hplain, atPath_undefined] at hobj
      cases hobj
  | node hclean _ ih =>
    intro path fields proto hobj
    cases path with
    | nil =>
      obtain ⟨fields', rfl, hnodup, -⟩ := hclean
      cases hobj
      exact ⟨rfl, hnodup⟩
    | cons key path => exact ih key path fields proto hobj

/-- A config of the environment or the command line. -/
def BuiltConfig (config : JsValue) : Prop := Clean config ∧ Built config

theorem BuiltConfig.set {config : JsValue} (h : BuiltConfig config) {key : JsString} (hkey : key ≠ protoName) {w : JsValue}
    (hw : Built w) :
    BuiltConfig (config.set key w) := h.2.set h.1 hkey hw

theorem BuiltConfig.setNested {config : JsValue} (h : BuiltConfig config) {group key : JsString} (hgroup : group ≠ protoName)
    (hkey : key ≠ protoName) {w : JsValue} (hw : Built w) : BuiltConfig (setNested config group key w) := by
  obtain ⟨hclean, hspread⟩ := (h.2.own group).spread
  unfold Config.setNested
  rw [get_clean h.1 hgroup]
  exact h.set hgroup (hspread.set hclean hkey hw).2

theorem loadConfigFromEnv_built (env : JsString → Option JsString) : BuiltConfig (loadConfigFromEnv env) := by
  have hsimple : BuiltConfig (simple.foldl (simpleStep env) empty) := by
    have hkeys : ∀ e ∈ simple, e.2 ≠ protoName := by decide
    refine List.foldlRecOn (motive := BuiltConfig) simple _ ⟨clean_empty, built_empty⟩ fun config hconfig e he => ?_
    unfold simpleStep
    split
    · exact hconfig
    · refine hconfig.set (hkeys e he) ?_
      split
      · exact .leaf nofun
      · exact built_str _
  have hnested : ∀ {config : JsValue} (name : String) {group key : JsString} {value : JsString → JsValue}, BuiltConfig config →
      group ≠ protoName → key ≠ protoName → (∀ s, Built (value s)) →
      BuiltConfig (match env (ofString name) with
        | none => config
        | some s => setNested config group key (value s)) := by
    intro config name group key value hconfig hgroup hkey hvalue
    split
    · exact hconfig
    · exact hconfig.setNested hgroup hkey (hvalue _)
  unfold loadConfigFromEnv
  refine hnested _ (hnested _ (hnested _ hsimple ?_ ?_ built_str) ?_ ?_ built_str) ?_ ?_ fun token => ?_
  case refine_7 => exact (built_empty.set clean_empty (by decide) (built_str token)).2
  all_goals decide

theorem applyFlag_built {config : JsValue} (h : BuiltConfig config) (key : JsString) {value : JsValue} (hvalue : Built value) :
    BuiltConfig (applyFlag config key value) := by
  unfold applyFlag
  split
  · exact h.set (by decide) hvalue
  · split
    · exact h.set (by decide) hvalue
    · split
      · exact h.set (by decide) hvalue
      · split
        · exact h.setNested (by decide) (by decide) hvalue
        · exact h

theorem applyArgs_built {config : JsValue} (h : BuiltConfig config) (args : List JsString) :
    BuiltConfig (applyArgs config args) := by
  fun_induction applyArgs config args with
  | case1 => exact h
  | case2 _ _ _ _ ih => exact ih h
  | case3 _ _ _ _ _ _ ih => exact ih (applyFlag_built h _ (built_str _))
  | case4 => exact applyFlag_built h _ built_undefined
  | case5 _ _ _ _ _ _ ih => exact ih (applyFlag_built h _ (built_str _))

theorem loadConfigFromArgs_built (args : List JsString) : BuiltConfig (loadConfigFromArgs args) :=
  applyArgs_built ⟨clean_empty, built_empty⟩ args

def BuiltConfig.configObject {config : JsValue} (h : BuiltConfig config) : ConfigObject := ⟨config, h.1.isPlain, h.2.wellFormed⟩

/-! ## Precedence -/

/-- Config objects without a conflict are merged so that of each path the last source that has it
    wins, just if no `__proto__` is merged; and what `loadConfig` validates is the file's, the
    environment's and the command line's objects merged in this order. -/
theorem config_precedence (objects : List ConfigObject) (home : JsString) (readFile : JsString → Option JsString)
    (args : List JsString)
    (env : JsString → Option JsString) (file : ConfigObject) :
    (Compatible (objects.map (·.value)) →
      (Lawful (deepMerge (objects.map (·.value))) (objects.map (·.value)) ↔ Unaffected (objects.map (·.value)))) ∧
    ∀ (E C : Type) (parseYaml : JsString → Except E JsValue) (parseSchema : JsValue → Except E C),
      loadConfigFile home readFile parseYaml (getConfigPathFromArgs args) = .ok file.value →
      let sources := [file.value, loadConfigFromEnv env, loadConfigFromArgs args]
      loadConfig home readFile parseYaml parseSchema args env = (parseSchema (deepMerge sources)).mapError .thrown ∧
        (Compatible sources → (Lawful (deepMerge sources) sources ↔ Unaffected sources)) := by
  refine ⟨deepMerge_lawful_iff objects, fun E C parseYaml parseSchema hfile => ⟨?_, fun hcompat => ?_⟩⟩
  · rw [loadConfig, hfile]
    rfl
  · exact deepMerge_lawful_iff
      [file, (loadConfigFromEnv_built env).configObject, (loadConfigFromArgs_built args).configObject] hcompat

/-- Objects that have no objects in them. -/
def Flat (sources : List JsValue) : Prop := ∀ o ∈ sources, o.isPlain = true ∧ ∀ key, (o.own key).isPlain = false

theorem Flat.not_plain {sources : List JsValue} (h : Flat sources) {o : JsValue} (ho : o ∈ sources) (key : JsString)
    (path : List JsString) :
    (o.atPath (key :: path)).isPlain = false := by
  rw [atPath_cons]
  cases path with
  | nil => exact (h o ho).2 key
  | cons k path =>
    rw [atPath_of_not_plain ((h o ho).2 key) (List.cons_ne_nil k path)]
    rfl

theorem Flat.compatible {sources : List JsValue} (h : Flat sources) : Compatible sources := by
  intro path v hv w hw hplain
  obtain ⟨o, ho, rfl⟩ := List.mem_map.mp hv
  obtain ⟨o', ho', rfl⟩ := List.mem_map.mp hw
  cases path with
  | nil => exact .inr (h o' ho').1
  | cons key path =>
    rw [h.not_plain ho key path] at hplain
    cases hplain

theorem Flat.unaffected {sources : List JsValue} (h : Flat sources) (hproto : NoProtoAt sources []) : Unaffected sources := by
  rintro path (rfl | hmeet)
  · exact hproto
  · cases path with
    | nil => exact hproto
    | cons key path =>
      have hnone : (sources.map (·.atPath (key :: path))).countP isPlain = 0 := by
        rw [List.countP_eq_zero]
        intro v hv hplain
        obtain ⟨o, ho, rfl⟩ := List.mem_map.mp hv
        rw [h.not_plain ho key path] at hplain
        cases hplain
      rw [Meet, hnone] at hmeet
      omega

def usernameKey : JsString := ofString "username"

def named (name : String) : JsValue := record [(usernameKey, .str (ofString name))]

theorem named_built (name : String) : BuiltConfig (named name) := by
  have hempty : BuiltConfig empty := ⟨clean_empty, built_empty⟩
  have hkey : usernameKey ≠ protoName := by decide
  exact hempty.set hkey (built_str (ofString name))

theorem named_flat (names : List String) : Flat (names.map named) := by
  intro o ho
  obtain ⟨name, -, rfl⟩ := List.mem_map.mp ho
  refine ⟨rfl, fun key => ?_⟩
  simp only [named, own, record, lookup_cons]
  split <;> rfl

def envNamed (name : String) (key : JsString) : Option JsString :=
  if key = ofString "FLOWHELM_USERNAME" then some (ofString name) else none

/-- The name of a config, as far as the schema is concerned with it. -/
def nameOf (config : JsValue) : Except Unit JsString := match config.get usernameKey with
  | .str name => .ok name
  | _ => .error ()

def namedObject (name : String) : ConfigObject := (named_built name).configObject

theorem named_unaffected (names : List String) : Compatible (names.map named) ∧ Unaffected (names.map named) := by
  have hflat := named_flat names
  refine ⟨hflat.compatible, hflat.unaffected fun o ho => ?_⟩
  obtain ⟨name, -, rfl⟩ := List.mem_map.mp ho
  rfl

/-- A name in the file, in the environment and on the command line. -/
theorem the_command_line_wins :
    Lawful (deepMerge [named "stan", named "bob"]) [named "stan", named "bob"] ∧
      let sources := [named "stan", loadConfigFromEnv (envNamed "bob"), loadConfigFromArgs [ofString "--username=alex"]]
      loadConfig (ofString "/home/stan") (fun _ => some (ofString "username: stan")) (fun _ => .ok (named "stan")) nameOf
          [ofString "--username=alex"] (envNamed "bob") = .ok (ofString "alex") ∧
        Lawful (deepMerge sources) sources := by
  have htwo := named_unaffected ["stan", "bob"]
  have hthree := named_unaffected ["stan", "bob", "alex"]
  obtain ⟨hmerged, hloaded⟩ := config_precedence [namedObject "stan", namedObject "bob"] (ofString "/home/stan")
    (fun _ => some (ofString "username: stan")) [ofString "--username=alex"] (envNamed "bob") (namedObject "stan")
  obtain ⟨hload, hlaw⟩ := hloaded Unit JsString (fun _ => .ok (named "stan")) nameOf rfl
  exact ⟨(hmerged htwo.1).mpr htwo.2, hload.trans rfl, (hlaw hthree.1).mpr hthree.2⟩

/-- A file that says `__proto__: {username: mallory}`. -/
def mallory : JsValue := record [(protoName, named "mallory")]

theorem mallory_wellFormed : WellFormed mallory := by
  have hown : ∀ key, mallory.own key = if key = protoName then named "mallory" else undefined := by
    intro key
    simp only [mallory, own, record, lookup_cons]
    split <;> rfl
  intro path fields proto hobj
  cases path with
  | nil =>
    cases hobj
    exact ⟨rfl, List.nodup_singleton _⟩
  | cons key path =>
    rw [atPath_cons, hown] at hobj
    split at hobj
    · exact (named_built "mallory").2.wellFormed path fields proto hobj
    · rw [atPath_undefined] at hobj
      cases hobj

/-- The property is lost, and what is in it is read of the config itself. -/
theorem a_proto_is_no_property :
    let file : ConfigObject := ⟨mallory, rfl, mallory_wellFormed⟩
    Compatible [file.value] ∧ mallory.atPath [protoName, usernameKey] = .str (ofString "mallory") ∧
      (deepMerge [mallory]).atPath [protoName] = undefined ∧ (deepMerge [mallory]).get usernameKey = .str (ofString "mallory") ∧
      ¬ Lawful (deepMerge [file.value]) [file.value] := by
  intro file
  refine ⟨fun path v hv w hw hplain => .inr ?_, rfl, rfl, rfl, fun hlaw => ?_⟩
  · rw [List.mem_singleton.mp hv] at hplain
    rw [List.mem_singleton.mp hw]
    exact hplain
  · have hlast := hlaw.last protoName []
    rcases hlast with ⟨hplain, -⟩ | heq
    · cases hplain
    · cases heq

end FlowHelm.Config
