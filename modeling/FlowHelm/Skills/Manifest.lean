/-
  FlowHelm.Skills.Manifest — schema.ts: what a SKILL.md declares, and installed.json, the
  manifest of the skills installed.

  - `manifest_reads`: a manifest written is accepted as it is.
-/
import FlowHelm.Proxy.CredentialStore

namespace FlowHelm.Skills

open Js Proxy

/-! ## What a skill declares -/

inductive Os where
  | linux
  | macos
  deriving DecidableEq, Repr

structure SkillRequires where
  channels : List JsString
  bins : List JsString
  env : List JsString
  skills : List JsString
  os : List Os
  deriving DecidableEq

def isLower (u : UInt16) : Bool := 0x61 ≤ u && u ≤ 0x7A

def isDigit (u : UInt16) : Bool := 0x30 ≤ u && u ≤ 0x39

/-- `^[a-z][a-z0-9-]*$`. -/
def isSkillName (s : JsString) : Bool := s.head?.any isLower && s.all fun u => isLower u || isDigit u || u == 0x2D

/-- `^\d+\.\d+\.\d+$`. -/
def isVersion (s : JsString) : Bool :=
  let parts := s.splitOn 0x2E
  parts.length == 3 && parts.all fun part => !part.isEmpty && part.all isDigit

/-- What skillFrontmatterSchema gives. -/
structure SkillFrontmatter where
  name : JsString
  description : JsString
  version : JsString
  requires : SkillRequires
  valid : 1 ≤ name.length ∧ name.length ≤ 64 ∧ isSkillName name = true ∧ 1 ≤ description.length ∧ description.length ≤ 256 ∧
    isVersion version = true
  deriving DecidableEq

/-! ## The manifest -/

inductive SkillSource where
  | registry
  | local_
  | git
  deriving DecidableEq, Repr

structure InstalledSkillEntry where
  name : JsString
  version : JsString
  source : SkillSource
  installedAt : JsString
  requires : SkillRequires
  deriving DecidableEq

abbrev InstalledManifest := List InstalledSkillEntry

def Os.toJson : Os → Json
  | .linux => .text "linux"
  | .macos => .text "macos"

def SkillSource.toJson : SkillSource → Json
  | .registry => .text "registry"
  | .local_ => .text "local"
  | .git => .text "git"

def SkillRequires.fields (r : SkillRequires) : List (String × Option Json) :=
  [("channels", some (texts r.channels)), ("bins", some (texts r.bins)), ("env", some (texts r.env)),
    ("skills", some (texts r.skills)), ("os", some (.arr (r.os.map Os.toJson)))]

def InstalledSkillEntry.fields (e : InstalledSkillEntry) : List (String × Option Json) :=
  [("name", some (.str e.name)), ("version", some (.str e.version)), ("source", some e.source.toJson),
    ("installedAt", some (.str e.installedAt)), ("requires", some (present e.requires.fields))]

def manifestJson (manifest : InstalledManifest) : Json := .arr (manifest.map fun e => present e.fields)

/-! ## Its schema -/

def osSchema (j : Json) : Option Os := j.text?.bind fun s =>
  if s = ofString "linux" then some .linux else if s = ofString "macos" then some .macos else none

def sourceSchema (j : Json) : Option SkillSource := j.text?.bind fun s =>
  if s = ofString "registry" then some .registry else if s = ofString "local" then some .local_
  else if s = ofString "git" then some .git else none

def skillRequiresSchema (j : Json) : Option SkillRequires := do
  let field ← object? j
  let channels ← withDefault [] (array Json.text?) (field "channels")
  let bins ← withDefault [] (array Json.text?) (field "bins")
  let env ← withDefault [] (array Json.text?) (field "env")
  let skills ← withDefault [] (array Json.text?) (field "skills")
  let os ← withDefault [] (array osSchema) (field "os")
  some ⟨channels, bins, env, skills, os⟩

def installedSkillEntrySchema (j : Json) : Option InstalledSkillEntry := do
  let field ← object? j
  let name ← required Json.text? (field "name")
  let version ← required Json.text? (field "version")
  let source ← required sourceSchema (field "source")
  let installedAt ← required Json.text? (field "installedAt")
  let requires ← required skillRequiresSchema (field "requires")
  some ⟨name, version, source, installedAt, requires⟩

def installedManifestSchema : Json → Option InstalledManifest := array installedSkillEntrySchema

/-! ## The file -/

/-- What writeManifest writes. -/
def manifestBytes (manifest : InstalledManifest) : List UInt8 := Utf8.encode (Json.stringify 0 (manifestJson manifest))

/-- Bytes as a manifest; `none` throws. -/
def parseManifest (data : List UInt8) : Option InstalledManifest :=
  (Json.parse (String.ofList (Utf8.decode data))).bind installedManifestSchema

/-! ## Read back -/

theorem os_reads (os : Os) : osSchema (Json.reread os.toJson) = some os := by
  cases os <;> rfl

theorem source_reads (source : SkillSource) : sourceSchema (Json.reread source.toJson) = some source := by
  cases source <;> rfl

theorem requires_reads (r : SkillRequires) : skillRequiresSchema (Json.reread (present r.fields)) = some r := by
  have hkeys : (r.fields.map fun f => ofString f.1).Nodup := by
    simp only [SkillRequires.fields, List.map_cons, List.map_nil]
    decide
  have htexts : ∀ ss : List JsString, withDefault [] (array Json.text?) (some (Json.reread (texts ss))) = some ss := by
    intro ss
    rw [reread_texts]
    exact array_texts ss
  have hos : withDefault [] (array osSchema) (some (Json.reread (.arr (r.os.map Os.toJson)))) = some r.os := by
    rw [Json.reread, rereads_eq, List.map_map]
    exact mapM_reads fun os _ => os_reads os
  unfold skillRequiresSchema
  rw [object_reread]
  simp only [Option.bind_eq_bind, Option.bind_some, get_reread hkeys 0 rfl, get_reread hkeys 1 rfl, get_reread hkeys 2 rfl,
    get_reread hkeys 3 rfl, get_reread hkeys 4 rfl, Option.map_some, htexts, hos]

theorem entry_reads (e : InstalledSkillEntry) : installedSkillEntrySchema (Json.reread (present e.fields)) = some e := by
  have hkeys : (e.fields.map fun f => ofString f.1).Nodup := by
    simp only [InstalledSkillEntry.fields, List.map_cons, List.map_nil]
    decide
  have htext : ∀ s : JsString, required Json.text? (some (Json.reread (.str s))) = some s := fun s => by rw [Json.reread]; rfl
  have hsource : required sourceSchema (some (Json.reread e.source.toJson)) = some e.source := source_reads e.source
  have hrequires : required skillRequiresSchema (some (Json.reread (present e.requires.fields))) = some e.requires :=
    requires_reads e.requires
  unfold installedSkillEntrySchema
  rw [object_reread]
  simp only [Option.bind_eq_bind, Option.bind_some, get_reread hkeys 0 rfl, get_reread hkeys 1 rfl, get_reread hkeys 2 rfl,
    get_reread hkeys 3 rfl, get_reread hkeys 4 rfl, Option.map_some, htext, hsource, hrequires]

/-- A manifest written is accepted as it is. -/
theorem manifest_reads (manifest : InstalledManifest) : parseManifest (manifestBytes manifest) = some manifest := by
  unfold parseManifest manifestBytes
  rw [Utf8.decode_encode, Json.parse_stringify, Option.bind_some, manifestJson, Json.reread, rereads_eq, List.map_map]
  exact mapM_reads fun e _ => entry_reads e

end FlowHelm.Skills
