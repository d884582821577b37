/-
  FlowHelm.Skills.Store — store.ts: install and remove, as far as installed.json goes.

  The calls come one after the other, on a store that `init` made. A call reads the manifest up to
  twice, and readManifest gives the empty one when a read fails; a write that rejects can leave the
  file short, since writeFile truncates first.

  - `dependencies_stay_closed`: the invariant, while no install loses its second read and no write
    is torn.
  - `an_install_loses_what_it_requires`, `a_torn_write_leaves_no_manifest`: what happens then.
-/
import FlowHelm.Lib.Dependencies
import FlowHelm.Lib.Runs
import FlowHelm.Skills.Manifest

namespace FlowHelm.Skills

open Js Runs Dependencies

/-! ## The manifest file -/

/-- installed.json; `none` when it is not there. -/
abbrev ManifestFile := Option (List UInt8)

/-- `ok` is whether the read succeeds. -/
def readManifest (ok : Bool) (file : ManifestFile) : InstalledManifest :=
  if ok then (file.bind parseManifest).getD [] else []

/-- How a writeFile ends. -/
inductive Write where
  | written
  /-- It rejects with the file as it was. -/
  | refused
  /-- It rejects with this in the file. -/
  | torn (left : List UInt8)
  deriving DecidableEq

def Write.ok (write : Write) : Bool := write == .written

def writeManifest (write : Write) (manifest : InstalledManifest) (file : ManifestFile) : ManifestFile := match write with
  | .written => some (manifestBytes manifest)
  | .refused => file
  | .torn left => some left

def init (file : ManifestFile) : ManifestFile := some (file.getD (Utf8.encode ['[', ']']))

/-! ## install -/

inductive SkillError where
  /-- readSkillMd throws. -/
  | skillMd
  | missing (skills : List JsString)
  | notInstalled (name : JsString)
  | required (name : JsString) (dependents : List JsString)
  /-- A file operation throws. -/
  | file
  deriving DecidableEq

/-- The text of the error, where it is the store's own. -/
def SkillError.message : SkillError → Option JsString
  | .missing skills =>
    some (ofString "Missing required skills: " ++ Js.join (ofString ", ") skills ++ ofString ". Install them first.")
  | .notInstalled name => some (ofString "Skill \"" ++ name ++ ofString "\" is not installed")
  | .required name dependents =>
    some (ofString "Cannot remove \"" ++ name ++ ofString "\": required by " ++ Js.join (ofString ", ") dependents ++
      ofString ". Uninstall them first.")
  | _ => none

/-- What the file system makes of an install. -/
structure InstallIo where
  /-- checkSkillDependencies reads the manifest. -/
  dependenciesRead : Bool
  copied : Bool
  manifestRead : Bool
  write : Write
  deriving DecidableEq

def InstallIo.fine : InstallIo := ⟨true, true, true, .written⟩

/-- The skills of checkSkillDependencies' warning. -/
def checkSkillDependencies (frontmatter : SkillFrontmatter) (manifest : InstalledManifest) : List JsString :=
  frontmatter.requires.skills.filter fun s => decide (s ∉ manifest.map (·.name))

def newEntry (frontmatter : SkillFrontmatter) (source : SkillSource) (now : JsString) : InstalledSkillEntry :=
  ⟨frontmatter.name, frontmatter.version, source, now, frontmatter.requires⟩

/-- What the call gives or throws, and the file after it. -/
def install (skill : Option SkillFrontmatter) (source : SkillSource) (now : JsString) (io : InstallIo) (file : ManifestFile) :
    Except SkillError InstalledSkillEntry × ManifestFile :=
  match skill with
  | none => (.error .skillMd, file)
  | some frontmatter =>
    let missing := checkSkillDependencies frontmatter (readManifest io.dependenciesRead file)
    if missing ≠ [] then (.error (.missing missing), file)
    else if io.copied = false then (.error .file, file)
    else
      let manifest := readManifest io.manifestRead file
      let entry := newEntry frontmatter source now
      (if io.write.ok then .ok entry else .error .file, writeManifest io.write (put (·.name) entry manifest) file)

/-! ## remove -/

structure RemoveIo where
  manifestRead : Bool
  /-- The directory is removed. -/
  removed : Bool
  write : Write
  deriving DecidableEq

def dependents (name : JsString) (manifest : InstalledManifest) : List JsString :=
  (manifest.filter fun s => decide (s.name ≠ name ∧ name ∈ s.requires.skills)).map (·.name)

def remove (name : JsString) (io : RemoveIo) (file : ManifestFile) : Except SkillError Unit × ManifestFile :=
  let manifest := readManifest io.manifestRead file
  if name ∉ manifest.map (·.name) then (.error (.notInstalled name), file)
  else if dependents name manifest ≠ [] then (.error (.required name (dependents name manifest)), file)
  else if io.removed = false then (.error .file, file)
  else (if io.write.ok then .ok () else .error .file, writeManifest io.write (drop (·.name) name manifest) file)

/-! ## Runs -/

inductive Call where
  | install (skill : Option SkillFrontmatter) (source : SkillSource) (now : JsString) (io : InstallIo)
  | remove (name : JsString) (io : RemoveIo)

def Call.run (file : ManifestFile) : Call → ManifestFile
  | .install skill source now io => (Skills.install skill source now io file).2
  | .remove name io => (Skills.remove name io file).2

def calls : System ManifestFile Call where
  init := init none
  step file c := some (c.run file)

/-- What each skill requires is installed. -/
def DependenciesMet (manifest : InstalledManifest) : Prop := Closed InstalledSkillEntry.name (·.requires.skills) manifest

/-- What the manifest file is to be. -/
structure Sound (file : ManifestFile) : Prop where
  accepted : ∃ manifest, file = some (manifestBytes manifest) ∧ parseManifest (manifestBytes manifest) = some manifest
  unique : ((readManifest true file).map (·.name)).Nodup
  closed : DependenciesMet (readManifest true file)

def Write.Whole (write : Write) : Prop := ∀ left, write ≠ .torn left

/-- Of the calls that come to write the manifest: an install that lost its second read requires
    no other skill, and the write is not torn. -/
def Reliable (file : ManifestFile) : Call → Prop
  | .install skill _ _ io => ∀ frontmatter ∈ skill,
    checkSkillDependencies frontmatter (readManifest io.dependenciesRead file) = [] → io.copied = true →
      (io.manifestRead = false → ∀ s ∈ frontmatter.requires.skills, s = frontmatter.name) ∧ io.write.Whole
  | .remove name io => dependents name (readManifest io.manifestRead file) = [] → io.removed = true → io.write.Whole

/-! ## A manifest that is sound -/

@[simp] theorem readManifest_bytes (manifest : InstalledManifest) :
    readManifest true (some (manifestBytes manifest)) = manifest := by
  rw [readManifest, if_pos rfl, Option.bind_some, manifest_reads, Option.getD_some]

@[simp] theorem readManifest_failed (file : ManifestFile) : readManifest false file = [] := rfl

theorem init_none : init none = some (manifestBytes []) := rfl

theorem sound_bytes {manifest : InstalledManifest} (hunique : (names InstalledSkillEntry.name manifest).Nodup)
    (hclosed : DependenciesMet manifest) : Sound (some (manifestBytes manifest)) := by
  refine ⟨⟨manifest, rfl, manifest_reads manifest⟩, ?_, ?_⟩
  · rw [readManifest_bytes]
    exact hunique
  · rw [readManifest_bytes]
    exact hclosed

theorem sound_init : Sound (init none) := by
  have hunique : (names InstalledSkillEntry.name []).Nodup := List.nodup_nil
  exact sound_bytes hunique (List.forall_mem_nil _)

/-- A write that is not torn leaves the new manifest or the old file. -/
theorem Sound.write {file : ManifestFile} (h : Sound file) {write : Write} (hwhole : write.Whole) {manifest : InstalledManifest}
    (hunique : (names InstalledSkillEntry.name manifest).Nodup) (hclosed : DependenciesMet manifest) :
    Sound (writeManifest write manifest file) := by
  cases write with
  | written => exact sound_bytes hunique hclosed
  | refused => exact h
  | torn left => exact absurd rfl (hwhole left)

theorem nothing_missing {frontmatter : SkillFrontmatter} {manifest : InstalledManifest}
    (h : checkSkillDependencies frontmatter manifest = []) :
    ∀ s ∈ frontmatter.requires.skills, s ∈ names InstalledSkillEntry.name manifest := by
  intro s hs
  have hnot := List.filter_eq_nil_iff.mp h s hs
  simpa [names] using hnot

theorem no_dependents {name : JsString} {manifest : InstalledManifest} (h : dependents name manifest = []) :
    ∀ e ∈ manifest, e.name ≠ name → name ∉ e.requires.skills := by
  intro e he hne hin
  have hnot := List.filter_eq_nil_iff.mp (List.map_eq_nil_iff.mp h) e he
  simp [hne, hin] at hnot

/-! ## Each call keeps it -/

theorem sound_install {file : ManifestFile} (h : Sound file) {skill : Option SkillFrontmatter} {source : SkillSource}
    {now : JsString}
    {io : InstallIo} (hreliable : Reliable file (.install skill source now io)) : Sound (install skill source now io file).2 := by
  unfold install
  cases skill with
  | none => exact h
  | some frontmatter =>
    dsimp only
    split
    · exact h
    · rename_i hmissing
      split
      · exact h
      · rename_i hcopied
        obtain ⟨hread, hwhole⟩ := hreliable frontmatter rfl (not_not.mp hmissing) (by simpa using hcopied)
        -- the check may have lost its own read: then nothing is required
        have hmet : ∀ s ∈ frontmatter.requires.skills, s ∈ names InstalledSkillEntry.name (readManifest true file) := by
          intro s hs
          have hin := nothing_missing (not_not.mp hmissing) s hs
          cases hdep : io.dependenciesRead with
          | true =>
            rw [hdep] at hin
            exact hin
          | false =>
            rw [hdep] at hin
            cases hin
        cases hmanifest : io.manifestRead with
        | true => exact h.write hwhole (put_nodup h.unique) (put_closed h.closed fun s hs => .inr (hmet s hs))
        | false =>
          exact h.write hwhole (put_nodup List.nodup_nil)
            (put_closed (List.forall_mem_nil _) fun s hs => .inl (hread hmanifest s hs))

theorem sound_remove {file : ManifestFile} (h : Sound file) {name : JsString} {io : RemoveIo}
    (hreliable : Reliable file (.remove name io)) :
    Sound (remove name io file).2 := by
  unfold remove
  dsimp only
  split
  · exact h
  · rename_i hinstalled
    split
    · exact h
    · rename_i hdependents
      split
      · exact h
      · rename_i hremoved
        have hwhole := hreliable (not_not.mp hdependents) (by simpa using hremoved)
        cases hread : io.manifestRead with
        | true =>
          rw [hread] at hdependents
          exact h.write hwhole (drop_nodup h.unique) (drop_closed h.closed h.unique (no_dependents (not_not.mp hdependents)))
        | false =>
          rw [hread] at hinstalled
          exact absurd List.not_mem_nil hinstalled

/-- While no install loses its second read and no write is torn: every skill has what it requires,
    names are unique, and the file is accepted as it was written. -/
theorem dependencies_stay_closed {file : ManifestFile} (h : Reach calls Reliable file) : Sound file := by
  refine h.inv sound_init fun file c after _ hs hc hst => ?_
  obtain rfl := Option.some.inj hst
  cases c with
  | install skill source now io => exact sound_install hs hc
  | remove name io => exact sound_remove hs hc

/-! ## What a failed read and a torn write do -/

/-- An install that goes through, whether or not its second read does. -/
theorem install_writes {frontmatter : SkillFrontmatter} {source : SkillSource} {now : JsString} {manifest : InstalledManifest}
    (hmet : checkSkillDependencies frontmatter manifest = []) (read : Bool) :
    (install (some frontmatter) source now ⟨true, true, read, .written⟩ (some (manifestBytes manifest))).2 =
      some (manifestBytes (put (·.name) (newEntry frontmatter source now) (if read then manifest else []))) := by
  unfold install
  simp only [readManifest_bytes, hmet, ne_eq, not_true_eq_false, if_false, Bool.true_eq_false]
  cases read with
  | true => simp only [readManifest_bytes, writeManifest, if_true]
  | false => rfl

def emptyRequires : SkillRequires := ⟨[], [], [], [], []⟩

def base : SkillFrontmatter := ⟨ofString "base", ofString "a base", ofString "1.0.0", emptyRequires, by decide⟩

def greeter : SkillFrontmatter :=
  ⟨ofString "greeter", ofString "greets", ofString "1.0.0", { emptyRequires with skills := [ofString "base"] }, by decide⟩

theorem run_install (skill : Option SkillFrontmatter) (source : SkillSource) (now : JsString) (io : InstallIo)
    (file : ManifestFile) :
    (Call.install skill source now io).run file = (install skill source now io file).2 := rfl

/-- `base`, then `greeter`, which requires it; `read` is the second read of that install. -/
def baseThenGreeter (read : Bool) : List Call :=
  [.install (some base) .registry [] .fine, .install (some greeter) .registry [] { InstallIo.fine with manifestRead := read }]

theorem exec_baseThenGreeter (read : Bool) : exec calls calls.init (baseThenGreeter read) =
    some (some (manifestBytes (put (·.name) (newEntry greeter .registry [])
        (if read then [newEntry base .registry []] else [])))) := by
  have hbase : (Call.install (some base) .registry [] .fine).run (some (manifestBytes [])) =
      some (manifestBytes [newEntry base .registry []]) := (run_install ..).trans (install_writes rfl true)
  have hgreeter : (Call.install (some greeter) .registry [] { InstallIo.fine with manifestRead := read }).run
      (some (manifestBytes [newEntry base .registry []])) =
      some (manifestBytes (put (·.name) (newEntry greeter .registry []) (if read then [newEntry base .registry []] else []))) :=
    (run_install ..).trans (install_writes (by decide) read)
  have hrun : exec calls calls.init (baseThenGreeter read) =
      some ((Call.install (some greeter) .registry [] { InstallIo.fine with manifestRead := read }).run
        ((Call.install (some base) .registry [] .fine).run (init none))) := rfl
  rw [hrun, init_none, hbase, hgreeter]

theorem greeter_after_base_is_sound : ∃ file, Reach calls Reliable file ∧ Sound file ∧
    (readManifest true file).map (·.name) = [ofString "base", ofString "greeter"] := by
  have hreach : Reach calls Reliable _ := reach_of_exec (baseThenGreeter true)
    ⟨fun _ _ _ _ => ⟨nofun, nofun⟩, fun _ _ _ _ => ⟨nofun, nofun⟩, trivial⟩ (exec_baseThenGreeter true)
  refine ⟨_, hreach, dependencies_stay_closed hreach, ?_⟩
  rw [readManifest_bytes]
  decide

/-- The second read fails and is taken for an empty manifest: `base` is gone from the manifest,
    and `greeter` requires it. -/
theorem an_install_loses_what_it_requires : ∃ file, Reach calls Free file ∧ ¬ Sound file := by
  refine ⟨_, reach_of_exec (baseThenGreeter false) (meets_free ..) (exec_baseThenGreeter false), fun h => ?_⟩
  have hclosed := h.closed
  rw [readManifest_bytes] at hclosed
  have hin := hclosed _ (.head _) (ofString "base") (.head _)
  revert hin
  decide

/-- The disk is full, the install throws, and what is left is no manifest. -/
theorem a_torn_write_leaves_no_manifest : ∃ file, Reach calls Free file ∧ ¬ Sound file := by
  have hexec : exec calls calls.init [.install (some base) .registry [] { InstallIo.fine with write := .torn [] }] =
      some (some []) := by
    show some ((Call.install (some base) .registry [] { InstallIo.fine with write := .torn [] }).run (init none)) = _
    rw [init_none]
    simp only [Call.run, install, readManifest_bytes, InstallIo.fine]
    rfl
  refine ⟨_, reach_of_exec _ (meets_free ..) hexec, fun h => ?_⟩
  obtain ⟨manifest, hfile, haccepted⟩ := h.accepted
  rw [← Option.some.inj hfile] at haccepted
  cases haccepted

end FlowHelm.Skills
