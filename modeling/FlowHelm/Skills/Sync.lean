/-
  FlowHelm.Skills.Sync — warm-container-runtime.ts: syncSkills, over what install and remove of
  store.ts have left, for one chat.

  Nothing clears a directory before files are copied to it: neither the store's directory of a
  skill before an upgrade, nor the staging directory before a sync. What a copy that fails part of
  the way leaves is up to the file system. `versions` is the directory each skill was last
  installed from; the code keeps no such thing.

  - `sync_mirrors`: when the staging directory holds just the files of the skills installed.
  - `a_removed_skill_stays`, `a_dropped_file_stays`: when it holds more.
-/
import FlowHelm.Lib.FileTree
import FlowHelm.Skills.Store

namespace FlowHelm.Skills

open Js Runs Dependencies FileTree

variable {C : Type}

abbrev Files (C : Type) := Entries JsString C

/-- A directory as the file system gives it. -/
abbrev Tree (C : Type) := { files : Files C // files.Valid }

structure Disk (C : Type) where
  manifest : ManifestFile
  /-- The directories beside the manifest. -/
  skills : Files C
  /-- skills-sync, for the chat. -/
  staging : Files C
  versions : JsString → Option (Files C)

/-! ## install and remove -/

/-- `left` is what the skill's directory holds when the copy fails. -/
def Disk.install (skill : Option SkillFrontmatter) (files : Tree C) (source : SkillSource) (now : JsString) (io : InstallIo)
    (left : Tree C) (disk : Disk C) : Disk C :=
  match skill with
  | none => disk
  | some frontmatter =>
    if checkSkillDependencies frontmatter (readManifest io.dependenciesRead disk.manifest) ≠ [] then disk
    else
      let copied := if io.copied then files.val.copyDir frontmatter.name disk.skills else none
      let (result, manifest) := Skills.install skill source now { io with copied := copied.isSome } disk.manifest
      { disk with
        manifest
        skills := copied.getD (disk.skills.setDir frontmatter.name left.val)
        versions := if result.isOk then Function.update disk.versions frontmatter.name (some files.val) else disk.versions }

def Disk.remove (name : JsString) (io : RemoveIo) (left : Tree C) (disk : Disk C) : Disk C :=
  let manifest := readManifest io.manifestRead disk.manifest
  if name ∉ manifest.map (·.name) ∨ dependents name manifest ≠ [] then disk
  else { disk with
    manifest := (Skills.remove name io disk.manifest).2
    skills := if io.removed then disk.skills.remove name else disk.skills.setDir name left.val }

/-! ## syncSkills -/

/-- What the file system makes of a sync. -/
structure SyncIo (C : Type) where
  manifestRead : Bool
  installedCopied : Bool
  /-- The staging directory when they are not. -/
  installedLeft : Tree C
  builtinsCopied : Bool
  builtinsLeft : Tree C

/-- What syncSkills logs, and goes on. -/
inductive SyncError where
  | installed
  | builtin
  deriving DecidableEq, Repr

def Disk.installedNames (read : Bool) (disk : Disk C) : List JsString := (readManifest read disk.manifest).map (·.name)

/-- The installed skills, one after the other. -/
def copyInstalled (skills : Files C) : List JsString → Files C → Option (Files C)
  | [], staging => some staging
  | name :: names, staging => (skills.dir? name).bind fun dir => (dir.copyDir name staging).bind (copyInstalled skills names)

/-- The directories below builtinSkillsDir. -/
def copyBuiltins : Files C → Files C → Option (Files C)
  | .none, staging => some staging
  | .file _ _ rest, staging => copyBuiltins rest staging
  | .dir name dir rest, staging => (dir.copyDir name staging).bind (copyBuiltins rest)

def syncSkills (builtins : Tree C) (io : SyncIo C) (disk : Disk C) : Files C × List SyncError :=
  let installed := if io.installedCopied then copyInstalled disk.skills (disk.installedNames io.manifestRead)
    disk.staging else none
  let staging := installed.getD io.installedLeft.val
  let builtin := if io.builtinsCopied then copyBuiltins builtins.val staging else none
  (builtin.getD io.builtinsLeft.val, (if installed.isNone then [.installed] else []) ++ if builtin.isNone then [.builtin] else [])

def Disk.sync (builtins : Tree C) (io : SyncIo C) (disk : Disk C) : Disk C :=
  { disk with staging := (syncSkills builtins io disk).1 }

/-! ## Runs -/

inductive Step (C : Type) where
  | install (skill : Option SkillFrontmatter) (files : Tree C) (source : SkillSource) (now : JsString) (io : InstallIo)
    (left : Tree C)
  | remove (name : JsString) (io : RemoveIo) (left : Tree C)
  /-- A container is created for the chat. -/
  | sync (builtins : Tree C) (io : SyncIo C)

def Step.run (disk : Disk C) : Step C → Disk C
  | .install skill files source now io left => disk.install skill files source now io left
  | .remove name io left => disk.remove name io left
  | .sync builtins io => disk.sync builtins io

/-- From an empty store and an empty staging directory. -/
def history (C : Type) : System (Disk C) (Step C) where
  init := ⟨init none, .none, .none, fun _ => none⟩
  step disk s := some (s.run disk)

/-! ## What is to be seen -/

/-- The file of an installed skill, as of the version installed. -/
def Disk.installedAt (disk : Disk C) : List JsString → Option C
  | [] => none
  | name :: path => if name ∈ disk.installedNames true then (disk.versions name).bind (·.fileAt path) else none

def builtinAt (builtins : Files C) : List JsString → Option C
  | [] => none
  | name :: path => (builtins.dir? name).bind (·.fileAt path)

/-- The file that a sync finds in the store. -/
def Disk.storedAt (read : Bool) (disk : Disk C) : List JsString → Option C
  | [] => none
  | name :: path => if name ∈ disk.installedNames read then (disk.skills.dir? name).bind (·.fileAt path) else none

/-- The staging directory holds the files of the installed and the built-in skills. -/
def Mirrors (builtins : Tree C) (disk : Disk C) : Prop :=
  ∀ path c, disk.staging.fileAt path = some c ↔ disk.installedAt path = some c ∨ builtinAt builtins.val path = some c

structure UpToDate (builtins : Tree C) (io : SyncIo C) (disk : Disk C) : Prop where
  /-- Where an installed and a built-in skill have one path, they have one file. -/
  agree : ∀ path c c', disk.installedAt path = some c → builtinAt builtins.val path = some c' → c = c'
  /-- A file of the store is of the version installed, unless a built-in skill's goes over it. -/
  stored : ∀ path c, disk.storedAt io.manifestRead path = some c → builtinAt builtins.val path = none →
    disk.installedAt path = some c
  /-- So is a file already there that no file goes over. -/
  staged : ∀ path c, disk.staging.fileAt path = some c → disk.storedAt io.manifestRead path = none →
    builtinAt builtins.val path = none → disk.installedAt path = some c
  /-- A file of the version installed is in the store, with its skill in the manifest read, or is already there. -/
  complete : ∀ path c, disk.installedAt path = some c → builtinAt builtins.val path = none →
    disk.storedAt io.manifestRead path = none → disk.staging.fileAt path = some c

/-! ## Trees stay trees -/

structure Disk.Valid (disk : Disk C) : Prop where
  skills : disk.skills.Valid
  staging : disk.staging.Valid

theorem valid_copyInstalled {skills staging out : Files C} {names : List JsString} (hstaging : staging.Valid)
    (h : copyInstalled skills names staging = some out) : out.Valid := by
  induction names generalizing staging with
  | nil =>
    obtain rfl := Option.some.inj h
    exact hstaging
  | cons name names ih =>
    obtain ⟨dir, -, h⟩ := Option.bind_eq_some_iff.mp h
    obtain ⟨copied, hcopied, h⟩ := Option.bind_eq_some_iff.mp h
    exact ih (Entries.valid_copyDir hstaging hcopied) h

theorem valid_copyBuiltins {builtins staging out : Files C} (hstaging : staging.Valid)
    (h : copyBuiltins builtins staging = some out) :
    out.Valid := by
  induction builtins generalizing staging with
  | none =>
    obtain rfl := Option.some.inj h
    exact hstaging
  | file _ _ rest ih => exact ih hstaging h
  | dir name dir rest _ ih =>
    obtain ⟨copied, hcopied, h⟩ := Option.bind_eq_some_iff.mp h
    exact ih (Entries.valid_copyDir hstaging hcopied) h

theorem valid_getD {copied : Option (Files C)} {left : Files C} (hcopied : ∀ out, copied = some out → out.Valid)
    (hleft : left.Valid) :
    (copied.getD left).Valid := by
  cases copied with
  | none => exact hleft
  | some out => exact hcopied out rfl

theorem valid_install {disk : Disk C} (h : disk.Valid) (skill : Option SkillFrontmatter) (files : Tree C) (source : SkillSource)
    (now : JsString) (io : InstallIo) (left : Tree C) : (disk.install skill files source now io left).Valid := by
  unfold Disk.install
  cases skill with
  | none => exact h
  | some frontmatter =>
    dsimp only
    split
    · exact h
    · refine ⟨valid_getD (fun out hout => ?_) (Entries.valid_setDir h.skills _ left.property), h.staging⟩
      split at hout
      · exact Entries.valid_copyDir h.skills hout
      · cases hout

theorem valid_remove {disk : Disk C} (h : disk.Valid) (name : JsString) (io : RemoveIo) (left : Tree C) :
    (disk.remove name io left).Valid := by
  unfold Disk.remove
  dsimp only
  split
  · exact h
  · refine ⟨?_, h.staging⟩
    dsimp only
    split
    · exact Entries.valid_remove h.skills name
    · exact Entries.valid_setDir h.skills _ left.property

theorem valid_sync {disk : Disk C} (h : disk.Valid) (builtins : Tree C) (io : SyncIo C) : (disk.sync builtins io).Valid := by
  refine ⟨h.skills, valid_getD (fun out hout => ?_) io.builtinsLeft.property⟩
  split at hout
  · refine valid_copyBuiltins (valid_getD (fun staging hstaging => ?_) io.installedLeft.property) hout
    split at hstaging
    · exact valid_copyInstalled h.staging hstaging
    · cases hstaging
  · cases hout

theorem valid_of_reach {disk : Disk C} (h : Reach (history C) Free disk) : disk.Valid := by
  refine h.inv ⟨trivial, trivial⟩ fun disk s after _ hs _ hst => ?_
  obtain rfl := Option.some.inj hst
  cases s with
  | install skill files source now io left => exact valid_install hs skill files source now io left
  | remove name io left => exact valid_remove hs name io left
  | sync builtins io => exact valid_sync hs builtins io

/-! ## What a sync leaves -/

theorem fileAt_copyInstalled {skills staging out : Files C} (hskills : skills.Valid) {names : List JsString}
    (h : copyInstalled skills names staging = some out) (name : JsString) (path : List JsString) :
    out.fileAt (name :: path) =
      (if name ∈ names then (skills.dir? name).bind (·.fileAt path) else none).or (staging.fileAt (name :: path)) := by
  induction names generalizing staging with
  | nil =>
    obtain rfl := Option.some.inj h
    rw [if_neg List.not_mem_nil, Option.none_or]
  | cons n names ih =>
    obtain ⟨dir, hdir, h⟩ := Option.bind_eq_some_iff.mp h
    obtain ⟨copied, hcopied, h⟩ := Option.bind_eq_some_iff.mp h
    rw [ih h, Entries.fileAt_copyDir (Entries.valid_dir? hskills hdir) hcopied]
    by_cases hn : name = n
    · subst hn
      rw [if_pos rfl, if_pos (List.mem_cons_self ..), hdir, Option.bind_some]
      split
      · rw [← Option.or_assoc, Option.or_self]
      · rw [Option.none_or]
    · rw [if_neg hn]
      simp only [List.mem_cons, hn, false_or]

theorem fileAt_copyBuiltins {builtins staging out : Files C} (hbuiltins : builtins.Valid)
    (h : copyBuiltins builtins staging = some out)
    (name : JsString) (path : List JsString) :
    out.fileAt (name :: path) = ((builtins.dir? name).bind (·.fileAt path)).or (staging.fileAt (name :: path)) := by
  induction builtins generalizing staging with
  | none =>
    obtain rfl := Option.some.inj h
    rfl
  | file n _ rest ih =>
    rw [ih hbuiltins.2 h, Entries.dir?]
    split
    · rename_i hn
      rw [← hn, Entries.dir?_of_not_mem hbuiltins.1]
    · rfl
  | dir n dir rest _ ih =>
    obtain ⟨copied, hcopied, h⟩ := Option.bind_eq_some_iff.mp h
    rw [ih hbuiltins.2.2 h, Entries.fileAt_copyDir hbuiltins.2.1 hcopied, Entries.dir?]
    by_cases hn : name = n
    · rw [if_pos hn, if_pos hn.symm, hn, Entries.dir?_of_not_mem hbuiltins.1]
      rfl
    · rw [if_neg hn, if_neg fun heq => hn heq.symm]

/-- A built-in skill's file, else the store's, else the one that was there. -/
theorem fileAt_sync {disk : Disk C} (h : disk.Valid) {builtins : Tree C} {io : SyncIo C}
    (hclean : (syncSkills builtins io disk).2 = [])
    (path : List JsString) : (disk.sync builtins io).staging.fileAt path =
      (builtinAt builtins.val path).or ((disk.storedAt io.manifestRead path).or (disk.staging.fileAt path)) := by
  unfold syncSkills at hclean
  unfold Disk.sync syncSkills
  dsimp only at hclean ⊢
  cases hinstalled : (if io.installedCopied then copyInstalled disk.skills (disk.installedNames io.manifestRead)
    disk.staging else none) with
  | none =>
    rw [hinstalled] at hclean
    cases hclean
  | some staging =>
    rw [hinstalled, Option.getD_some] at hclean
    rw [Option.getD_some]
    cases hbuiltin : (if io.builtinsCopied then copyBuiltins builtins.val staging else none) with
    | none =>
      rw [hbuiltin] at hclean
      cases hclean
    | some out =>
      rw [Option.getD_some]
      cases path with
      | nil => simp only [Entries.fileAt_nil, builtinAt, Disk.storedAt, Option.or_none]
      | cons name path =>
        have hstaging : copyInstalled disk.skills (disk.installedNames io.manifestRead) disk.staging = some staging := by
          split at hinstalled
          · exact hinstalled
          · cases hinstalled
        have hout : copyBuiltins builtins.val staging = some out := by
          split at hbuiltin
          · exact hbuiltin
          · cases hbuiltin
        rw [fileAt_copyBuiltins builtins.property hout, fileAt_copyInstalled h.skills hstaging]
        rfl

/-- A sync that logs nothing leaves the files of the installed and the built-in skills just when
    the store and the staging directory were up to date. -/
theorem sync_mirrors {disk : Disk C} (h : Reach (history C) Free disk) {builtins : Tree C} {io : SyncIo C}
    (hclean : (syncSkills builtins io disk).2 = []) : Mirrors builtins (disk.sync builtins io) ↔ UpToDate builtins io disk := by
  have hfile := fileAt_sync (valid_of_reach h) hclean
  have hinstalled : (disk.sync builtins io).installedAt = disk.installedAt := rfl
  constructor
  · intro hmirrors
    refine ⟨fun path c c' hc hc' => ?_, fun path c hstored hbuiltin => ?_, fun path c hstaged hstored hbuiltin => ?_,
      fun path c hc hbuiltin hstored => ?_⟩
    · have hat := (hmirrors path c).mpr (.inl hc)
      rw [hfile, hc'] at hat
      exact (Option.some.inj hat).symm
    · have hat : (disk.sync builtins io).staging.fileAt path = some c := by
        rw [hfile, hbuiltin, hstored]
        rfl
      rcases (hmirrors path c).mp hat with hin | hin
      · exact hin
      · cases hbuiltin.symm.trans hin
    · have hat : (disk.sync builtins io).staging.fileAt path = some c := by
        rw [hfile, hbuiltin, hstored, hstaged]
        rfl
      rcases (hmirrors path c).mp hat with hin | hin
      · exact hin
      · cases hbuiltin.symm.trans hin
    · have hat := (hmirrors path c).mpr (.inl hc)
      rw [hfile, hbuiltin, hstored] at hat
      exact hat
  · intro hready path c
    rw [hfile, hinstalled]
    cases hbuiltin : builtinAt builtins.val path with
    | some c' =>
      constructor
      · exact .inr
      · intro hc
        rcases hc with hc | hc
        · exact congrArg some (hready.agree path c c' hc hbuiltin).symm
        · exact hc
    | none =>
      rw [Option.none_or, or_iff_left (by simp)]
      cases hstored : disk.storedAt io.manifestRead path with
      | some c' =>
        have hc' := hready.stored path c' hstored hbuiltin
        rw [hc']
        rfl
      | none => exact ⟨fun hc => hready.staged path c hc hstored hbuiltin, fun hc => hready.complete path c hc hbuiltin hstored⟩

/-! ## Skills removed and upgraded -/

theorem installedNames_of_file {disk : Disk C} {manifest : InstalledManifest}
    (h : disk.manifest = some (manifestBytes manifest)) :
    disk.installedNames true = manifest.map (·.name) := by
  rw [Disk.installedNames, h, readManifest_bytes]

/-- An install that goes through. -/
theorem install_fine {disk : Disk C} {frontmatter : SkillFrontmatter} {files left : Tree C} {source : SkillSource}
    {now : JsString}
    {manifest : InstalledManifest} {skills : Files C} (hfile : disk.manifest = some (manifestBytes manifest))
    (hmet : checkSkillDependencies frontmatter manifest = [])
    (hcopy : files.val.copyDir frontmatter.name disk.skills = some skills) :
    disk.install (some frontmatter) files source now .fine left =
      ⟨some (manifestBytes (put (·.name) (newEntry frontmatter source now) manifest)), skills, disk.staging,
        Function.update disk.versions frontmatter.name (some files.val)⟩ := by
  unfold Disk.install Skills.install
  simp only [hfile, InstallIo.fine, readManifest_bytes, hmet, hcopy]
  rfl

theorem remove_fine {disk : Disk C} {name : JsString} {left : Tree C} {manifest : InstalledManifest}
    (hfile : disk.manifest = some (manifestBytes manifest)) (hin : name ∈ manifest.map (·.name))
    (hfree : dependents name manifest = []) :
    disk.remove name ⟨true, true, .written⟩ left =
      { disk with manifest := some (manifestBytes (drop (·.name) name manifest)), skills := disk.skills.remove name } := by
  unfold Disk.remove Skills.remove
  simp only [hfile, readManifest_bytes, hin, hfree, not_true_eq_false, ne_eq, or_self, if_false, if_true, Bool.true_eq_false]
  rfl

def noFiles : Tree C := ⟨.none, trivial⟩

def SyncIo.fine : SyncIo C := ⟨true, true, noFiles, true, noFiles⟩

theorem builtinAt_noFiles (path : List JsString) : builtinAt (noFiles : Tree C).val path = none := by
  cases path <;> rfl

theorem fileAt_sync_fine {disk : Disk C} (h : disk.Valid) (hclean : (syncSkills noFiles .fine disk).2 = [])
    (path : List JsString) :
    (disk.sync noFiles .fine).staging.fileAt path = (disk.storedAt true path).or (disk.staging.fileAt path) := by
  rw [fileAt_sync h hclean, builtinAt_noFiles, Option.none_or]
  rfl

theorem storedAt_cons {disk : Disk C} {read : Bool} {names : List JsString} (h : disk.installedNames read = names)
    (name : JsString)
    (path : List JsString) : disk.storedAt read (name :: path) =
      if name ∈ names then (disk.skills.dir? name).bind (·.fileAt path) else none := by
  rw [← h]
  rfl

theorem installedAt_cons {disk : Disk C} {names : List JsString} (h : disk.installedNames true = names) (name : JsString)
    (path : List JsString) :
    disk.installedAt (name :: path) = if name ∈ names then (disk.versions name).bind (·.fileAt path) else none := by
  rw [← h]
  rfl

/-- A file that is there, or in the store, and not of the version installed is seen after a sync. -/
theorem not_mirrors {disk : Disk C} (h : disk.Valid) (hclean : (syncSkills noFiles .fine disk).2 = [])
    {path : List JsString} {c : C}
    (hthere : (disk.storedAt true path).or (disk.staging.fileAt path) = some c) (hnot : disk.installedAt path = none) :
    ¬ Mirrors noFiles (disk.sync noFiles .fine) := by
  intro hmirrors
  rcases (hmirrors path c).mp ((fileAt_sync_fine h hclean path).trans hthere) with hin | hin
  · cases hnot.symm.trans hin
  · cases (builtinAt_noFiles path).symm.trans hin

def skillMd : JsString := ofString "SKILL.md"

/-- A version of `base` with nothing but its SKILL.md, and one with a note. -/
def bare : Tree Nat := ⟨.file skillMd 0 .none, by decide⟩

def noted : Tree Nat := ⟨.file skillMd 0 (.file (ofString "note") 1 .none), by decide⟩

def installBase (files : Tree Nat) : Step Nat := .install (some base) files .registry [] .fine noFiles

def syncAll : Step Nat := .sync noFiles .fine

/-- With one version of `base` installed, one in the store and one in the staging directory. -/
def holding (installed stored staged : Files Nat) : Disk Nat :=
  ⟨some (manifestBytes [newEntry base .registry []]), .dir base.name stored .none, staged,
    Function.update (fun _ => none) base.name (some installed)⟩

theorem installs_base {files : Tree Nat} {stored : Files Nat}
    (hcopy : files.val.copyDir base.name .none = some (.dir base.name stored .none)) :
    (installBase files).run (history Nat).init = holding files.val stored .none := by
  have hinit : (history Nat).init.manifest = some (manifestBytes []) := rfl
  exact install_fine hinit rfl hcopy

theorem holding_names (installed stored staged : Files Nat) :
    (holding installed stored staged).installedNames true = [base.name] := by
  have hfile : (holding installed stored staged).manifest = some (manifestBytes [newEntry base .registry []]) := rfl
  exact installedNames_of_file hfile

theorem holding_clean (installed stored staged : Files Nat) (hcopy : (stored.copyDir base.name staged).isSome = true) :
    (syncSkills noFiles .fine (holding installed stored staged)).2 = [] := by
  obtain ⟨out, hout⟩ := Option.isSome_iff_exists.mp hcopy
  have hdir : (holding installed stored staged).skills.dir? base.name = some stored := rfl
  have hstaging : (holding installed stored staged).staging = staged := rfl
  unfold syncSkills
  simp only [SyncIo.fine, holding_names, copyInstalled, hdir, hstaging, Option.bind_some, hout, if_true]
  rfl

/-- What a sync makes of `base`. -/
def stagedBase : Files Nat := .dir base.name bare.val .none

/-- `base` is installed, and synced. -/
theorem base_synced : Reach (history Nat) Free (holding bare.val bare.val stagedBase) := by
  have hinstalled : Reach (history Nat) Free (holding bare.val bare.val .none) :=
    .step (installBase bare) .init trivial (congrArg some (installs_base rfl))
  have hsync : (holding bare.val bare.val .none).sync noFiles .fine = holding bare.val bare.val stagedBase := by
    unfold Disk.sync syncSkills
    simp only [SyncIo.fine, holding_names, if_true]
    rfl
  exact .step syncAll hinstalled trivial (congrArg some hsync)

/-- `base` is installed and synced; the next sync goes over what is there, and the agent sees its version. -/
theorem an_installed_skill_is_seen : ∃ disk, Reach (history Nat) Free disk ∧ (syncSkills noFiles .fine disk).2 = [] ∧
    disk.staging.fileAt [base.name, skillMd] = some 0 ∧ Mirrors noFiles (disk.sync noFiles .fine) ∧
    (disk.sync noFiles .fine).staging.fileAt [base.name, skillMd] = some 0 := by
  have hnames := holding_names bare.val bare.val stagedBase
  have hclean := holding_clean bare.val bare.val stagedBase (by decide)
  have hstored : (holding bare.val bare.val stagedBase).storedAt true = (holding bare.val bare.val stagedBase).installedAt := by
    funext path
    cases path with
    | nil => rfl
    | cons name path =>
      rw [storedAt_cons hnames, installedAt_cons hnames]
      split
      · rename_i hin
        obtain rfl := List.mem_singleton.mp hin
        rfl
      · rfl
  -- what is there is the store's
  have hstaged : ∀ path, stagedBase.fileAt path = (holding bare.val bare.val stagedBase).storedAt true path := by
    intro path
    cases path with
    | nil => rfl
    | cons name path =>
      rw [storedAt_cons hnames]
      by_cases hname : name = base.name
      · subst hname
        rw [if_pos (List.mem_singleton_self _)]
        rfl
      · rw [if_neg (fun hin => hname (List.mem_singleton.mp hin))]
        exact if_neg hname
  have hready : UpToDate noFiles .fine (holding bare.val bare.val stagedBase) := by
    refine ⟨fun path c c' _ h => ?_, fun path c h _ => ?_, fun path c h hnot => ?_, fun path c h _ hnot => ?_⟩
    · cases (builtinAt_noFiles path).symm.trans h
    · exact (congrFun hstored path).symm.trans h
    · cases hnot.symm.trans ((hstaged path).symm.trans h)
    · cases hnot.symm.trans ((congrFun hstored path).trans h)
  refine ⟨_, base_synced, hclean, rfl, (sync_mirrors base_synced hclean).mpr hready, ?_⟩
  rw [fileAt_sync_fine (valid_of_reach base_synced) hclean, storedAt_cons hnames]
  rfl

/-- `base` is installed, synced and removed: the next sync leaves its files where they were. -/
theorem a_removed_skill_stays : ∃ disk, Reach (history Nat) Free disk ∧ (syncSkills noFiles .fine disk).2 = [] ∧
    ¬ Mirrors noFiles (disk.sync noFiles .fine) := by
  let removed : Disk Nat := ⟨some (manifestBytes []), .none, stagedBase, Function.update (fun _ => none) base.name
    (some bare.val)⟩
  have hfile : (holding bare.val bare.val stagedBase).manifest = some (manifestBytes [newEntry base .registry []]) := rfl
  have hremove : (holding bare.val bare.val stagedBase).remove base.name ⟨true, true, .written⟩ noFiles = removed := by
    have hin : base.name ∈ [newEntry base .registry []].map (·.name) := List.mem_singleton_self _
    have hdrop : drop (·.name) base.name [newEntry base .registry []] = [] := by decide
    rw [remove_fine hfile hin rfl, hdrop]
    rfl
  have hremoved : Reach (history Nat) Free removed :=
    .step (.remove base.name ⟨true, true, .written⟩ noFiles) base_synced trivial (congrArg some hremove)
  have hempty : removed.manifest = some (manifestBytes []) := rfl
  have hnames : removed.installedNames true = [] := installedNames_of_file hempty
  have hclean : (syncSkills noFiles .fine removed).2 = [] := by
    unfold syncSkills
    simp only [SyncIo.fine, hnames, if_true]
    rfl
  have hstays : (removed.storedAt true [base.name, skillMd]).or (removed.staging.fileAt [base.name, skillMd]) = some 0 := by
    rw [storedAt_cons hnames]
    rfl
  have hgone : removed.installedAt [base.name, skillMd] = none := installedAt_cons hnames _ _
  exact ⟨removed, hremoved, hclean, not_mirrors (valid_of_reach hremoved) hclean hstays hgone⟩

/-- `base` is installed with a note and then without: the first sync finds the note in the store. -/
theorem a_dropped_file_stays : ∃ disk, Reach (history Nat) Free disk ∧ (syncSkills noFiles .fine disk).2 = [] ∧
    ¬ Mirrors noFiles (disk.sync noFiles .fine) := by
  have hnoted : Reach (history Nat) Free (holding noted.val noted.val .none) :=
    .step (installBase noted) .init trivial (congrArg some (installs_base rfl))
  have hrun : (installBase bare).run (holding noted.val noted.val .none) = holding bare.val noted.val .none := by
    have hfile : (holding noted.val noted.val .none).manifest = some (manifestBytes [newEntry base .registry []]) := rfl
    have hcopy : bare.val.copyDir base.name (holding noted.val noted.val .none).skills = some (.dir base.name noted.val .none) :=
      rfl
    refine (install_fine hfile rfl hcopy).trans ?_
    rw [holding, Function.update_idem]
    rfl
  have hbare : Reach (history Nat) Free (holding bare.val noted.val .none) :=
    .step (installBase bare) hnoted trivial (congrArg some hrun)
  have hnames := holding_names bare.val noted.val .none
  have hclean := holding_clean bare.val noted.val .none (by decide)
  have hstays : ((holding bare.val noted.val .none).storedAt true [base.name, ofString "note"]).or
      ((holding bare.val noted.val .none).staging.fileAt [base.name, ofString "note"]) = some 1 := by
    rw [storedAt_cons hnames]
    decide
  have hdropped : (holding bare.val noted.val .none).installedAt [base.name, ofString "note"] = none := by
    rw [installedAt_cons hnames]
    decide
  exact ⟨_, hbare, hclean, not_mirrors (valid_of_reach hbare) hclean hstays hdropped⟩

end FlowHelm.Skills
