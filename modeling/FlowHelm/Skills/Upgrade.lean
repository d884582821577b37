/-
  FlowHelm.Skills.Upgrade — what SkillStore.install leaves in a skill's directory, over the
  copy of `FlowHelm.Skills.Sync`.

  `copyDir` makes the directory if need be and copies file by file; nothing empties it first.
  `parse` is what readSkillMd makes of a SKILL.md.

  - `install_replaces_iff`: when the directory holds just the files of the source.
  - `install_after_remove`: it does once the old version was removed.
  - `an_upgrade_keeps_a_dropped_file`: a second version with one file less.
-/
import FlowHelm.Skills.Sync

namespace FlowHelm.Skills

open Js Runs Dependencies FileTree

variable {C : Type}

def readSkillMd (parse : C → Option SkillFrontmatter) (files : Tree C) : Option SkillFrontmatter :=
  (files.val.fileAt [skillMd]).bind parse

/-- `copyDir` to the store's directory of the skill. -/
def copied (frontmatter : SkillFrontmatter) (files : Tree C) (io : InstallIo) (disk : Disk C) : Option (Files C) :=
  if io.copied then files.val.copyDir frontmatter.name disk.skills else none

/-- What `install(sourceDir, options)` gives or throws, and the disk after it. -/
def Disk.installFrom (parse : C → Option SkillFrontmatter) (files : Tree C) (source : SkillSource) (now : JsString)
    (io : InstallIo)
    (left : Tree C) (disk : Disk C) : Except SkillError InstalledSkillEntry × Disk C :=
  let skill := readSkillMd parse files
  let io' := { io with copied := (skill.bind (copied · files io disk)).isSome }
  ((Skills.install skill source now io' disk.manifest).1, disk.install skill files source now io left)

variable {parse : C → Option SkillFrontmatter} {files left : Tree C} {source : SkillSource} {now : JsString} {io : InstallIo}
  {disk : Disk C} {frontmatter : SkillFrontmatter}

/-- An install that returns has copied every file. -/
theorem installFrom_copied (hskill : readSkillMd parse files = some frontmatter)
    (h : (disk.installFrom parse files source now io left).1.isOk = true) :
    ∃ skills, files.val.copyDir frontmatter.name disk.skills = some skills ∧
      (disk.installFrom parse files source now io left).2.skills = skills := by
  unfold Disk.installFrom at h ⊢
  rw [hskill] at h ⊢
  simp only [Skills.install, Option.bind_some] at h
  split at h
  · cases h
  · rename_i hmet
    split at h
    · cases h
    · rename_i hcopied
      simp only [Bool.not_eq_false, Option.isSome_iff_exists] at hcopied
      obtain ⟨skills, hskills⟩ := hcopied
      have hcopy : files.val.copyDir frontmatter.name disk.skills = some skills := by
        unfold copied at hskills
        split at hskills
        · exact hskills
        · cases hskills
      refine ⟨skills, hcopy, ?_⟩
      unfold copied at hskills
      simp only [Disk.install, if_neg hmet, hskills, Option.getD_some]

/-- The skill's directory holds the files of the source, and no other. -/
def Replaced (files : Tree C) (name : JsString) (disk : Disk C) : Prop :=
  ∀ path, disk.skills.fileAt (name :: path) = files.val.fileAt path

/-- Every file that was there has a file of the source in its place. -/
def Covers (files : Tree C) (name : JsString) (disk : Disk C) : Prop :=
  ∀ path c, disk.skills.fileAt (name :: path) = some c → (files.val.fileAt path).isSome = true

theorem install_replaces_iff (parse : C → Option SkillFrontmatter) (files : Tree C) (source : SkillSource) (now : JsString)
    (io : InstallIo) (left : Tree C) (disk : Disk C) (frontmatter : SkillFrontmatter)
    (hskill : readSkillMd parse files = some frontmatter) (h : (disk.installFrom parse files source now io left).1.isOk = true) :
    Replaced files frontmatter.name (disk.installFrom parse files source now io left).2 ↔ Covers files frontmatter.name disk := by
  obtain ⟨skills, hcopy, hskills⟩ := installFrom_copied hskill h
  have hfile : ∀ path, skills.fileAt (frontmatter.name :: path) =
      (files.val.fileAt path).or (disk.skills.fileAt (frontmatter.name :: path)) := by
    intro path
    rw [Entries.fileAt_copyDir files.property hcopy, if_pos rfl]
  simp only [Replaced, hskills, hfile]
  constructor
  · intro hall path c hc
    have hpath := hall path
    rw [hc] at hpath
    cases hsource : files.val.fileAt path with
    | some c' => rfl
    | none =>
      rw [hsource] at hpath
      cases hpath
  · intro hall path
    cases hsource : files.val.fileAt path with
    | some c' => rfl
    | none =>
      rw [Option.none_or]
      cases hthere : disk.skills.fileAt (frontmatter.name :: path) with
      | none => rfl
      | some c =>
        have hsome := hall path c hthere
        rw [hsource] at hsome
        cases hsome

/-- The directory of a skill that was removed is made anew. -/
theorem install_after_remove (hvalid : disk.Valid) {manifest : InstalledManifest} {left' : Tree C}
    (hfile : disk.manifest = some (manifestBytes manifest)) (hin : frontmatter.name ∈ manifest.map (·.name))
    (hfree : dependents frontmatter.name manifest = []) (hskill : readSkillMd parse files = some frontmatter)
    (h : ((disk.remove frontmatter.name ⟨true, true, .written⟩ left').installFrom parse files source now io left).1.isOk = true) :
    Replaced files frontmatter.name
      ((disk.remove frontmatter.name ⟨true, true, .written⟩ left').installFrom parse files source now io left).2 := by
  obtain ⟨skills, hcopy, hskills⟩ := installFrom_copied hskill h
  intro path
  rw [hskills, Entries.fileAt_copyDir files.property hcopy, if_pos rfl, remove_fine hfile hin hfree,
    Entries.fileAt_remove hvalid.skills, Option.or_none]

/-! ## Upgrades -/

def parseSkill : Nat → Option SkillFrontmatter
  | 0 => some base
  | 2 => some { base with version := ofString "2.0.0", valid := by decide }
  | _ => none

/-- The second version of `base`, with no note, and with another one. -/
def second : Tree Nat := ⟨.file skillMd 2 .none, by decide⟩

def secondNoted : Tree Nat := ⟨.file skillMd 2 (.file (ofString "note") 3 .none), by decide⟩

/-- An install that meets no error. -/
theorem installFrom_fine {manifest : InstalledManifest} {skills : Files C} (hskill : readSkillMd parse files = some frontmatter)
    (hfile : disk.manifest = some (manifestBytes manifest)) (hmet : checkSkillDependencies frontmatter manifest = [])
    (hcopy : files.val.copyDir frontmatter.name disk.skills = some skills) :
    (disk.installFrom parse files source now .fine left).1.isOk = true := by
  simp [Disk.installFrom, hskill, Skills.install, copied, InstallIo.fine, hcopy, hfile, hmet, Write.ok, Except.isOk,
    Except.toBool]

/-- `base` was installed with a note, and its second version has one too. -/
theorem an_upgrade_with_the_same_files_replaces : ∃ disk, Reach (history Nat) Free disk ∧
    disk.skills.fileAt [base.name, ofString "note"] = some 1 ∧
    Replaced secondNoted base.name (disk.installFrom parseSkill secondNoted .registry [] .fine noFiles).2 := by
  have hnoted : Reach (history Nat) Free (holding noted.val noted.val .none) :=
    .step (installBase noted) .init trivial (congrArg some (installs_base rfl))
  have hfile : (holding noted.val noted.val .none).manifest = some (manifestBytes [newEntry base .registry []]) := rfl
  have hcopy : secondNoted.val.copyDir base.name (holding noted.val noted.val .none).skills =
      some (.dir base.name secondNoted.val .none) := rfl
  have hok : ((holding noted.val noted.val .none).installFrom parseSkill secondNoted .registry [] .fine noFiles).1.isOk = true :=
    installFrom_fine rfl hfile rfl hcopy
  refine ⟨_, hnoted, by decide, (install_replaces_iff parseSkill secondNoted .registry [] .fine noFiles _ _ rfl hok).mpr ?_⟩
  intro path c hc
  -- the files of either version are at the same paths
  have hat : (holding noted.val noted.val .none).skills.fileAt (base.name :: path) = noted.val.fileAt path := if_pos rfl
  rw [hat] at hc
  simp only [noted, secondNoted, Entries.fileAt] at hc ⊢
  split at hc
  · rename_i hmd
    rw [if_pos hmd]
    rfl
  · rename_i hmd
    rw [if_neg hmd]
    split at hc
    · rename_i hnote
      rw [if_pos hnote]
      rfl
    · cases hc

/-- `base` was installed with a note; its second version has none, the install returns, and the
    note is still there. -/
theorem an_upgrade_keeps_a_dropped_file : ∃ disk, Reach (history Nat) Free disk ∧
    readSkillMd parseSkill second = some { base with version := ofString "2.0.0", valid := by decide } ∧
    (disk.installFrom parseSkill second .registry [] .fine noFiles).1.isOk = true ∧
    (disk.installFrom parseSkill second .registry [] .fine noFiles).2.skills.fileAt [base.name, ofString "note"] = some 1 ∧
    ¬ Replaced second base.name (disk.installFrom parseSkill second .registry [] .fine noFiles).2 := by
  have hnoted : Reach (history Nat) Free (holding noted.val noted.val .none) :=
    .step (installBase noted) .init trivial (congrArg some (installs_base rfl))
  have hfile : (holding noted.val noted.val .none).manifest = some (manifestBytes [newEntry base .registry []]) := rfl
  have hcopy : second.val.copyDir base.name (holding noted.val noted.val .none).skills =
      some (.dir base.name (.file skillMd 2 (.file (ofString "note") 1 .none)) .none) := rfl
  have hok : ((holding noted.val noted.val .none).installFrom parseSkill second .registry [] .fine noFiles).1.isOk = true :=
    installFrom_fine rfl hfile rfl hcopy
  obtain ⟨skills, hcopy', hskills⟩ := installFrom_copied rfl hok
  obtain rfl := Option.some.inj (hcopy'.symm.trans hcopy)
  have hnote : ((holding noted.val noted.val .none).installFrom parseSkill second .registry [] .fine noFiles).2.skills.fileAt
      [base.name, ofString "note"] = some 1 := by
    rw [hskills]
    decide
  refine ⟨_, hnoted, rfl, hok, hnote, ?_⟩
  intro hreplaced
  have hpath := hreplaced [ofString "note"]
  rw [hnote] at hpath
  revert hpath
  decide

end FlowHelm.Skills
