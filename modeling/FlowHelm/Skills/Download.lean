/-
  FlowHelm.Skills.Download — registry.ts: download, and what an install from the registry and
  updateCommand make of it.

  A directory of the repository is the tree of its files and directories, symlinks and submodules
  aside. A file whose request is answered with an error is left out and the download goes on, and
  so is all below a subdirectory that cannot be listed. What a file holds is decoded and encoded
  again on its way.

  - `fileAt_downloadItems`: which files come.
  - `run_cases` / `installFrom_cases`: what a call does to the store.
  - `whole_until_lost`: an installed skill has each file of the directory it came from until the
    first install that loses one, and no update brings that back.
-/
import FlowHelm.Lib.WebText
import FlowHelm.Skills.Upgrade

namespace FlowHelm.Skills

open Js Runs Dependencies FileTree

abbrev Bytes := List UInt8

/-! ## The download -/

/-- How a request ends, with what is done with its answer. -/
inductive Fetch where
  | ok
  /-- It is answered with an error. -/
  | notOk
  | throws
  deriving DecidableEq, Repr

/-- What comes of the requests for the directories and the files of a skill. -/
structure Net where
  listed : List JsString → Fetch
  fetched : List JsString → Fetch

/-- What is written of a file: `await fileResponse.text()`, as UTF-8. -/
def kept (content : Bytes) : Bytes := Buffer.fromUtf8 (WebText.textDecode content)

/-- The loop over the entries of the directory at `path`. -/
def downloadItems (net : Net) (path : List JsString) : Files Bytes → Option (Files Bytes)
  | .none => some .none
  | .file name content rest => match net.fetched (path ++ [name]) with
    | .ok => (downloadItems net path rest).map (.file name (kept content))
    | .notOk => downloadItems net path rest
    | .throws => none
  | .dir name below rest =>
    -- downloadSubdir makes the directory before it lists it
    let subdir := match net.listed (path ++ [name]) with
      | .ok => downloadItems net (path ++ [name]) below
      | .notOk => some .none
      | .throws => none
    subdir.bind fun there => (downloadItems net path rest).map (.dir name there)

/-- The file at `rest` below `path` comes. -/
def Net.arrives (net : Net) (path : List JsString) : List JsString → Bool
  | [] => false
  | name :: rest => match rest with
    | [] => net.fetched (path ++ [name]) == .ok
    | _ :: _ => net.listed (path ++ [name]) == .ok && net.arrives (path ++ [name]) rest

structure RegistrySkillEntry where
  name : JsString
  version : JsString
  path : JsString
  sha256 : Option JsString

abbrev RegistryIndex := List RegistrySkillEntry

def lookup (index : RegistryIndex) (name : JsString) : Option RegistrySkillEntry := index.find? fun s => s.name = name

inductive DownloadError where
  /-- getIndex throws. -/
  | registry
  | notFound (name : JsString)
  | contents
  /-- A request or a file operation throws. -/
  | failed
  | integrity (name expected got : JsString)
  deriving DecidableEq

/-- The text of the error, where it is the client's own. -/
def DownloadError.message : DownloadError → Option JsString
  | .notFound name => some (ofString "Skill \"" ++ name ++ ofString "\" not found in registry")
  | .integrity name expected got =>
    some (ofString "Integrity check failed for \"" ++ name ++ ofString "\": expected sha256 " ++ expected ++
      ofString ", got " ++ got)
  | _ => none

theorem names_downloadItems {net : Net} {path : List JsString} {d out : Files Bytes} (h : downloadItems net path d = some out)
    {n : JsString} (hn : n ∈ out.names) : n ∈ d.names := by
  induction d generalizing out with
  | none =>
    obtain rfl := Option.some.inj h
    exact hn
  | file name content rest ih =>
    rw [downloadItems] at h
    split at h
    · obtain ⟨rest', hrest, rfl⟩ := Option.map_eq_some_iff.mp h
      exact List.mem_cons.mpr ((List.mem_cons.mp hn).imp_right (ih hrest))
    · exact List.mem_cons_of_mem _ (ih h hn)
    · cases h
  | dir name below rest _ ih =>
    obtain ⟨there, -, h⟩ := Option.bind_eq_some_iff.mp h
    obtain ⟨rest', hrest, rfl⟩ := Option.map_eq_some_iff.mp h
    exact List.mem_cons.mpr ((List.mem_cons.mp hn).imp_right (ih hrest))

theorem valid_downloadItems {net : Net} {path : List JsString} {d out : Files Bytes} (hd : d.Valid)
    (h : downloadItems net path d = some out) : out.Valid := by
  induction d generalizing path out with
  | none =>
    obtain rfl := Option.some.inj h
    trivial
  | file name content rest ih =>
    rw [downloadItems] at h
    split at h
    · obtain ⟨rest', hrest, rfl⟩ := Option.map_eq_some_iff.mp h
      exact ⟨fun hin => hd.1 (names_downloadItems hrest hin), ih hd.2 hrest⟩
    · exact ih hd.2 h
    · cases h
  | dir name below rest ihbelow ih =>
    obtain ⟨there, hthere, h⟩ := Option.bind_eq_some_iff.mp h
    obtain ⟨rest', hrest, rfl⟩ := Option.map_eq_some_iff.mp h
    refine ⟨fun hin => hd.1 (names_downloadItems hrest hin), ?_, ih hd.2.2 hrest⟩
    split at hthere
    · exact ihbelow hd.2.1 hthere
    · obtain rfl := Option.some.inj hthere
      trivial
    · cases hthere

/-- The files of the directory, as far as they come. -/
def brought (net : Net) (d : Tree Bytes) : Option (Tree Bytes) :=
  (downloadItems net [] d.val).pmap Subtype.mk fun _ h => valid_downloadItems d.property h

/-- `repo` is the repository's branch, `index` what getIndex gives; `none` throws. -/
def download (sha256 : Bytes → JsString) (index : Option RegistryIndex) (repo : JsString → Tree Bytes) (net : Net)
    (name : JsString) :
    Except DownloadError (Tree Bytes) :=
  match index with
  | none => .error .registry
  | some index => match lookup index name with
    | none => .error (.notFound name)
    | some entry => match net.listed [] with
      | .throws => .error .failed
      | .notOk => .error .contents
      | .ok => match brought net (repo entry.path) with
        | none => .error .failed
        | some files => match entry.sha256, files.val.fileAt [skillMd] with
          -- a SKILL.md that is missing is not checked
          | some expected, some content =>
            if sha256 content = expected then .ok files else .error (.integrity name expected (sha256 content))
          | _, _ => .ok files

/-! ## Install and update -/

/-- What a call meets outside: the index at its first and at its second lookup, the branch, the
    requests, and the file system. -/
structure Delivery where
  looked : Option RegistryIndex
  index : Option RegistryIndex
  repo : JsString → Tree Bytes
  net : Net
  io : InstallIo
  now : JsString
  left : Tree Bytes

/-- The store, and the directory each skill was last installed from, as it is in the registry or
    beside the store; the code keeps no such thing. -/
structure Shop where
  disk : Disk Bytes
  origin : JsString → Option (Tree Bytes)

/-- A directory that is installed. -/
structure Copy where
  files : Tree Bytes
  source : SkillSource
  origin : Tree Bytes
  io : InstallIo
  now : JsString
  left : Tree Bytes

inductive Failure where
  | download (e : DownloadError)
  | install (e : SkillError)

/-- How an update of one skill ends. -/
inductive Updated where
  | notFound
  | upToDate
  | failed
  | updated
  deriving DecidableEq, Repr

structure CliResult where
  success : Bool
  message : JsString

section calls

variable (parse : Bytes → Option SkillFrontmatter) (sha256 : Bytes → JsString)

def Shop.store (c : Copy) (s : Shop) : Except SkillError InstalledSkillEntry × Shop :=
  match s.disk.installFrom parse c.files c.source c.now c.io c.left with
  | (.ok entry, disk) => (.ok entry, ⟨disk, Function.update s.origin entry.name (some c.origin)⟩)
  | (.error e, disk) => (.error e, { s with disk })

/-- The directory that a download of the skill is of. -/
def Delivery.origin (d : Delivery) (name : JsString) : Tree Bytes :=
  ((d.index.bind (lookup · name)).map fun entry => d.repo entry.path).getD noFiles

/-- What a download hands to install. -/
def Delivery.copy (d : Delivery) (name : JsString) (files : Tree Bytes) : Copy where
  files
  source := .registry
  origin := d.origin name
  io := d.io
  now := d.now
  left := d.left

/-- `flowhelm install <name>`, as far as the store goes. -/
def Shop.install (name : JsString) (d : Delivery) (s : Shop) : Except Failure InstalledSkillEntry × Shop :=
  match download sha256 d.index d.repo d.net name with
  | .error e => (.error (.download e), s)
  | .ok files => match s.store parse (d.copy name files) with
    | (.ok entry, s) => (.ok entry, s)
    | (.error e, s) => (.error (.install e), s)

/-- install_skill of the MCP server; the name is not empty. -/
def Shop.toolInstallSkill (name : JsString) (d : Delivery) (s : Shop) : Except Failure InstalledSkillEntry × Shop :=
  match d.looked with
  | none => (.error (.download .registry), s)
  | some index => match lookup index name with
    | none => (.error (.download (.notFound name)), s)
    | some _ => s.install parse sha256 name d

/-- The loop body of updateCommand. -/
def Shop.updateSkill (skill : InstalledSkillEntry) (d : Delivery) (s : Shop) : Updated × Shop :=
  match d.looked with
  | none => (.failed, s)
  | some index => match lookup index skill.name with
    | none => (.notFound, s)
    | some entry =>
      if entry.version = skill.version then (.upToDate, s)
      else match s.install parse sha256 skill.name d with
        | (.ok _, s) => (.updated, s)
        | (.error _, s) => (.failed, s)

/-- The loop, and how many skills it updates. -/
def Shop.updateSkills : List (InstalledSkillEntry × Delivery) → Shop → Nat × Shop
  | [], s => (0, s)
  | (skill, d) :: rest, s =>
    let (ended, s) := s.updateSkill parse sha256 skill d
    let (updated, s) := updateSkills rest s
    (if ended = .updated then updated + 1 else updated, s)

/-- The skills the command goes through; an empty name is none. -/
def toUpdate (name : Option JsString) (manifest : InstalledManifest) : List InstalledSkillEntry :=
  match name.filter fun name => name ≠ [] with
  | some name => manifest.filter fun s => s.name = name
  | none => manifest.filter fun s => s.source = .registry

/-- `deliver` is what each skill's update meets. -/
def Shop.updateCommand (name : Option JsString) (read : Bool) (deliver : Nat → Delivery) (s : Shop) : CliResult × Shop :=
  match toUpdate name (readManifest read s.disk.manifest) with
  | [] => match name.filter fun name => name ≠ [] with
    | some name => (⟨false, ofString "Skill \"" ++ name ++ ofString "\" is not installed"⟩, s)
    | none => (⟨true, ofString "Nothing to update"⟩, s)
  | skills =>
    let (updated, s) := s.updateSkills parse sha256 (skills.zipIdx.map fun (skill, i) => (skill, deliver i))
    (⟨true, ofString (toString updated) ++ ofString " skill(s) updated"⟩, s)

/-! ## Runs -/

inductive Ev where
  /-- Of one skill, as updateCommand read it in the manifest. -/
  | update (skill : InstalledSkillEntry) (d : Delivery)
  | install (name : JsString) (d : Delivery)
  | tool (name : JsString) (d : Delivery)
  /-- From a directory. -/
  | copy (files : Tree Bytes) (io : InstallIo) (now : JsString) (left : Tree Bytes)
  | remove (name : JsString) (io : RemoveIo) (left : Tree Bytes)

def Ev.run (s : Shop) : Ev → Shop
  | .update skill d => (s.updateSkill parse sha256 skill d).2
  | .install name d => (s.install parse sha256 name d).2
  | .tool name d => (s.toolInstallSkill parse sha256 name d).2
  | .copy files io now left => (s.store parse ⟨files, .local_, files, io, now, left⟩).2
  | .remove name io left => { s with disk := s.disk.remove name io left }

def shop : System Shop Ev where
  init := ⟨(history Bytes).init, fun _ => none⟩
  step s e := some (e.run parse sha256 s)

end calls

variable {parse : Bytes → Option SkillFrontmatter} {sha256 : Bytes → JsString}

/-- The command is a run of updates. -/
theorem updateSkills_exec (skills : List (InstalledSkillEntry × Delivery)) (s : Shop) :
    exec (shop parse sha256) s (skills.map fun (skill, d) => .update skill d) = some (s.updateSkills parse sha256 skills).2 := by
  induction skills generalizing s with
  | nil => rfl
  | cons skill skills ih => exact ih _

theorem updateCommand_path (name : Option JsString) (read : Bool) (deliver : Nat → Delivery) (s : Shop) :
    Path (shop parse sha256) s (s.updateCommand parse sha256 name read deliver).2 := by
  unfold Shop.updateCommand
  split
  · split <;> exact .refl s
  · exact ⟨_, updateSkills_exec _ s⟩

/-! ## What a download brings -/

theorem arrives_cons (net : Net) (path : List JsString) (name m : JsString) (rest : List JsString) :
    net.arrives path (name :: m :: rest) = (net.listed (path ++ [name]) == .ok && net.arrives (path ++ [name]) (m :: rest)) := rfl

/-- The files that come, as they are kept. -/
theorem fileAt_downloadItems {net : Net} {path : List JsString} {d out : Files Bytes} (hd : d.Valid)
    (h : downloadItems net path d = some out) (p : List JsString) :
    out.fileAt p = if net.arrives path p then (d.fileAt p).map kept else none := by
  induction d generalizing path out p with
  | none =>
    obtain rfl := Option.some.inj h
    simp [Entries.fileAt]
  | file name content rest ih =>
    rw [downloadItems] at h
    split at h
    · rename_i hfetched
      obtain ⟨rest', hrest, rfl⟩ := Option.map_eq_some_iff.mp h
      rw [Entries.fileAt, Entries.fileAt, ih hd.2 hrest]
      by_cases hp : p = [name]
      · subst hp
        simp [Net.arrives, hfetched]
      · rw [if_neg hp, if_neg hp]
    · rename_i hfetched
      rw [ih hd.2 h, Entries.fileAt]
      by_cases hp : p = [name]
      · subst hp
        simp [Net.arrives, hfetched]
      · rw [if_neg hp]
    · cases h
  | dir name below rest ihbelow ih =>
    obtain ⟨there, hthere, h⟩ := Option.bind_eq_some_iff.mp h
    obtain ⟨rest', hrest, rfl⟩ := Option.map_eq_some_iff.mp h
    cases p with
    | nil => simp
    | cons n q =>
      rw [Entries.fileAt, Entries.fileAt]
      by_cases hn : n = name
      · subst hn
        rw [if_pos rfl, if_pos rfl]
        cases q with
        | nil => simp
        | cons m q =>
          rw [arrives_cons]
          split at hthere
          · rename_i hlisted
            rw [ihbelow hd.2.1 hthere, hlisted]
            rfl
          · rename_i hlisted
            obtain rfl := Option.some.inj hthere
            rw [hlisted]
            rfl
          · cases hthere
      · rw [if_neg hn, if_neg hn, ih hd.2.2 hrest]

/-! ## What a step does -/

/-- What is installed, when the event comes to it. -/
def Ev.copy? (sha256 : Bytes → JsString) : Ev → Option Copy
  | .update skill d => match d.looked.bind (lookup · skill.name) with
    | none => none
    | some entry =>
      if entry.version = skill.version then none
      else (download sha256 d.index d.repo d.net skill.name).toOption.map (d.copy skill.name)
  | .install name d => (download sha256 d.index d.repo d.net name).toOption.map (d.copy name)
  | .tool name d => match d.looked.bind (lookup · name) with
    | none => none
    | some _ => (download sha256 d.index d.repo d.net name).toOption.map (d.copy name)
  | .copy files io now left => some ⟨files, .local_, files, io, now, left⟩
  | .remove .. => none

/-- A skill is removed, nothing is done, or one directory is installed. -/
theorem run_cases (parse : Bytes → Option SkillFrontmatter) (sha256 : Bytes → JsString) (s : Shop) (e : Ev) :
    (∃ name io left, e = .remove name io left ∧ e.run parse sha256 s = { s with disk := s.disk.remove name io left }) ∨
      (e.copy? sha256 = none ∧ e.run parse sha256 s = s) ∨
        ∃ c, e.copy? sha256 = some c ∧ e.run parse sha256 s = (s.store parse c).2 := by
  have hinstall : ∀ name d, ((download sha256 d.index d.repo d.net name).toOption.map (d.copy name) = none ∧
      (s.install parse sha256 name d).2 = s) ∨
      ∃ c, (download sha256 d.index d.repo d.net name).toOption.map (d.copy name) = some c ∧
        (s.install parse sha256 name d).2 = (s.store parse c).2 := by
    intro name d
    unfold Shop.install
    split
    · rename_i e hdownload
      exact .inl ⟨by rw [hdownload]; rfl, rfl⟩
    · rename_i files hdownload
      refine .inr ⟨d.copy name files, by rw [hdownload]; rfl, ?_⟩
      split <;> rename_i hstore <;> rw [hstore]
  cases e with
  | remove name io left => exact .inl ⟨name, io, left, rfl, rfl⟩
  | copy files io now left => exact .inr (.inr ⟨_, rfl, rfl⟩)
  | install name d => exact .inr (hinstall name d)
  | tool name d =>
    right
    simp only [Ev.copy?, Ev.run, Shop.toolInstallSkill]
    cases d.looked with
    | none => exact .inl ⟨rfl, rfl⟩
    | some index =>
      simp only [Option.bind_some]
      cases lookup index name with
      | none => exact .inl ⟨rfl, rfl⟩
      | some entry => exact hinstall name d
  | update skill d =>
    right
    simp only [Ev.copy?, Ev.run, Shop.updateSkill]
    cases d.looked with
    | none => exact .inl ⟨rfl, rfl⟩
    | some index =>
      simp only [Option.bind_some]
      cases lookup index skill.name with
      | none => exact .inl ⟨rfl, rfl⟩
      | some entry =>
        dsimp only
        split
        · exact .inl ⟨rfl, rfl⟩
        · have hends : ∀ r : Except Failure InstalledSkillEntry × Shop,
              (match r with
                | (.ok _, s) => (Updated.updated, s)
                | (.error _, s) => (Updated.failed, s) : Updated × Shop).2 = r.2 := by
            rintro ⟨_ | _, s⟩ <;> rfl
          rw [hends]
          exact hinstall skill.name d

/-- An install changes nothing, fails on its way, or leaves all of the directory in its place. -/
theorem installFrom_cases (parse : Bytes → Option SkillFrontmatter) (files : Tree Bytes) (source : SkillSource) (now : JsString)
    (io : InstallIo) (left : Tree Bytes) (disk : Disk Bytes) :
    (∃ e, e ≠ .file ∧ disk.installFrom parse files source now io left = (.error e, disk)) ∨
      ∃ frontmatter, readSkillMd parse files = some frontmatter ∧
        ((∃ after : Disk Bytes, disk.installFrom parse files source now io left = (.error .file, after) ∧
            ∀ n ≠ frontmatter.name, ∀ p, after.skills.fileAt (n :: p) = disk.skills.fileAt (n :: p)) ∨
          ∃ skills versions, files.val.copyDir frontmatter.name disk.skills = some skills ∧
            disk.installFrom parse files source now io left =
              (.ok (newEntry frontmatter source now),
                ⟨some (manifestBytes (put (·.name) (newEntry frontmatter source now)
                  (readManifest io.manifestRead disk.manifest))),
                  skills, disk.staging, versions⟩)) := by
  unfold Disk.installFrom Disk.install
  cases hskill : readSkillMd parse files with
  | none => exact .inl ⟨.skillMd, by decide, rfl⟩
  | some frontmatter =>
    simp only [Skills.install, Option.bind_some]
    split
    · exact .inl ⟨.missing _, SkillError.noConfusion, rfl⟩
    · refine .inr ⟨frontmatter, rfl, ?_⟩
      rcases hcopied : copied frontmatter files io disk with _ | skills
      · unfold copied at hcopied
        simp only [hcopied]
        refine .inl ⟨_, rfl, fun n hn p => ?_⟩
        exact Entries.fileAt_setDir_of_ne hn _ p
      · have hcopy : files.val.copyDir frontmatter.name disk.skills = some skills := by
          unfold copied at hcopied
          split at hcopied
          · exact hcopied
          · cases hcopied
        unfold copied at hcopied
        simp only [hcopied]
        cases hwrite : io.write with
        | written => exact .inr ⟨skills, _, hcopy, rfl⟩
        | refused =>
          refine .inl ⟨_, rfl, fun n hn p => ?_⟩
          exact (Entries.fileAt_copyDir files.property hcopy n p).trans (if_neg hn)
        | torn rest =>
          refine .inl ⟨_, rfl, fun n hn p => ?_⟩
          exact (Entries.fileAt_copyDir files.property hcopy n p).trans (if_neg hn)

/-- What an install that returns leaves. -/
structure Stored (s t : Shop) (c : Copy) (entry : InstalledSkillEntry) : Prop where
  files : ∀ p, t.disk.skills.fileAt (entry.name :: p) = (c.files.val.fileAt p).or (s.disk.skills.fileAt (entry.name :: p))
  others : ∀ n ≠ entry.name, ∀ p, t.disk.skills.fileAt (n :: p) = s.disk.skills.fileAt (n :: p)
  entered : ∀ x ∈ readManifest true t.disk.manifest, x = entry ∨ x ∈ readManifest true s.disk.manifest
  named : entry ∈ readManifest true t.disk.manifest
  unique : (s.disk.installedNames true).Nodup → (t.disk.installedNames true).Nodup
  origin : t.origin = Function.update s.origin entry.name (some c.origin)

theorem store_ok {c : Copy} {s : Shop} {entry : InstalledSkillEntry} (h : (s.store parse c).1 = .ok entry) :
    Stored s (s.store parse c).2 c entry ∧
      ∃ frontmatter, readSkillMd parse c.files = some frontmatter ∧ newEntry frontmatter c.source c.now = entry := by
  unfold Shop.store at h ⊢
  rcases installFrom_cases parse c.files c.source c.now c.io c.left s.disk with
    ⟨e, -, hinstall⟩ | ⟨frontmatter, hskill, ⟨after, hinstall, -⟩ | ⟨skills, versions, hcopy, hinstall⟩⟩
  · rw [hinstall] at h
    cases h
  · rw [hinstall] at h
    cases h
  · rw [hinstall] at h ⊢
    obtain rfl : newEntry frontmatter c.source c.now = entry := by simpa using h
    refine ⟨⟨fun p => ?_, fun n hn p => ?_, fun x hx => ?_, ?_, fun hunique => ?_, rfl⟩, frontmatter, hskill, rfl⟩
    · exact (Entries.fileAt_copyDir c.files.property hcopy _ p).trans (if_pos rfl)
    · exact (Entries.fileAt_copyDir c.files.property hcopy n p).trans (if_neg hn)
    · rw [readManifest_bytes] at hx
      refine (mem_put hx).imp_right fun hold => ?_
      cases hread : c.io.manifestRead with
      | true => rwa [hread] at hold
      | false =>
        rw [hread] at hold
        cases hold
    · rw [readManifest_bytes]
      exact mem_put_self ..
    · rw [Disk.installedNames, readManifest_bytes]
      refine put_nodup ?_
      cases c.io.manifestRead with
      | true => exact hunique
      | false => exact List.nodup_nil

theorem store_error {c : Copy} {s : Shop} {e : SkillError} (h : (s.store parse c).1 = .error e) (he : e ≠ .file) :
    (s.store parse c).2 = s := by
  unfold Shop.store at h ⊢
  rcases installFrom_cases parse c.files c.source c.now c.io c.left s.disk with
    ⟨e', -, hinstall⟩ | ⟨frontmatter, hskill, ⟨after, hinstall, -⟩ | ⟨skills, versions, hcopy, hinstall⟩⟩
  · rw [hinstall]
  · rw [hinstall] at h
    exact absurd (Except.error.inj h).symm he
  · rw [hinstall] at h
    cases h

theorem store_result (c : Copy) (s : Shop) :
    (s.store parse c).1 = (s.disk.installFrom parse c.files c.source c.now c.io c.left).1 := by
  unfold Shop.store
  split <;> rename_i hinstall <;> rw [hinstall]

/-- The directories of the other skills stay. -/
theorem store_others {c : Copy} {s : Shop} {n : JsString} (hn : ∀ frontmatter ∈ readSkillMd parse c.files, frontmatter.name ≠ n) :
    (s.store parse c).2.origin n = s.origin n ∧ ∀ p, (s.store parse c).2.disk.skills.fileAt (n :: p) =
    s.disk.skills.fileAt (n :: p) := by
  unfold Shop.store
  rcases installFrom_cases parse c.files c.source c.now c.io c.left s.disk with
    ⟨e, -, hinstall⟩ | ⟨frontmatter, hskill, ⟨after, hinstall, hothers⟩ | ⟨skills, versions, hcopy, hinstall⟩⟩
  · rw [hinstall]
    exact ⟨rfl, fun _ => rfl⟩
  · rw [hinstall]
    exact ⟨rfl, hothers n (hn frontmatter hskill).symm⟩
  · rw [hinstall]
    have hne := (hn frontmatter hskill).symm
    exact ⟨Function.update_of_ne hne _ _, fun p => (Entries.fileAt_copyDir c.files.property hcopy n p).trans (if_neg hne)⟩

/-- A removal that no file operation fails. -/
theorem remove_cases {name : JsString} {io : RemoveIo} {disk : Disk Bytes}
    (hworks : (Skills.remove name io disk.manifest).1 ≠ .error .file)
    (left : Tree Bytes) :
    disk.remove name io left = disk ∨
      disk.remove name io left = { disk with
        manifest := some (manifestBytes (drop (·.name) name (readManifest true disk.manifest)))
        skills := disk.skills.remove name } := by
  unfold Disk.remove
  unfold Skills.remove at hworks ⊢
  dsimp only at hworks ⊢
  split
  · exact .inl rfl
  · rename_i hfree
    obtain ⟨hinstalled, hdependents⟩ := not_or.mp hfree
    rw [if_neg hinstalled, if_neg hdependents] at hworks ⊢
    split at hworks
    · exact absurd rfl hworks
    · rename_i hremoved
      have hread : io.manifestRead = true := by
        refine (Bool.eq_false_or_eq_true _).resolve_right fun hread => hinstalled ?_
        rw [hread]
        exact List.not_mem_nil
      have hwrite : io.write = .written := by
        cases hwrite : io.write with
        | written => rfl
        | refused => exact absurd (by rw [hwrite]; rfl) hworks
        | torn rest => exact absurd (by rw [hwrite]; rfl) hworks
      rw [if_neg hremoved, if_pos ((Bool.not_eq_false _).mp hremoved), hread, hwrite]
      exact .inr rfl

/-! ## Whole skills -/

def Ev.net? : Ev → Option Net
  | .update _ d | .install _ d | .tool _ d => some d.net
  | .copy .. | .remove .. => none

/-- Each file comes as it is, or was there. -/
def Brings (net : Net) (origin : Files Bytes) (there : List JsString → Option Bytes) : Prop :=
  ∀ p content, origin.fileAt p = some content → if net.arrives [] p then kept content = content else there p = some content

section conditions

variable (parse : Bytes → Option SkillFrontmatter) (sha256 : Bytes → JsString)

/-- No file operation of a call throws. -/
def Works (s : Shop) : Ev → Prop
  | .remove name io _ => (Skills.remove name io s.disk.manifest).1 ≠ .error .file
  | e => ∀ c ∈ e.copy? sha256, (s.store parse c).1 ≠ .error .file

/-- An install that returns has brought each file of the skill. -/
def Arrives (s : Shop) (e : Ev) : Prop :=
  ∀ c ∈ e.copy? sha256, ∀ entry, (s.store parse c).1 = .ok entry →
    ∀ net ∈ e.net?, Brings net c.origin.val fun p => s.disk.skills.fileAt (entry.name :: p)

/-- What is installed is not this skill. -/
def Elsewhere (name : JsString) (e : Ev) : Prop :=
  ∀ c ∈ e.copy? sha256, ∀ frontmatter ∈ readSkillMd parse c.files, frontmatter.name ≠ name

/-- The skill is not removed, and while the registry names the version no install is of it but
    those of updateCommand, which reads the manifest. -/
def Keeps (name version : JsString) (s : Shop) : Ev → Prop
  | .update skill d => skill ∈ readManifest true s.disk.manifest ∧
    if skill.name = name then ∀ entry ∈ d.looked.bind (lookup · name), entry.version = version
    else Elsewhere parse sha256 name (.update skill d)
  | .remove n _ _ => n ≠ name
  | e => Elsewhere parse sha256 name e

end conditions

/-- Each skill in the manifest has each file of the directory it was installed from. -/
def Whole (s : Shop) : Prop :=
  ∀ name ∈ s.disk.installedNames true, ∀ origin ∈ s.origin name, ∀ p content, origin.val.fileAt p = some content →
    s.disk.skills.fileAt (name :: p) = some content

def Lacks (name : JsString) (s : Shop) : Prop :=
  ∃ origin ∈ s.origin name, ∃ p content, origin.val.fileAt p = some content ∧ s.disk.skills.fileAt (name :: p) ≠ some content

theorem download_brought {d : Delivery} {name : JsString} {files : Tree Bytes}
    (h : download sha256 d.index d.repo d.net name = .ok files) : brought d.net (d.origin name) = some files := by
  unfold download at h
  unfold Delivery.origin
  cases hindex : d.index with
  | none =>
    rw [hindex] at h
    cases h
  | some index =>
    rw [hindex] at h
    dsimp only [Option.bind_some] at h ⊢
    cases hentry : lookup index name with
    | none =>
      rw [hentry] at h
      cases h
    | some entry =>
      rw [hentry] at h
      dsimp only [Option.map_some, Option.getD_some] at h ⊢
      split at h
      · cases h
      · cases h
      · split at h
        · cases h
        · rename_i files' hbrought
          split at h
          · split at h
            · cases h
              exact hbrought
            · cases h
          · cases h
            exact hbrought

/-- What is installed is the directory itself, or what came of it. -/
theorem copy_cases {e : Ev} {c : Copy} (h : e.copy? sha256 = some c) :
    (e.net? = none ∧ c.files = c.origin) ∨ ∃ net, e.net? = some net ∧ brought net c.origin = some c.files := by
  have hdownload : ∀ (name : JsString) (d : Delivery), (download sha256 d.index d.repo d.net name).toOption.map
    (d.copy name) = some c →
      brought d.net c.origin = some c.files := by
    intro name d h
    obtain ⟨files, hfiles, rfl⟩ := Option.map_eq_some_iff.mp h
    cases hdown : download sha256 d.index d.repo d.net name with
    | error e =>
      rw [hdown] at hfiles
      cases hfiles
    | ok files' =>
      rw [hdown] at hfiles
      obtain rfl := Option.some.inj hfiles
      exact download_brought hdown
  cases e with
  | update skill d =>
    simp only [Ev.copy?] at h
    split at h
    · cases h
    · split at h
      · cases h
      · exact .inr ⟨d.net, rfl, hdownload skill.name d h⟩
  | install name d => exact .inr ⟨d.net, rfl, hdownload name d h⟩
  | tool name d =>
    simp only [Ev.copy?] at h
    split at h
    · cases h
    · exact .inr ⟨d.net, rfl, hdownload name d h⟩
  | copy files io now left =>
    obtain rfl := Option.some.inj h
    exact .inl ⟨rfl, rfl⟩
  | remove name io left => cases h

theorem fileAt_brought {net : Net} {d out : Tree Bytes} (h : brought net d = some out) (p : List JsString) :
    out.val.fileAt p = if net.arrives [] p then (d.val.fileAt p).map kept else none := by
  obtain ⟨files, -, hfiles, rfl⟩ := Option.pmap_eq_some_iff.mp h
  exact fileAt_downloadItems d.property hfiles p

/-- The files of the directory are in their place just if each came as it is, or was there. -/
theorem stored_iff {s t : Shop} {e : Ev} {c : Copy} {entry : InstalledSkillEntry} (hcopy : e.copy? sha256 = some c)
    (h : Stored s t c entry) : (∀ p content, c.origin.val.fileAt p = some content →
    t.disk.skills.fileAt (entry.name :: p) = some content) ↔
      ∀ net ∈ e.net?, Brings net c.origin.val fun p => s.disk.skills.fileAt (entry.name :: p) := by
  rcases copy_cases hcopy with ⟨hnet, hfiles⟩ | ⟨net, hnet, hbrought⟩
  · constructor
    · intro _ net hin
      cases hnet.symm.trans hin
    · intro _ p content hcontent
      rw [h.files, hfiles, hcontent]
      rfl
  · have hfile : ∀ p content, c.origin.val.fileAt p = some content → (t.disk.skills.fileAt (entry.name :: p) = some content ↔
        if net.arrives [] p then kept content = content else s.disk.skills.fileAt (entry.name :: p) = some content) := by
      intro p content hcontent
      rw [h.files, fileAt_brought hbrought, hcontent]
      split
      · exact Option.some_inj
      · rfl
    constructor
    · intro hall net' hin
      obtain rfl := Option.some.inj (hnet.symm.trans hin)
      exact fun p content hcontent => (hfile p content hcontent).mp (hall p content hcontent)
    · exact fun hall p content hcontent => (hfile p content hcontent).mpr (hall net hnet p content hcontent)

theorem stored_whole_iff {s t : Shop} {c : Copy} {entry : InstalledSkillEntry} (hs : Whole s) (h : Stored s t c entry) :
    Whole t ↔ ∀ p content, c.origin.val.fileAt p = some content → t.disk.skills.fileAt (entry.name :: p) = some content := by
  have horigin : t.origin entry.name = some c.origin := by rw [h.origin, Function.update_self]
  constructor
  · exact fun ht => ht entry.name (List.mem_map_of_mem h.named) c.origin horigin
  · intro hall name hname origin hfrom p content hcontent
    by_cases hn : name = entry.name
    · subst hn
      obtain rfl := Option.some.inj (horigin.symm.trans hfrom)
      exact hall p content hcontent
    · rw [h.others name hn]
      rw [h.origin, Function.update_of_ne hn] at hfrom
      refine hs name ?_ origin hfrom p content hcontent
      obtain ⟨x, hx, rfl⟩ := List.mem_map.mp hname
      rcases h.entered x hx with rfl | hx
      · exact absurd rfl hn
      · exact List.mem_map_of_mem hx

/-- A removal takes the skill out of the manifest, and keeps the rest. -/
theorem removed_whole {s : Shop} {name : JsString} {io : RemoveIo} {left : Tree Bytes} (hs : Whole s)
    (hunique : (s.disk.installedNames true).Nodup) (hworks : (Skills.remove name io s.disk.manifest).1 ≠ .error .file) :
    Whole { s with disk := s.disk.remove name io left } ∧ ((s.disk.remove name io left).installedNames true).Nodup := by
  rcases remove_cases hworks left with hsame | hremoved
  · rw [hsame]
    exact ⟨hs, hunique⟩
  · rw [hremoved]
    refine ⟨?_, ?_⟩
    · intro n hn origin hfrom p content hcontent
      simp only [Disk.installedNames, readManifest_bytes] at hn
      obtain ⟨x, hx, rfl⟩ := List.mem_map.mp hn
      have hne : x.name ≠ name := ne_of_mem_drop hunique hx
      rw [← hs x.name (List.mem_map_of_mem (mem_drop hx)) origin hfrom p content hcontent]
      exact Entries.fileAt_remove_of_ne hne _ p
    · simp only [Disk.installedNames, readManifest_bytes]
      exact drop_nodup hunique

/-- What a step that no file operation fails does to the manifest and to whole skills. -/
theorem step_whole_iff {s : Shop} {e : Ev} (hs : Whole s) (hunique : (s.disk.installedNames true).Nodup)
    (hworks : Works parse sha256 s e) :
    ((e.run parse sha256 s).disk.installedNames true).Nodup ∧ (Whole (e.run parse sha256 s) ↔ Arrives parse sha256 s e) := by
  rcases run_cases parse sha256 s e with ⟨name, io, left, rfl, hrun⟩ | ⟨hcopy, hrun⟩ | ⟨c, hcopy, hrun⟩
  · rw [hrun]
    obtain ⟨hwhole, hnodup⟩ := removed_whole hs hunique hworks
    exact ⟨hnodup, iff_of_true hwhole fun c hc => nomatch hc⟩
  · rw [hrun]
    refine ⟨hunique, iff_of_true hs fun c hc => ?_⟩
    cases hcopy.symm.trans hc
  · rw [hrun]
    have hworks : (s.store parse c).1 ≠ .error .file := by
      cases e with
      | remove name io left => cases hcopy
      | _ => exact hworks c hcopy
    cases hstore : (s.store parse c).1 with
    | error err =>
      rw [store_error hstore fun herr => hworks (herr ▸ hstore)]
      refine ⟨hunique, iff_of_true hs fun c' hc' entry hentry => ?_⟩
      obtain rfl := Option.some.inj (hcopy.symm.trans hc')
      cases hstore.symm.trans hentry
    | ok entry =>
      obtain ⟨hstored, -⟩ := store_ok hstore
      refine ⟨hstored.unique hunique, (stored_whole_iff hs hstored).trans ((stored_iff hcopy hstored).trans ?_)⟩
      constructor
      · intro hall c' hc' entry' hentry
        obtain rfl := Option.some.inj (hcopy.symm.trans hc')
        obtain rfl := Except.ok.inj (hstore.symm.trans hentry)
        exact hall
      · exact fun hall => hall c hcopy entry hstore

/-! ## A file that was lost -/

/-- A file is missing of a skill that the manifest has at the version. -/
structure Lost (name version : JsString) (s : Shop) : Prop where
  lacks : Lacks name s
  version : ∀ x ∈ readManifest true s.disk.manifest, x.name = name → x.version = version

/-- What is installed is another skill. -/
theorem lost_elsewhere {s : Shop} {e : Ev} {c : Copy} {name version : JsString} (hs : Lost name version s)
    (hcopy : e.copy? sha256 = some c) (helse : Elsewhere parse sha256 name e) (hworks : (s.store parse c).1 ≠ .error .file) :
    Lost name version (s.store parse c).2 := by
  obtain ⟨horigin, hfiles⟩ := store_others (helse c hcopy)
  have hlacks : Lacks name (s.store parse c).2 := by
    obtain ⟨origin, hfrom, p, content, hcontent, hno⟩ := hs.lacks
    exact ⟨origin, horigin.trans hfrom, p, content, hcontent, by rw [hfiles]; exact hno⟩
  refine ⟨hlacks, fun x hx hname => ?_⟩
  cases hstore : (s.store parse c).1 with
  | error err =>
    rw [store_error hstore fun herr => hworks (herr ▸ hstore)] at hx
    exact hs.version x hx hname
  | ok entry =>
    obtain ⟨hstored, frontmatter, hskill, rfl⟩ := store_ok hstore
    rcases hstored.entered x hx with rfl | hx
    · exact absurd hname (helse c hcopy frontmatter hskill)
    · exact hs.version x hx hname

theorem lost_step {s : Shop} {e : Ev} {name version : JsString} (hs : Lost name version s) (hworks : Works parse sha256 s e)
    (hkeeps : Keeps parse sha256 name version s e) : Lost name version (e.run parse sha256 s) := by
  rcases run_cases parse sha256 s e with ⟨n, io, left, rfl, hrun⟩ | ⟨-, hrun⟩ | ⟨c, hcopy, hrun⟩
  · rw [hrun]
    rcases remove_cases hworks left with hsame | hremoved
    · rw [hsame]
      exact hs
    · rw [hremoved]
      obtain ⟨origin, hfrom, p, content, hcontent, hno⟩ := hs.lacks
      refine ⟨⟨origin, hfrom, p, content, hcontent, ?_⟩, fun x hx => ?_⟩
      · rw [Entries.fileAt_remove_of_ne (Ne.symm hkeeps)]
        exact hno
      · rw [readManifest_bytes] at hx
        exact hs.version x (mem_drop hx)
  · rw [hrun]
    exact hs
  · rw [hrun]
    cases e with
    | remove n io left => cases hcopy
    | install n d => exact lost_elsewhere hs hcopy hkeeps (hworks c hcopy)
    | tool n d => exact lost_elsewhere hs hcopy hkeeps (hworks c hcopy)
    | copy files io now left => exact lost_elsewhere hs hcopy hkeeps (hworks c hcopy)
    | update skill d =>
      obtain ⟨hskill, hkeeps⟩ := hkeeps
      split at hkeeps
      · rename_i hname
        -- it finds the skill up to date
        subst hname
        simp only [Ev.copy?] at hcopy
        cases hentry : d.looked.bind (lookup · skill.name) with
        | none =>
          rw [hentry] at hcopy
          cases hcopy
        | some entry =>
          rw [hentry] at hcopy
          dsimp only at hcopy
          rw [if_pos ((hkeeps entry hentry).trans (hs.version skill hskill rfl).symm)] at hcopy
          cases hcopy
      · exact lost_elsewhere hs hcopy hkeeps (hworks c hcopy)

theorem lost_exec {s t : Shop} {es : List Ev} {name version : JsString} (hs : Lost name version s)
    (hmeets : Meets (shop parse sha256) (fun s e => Works parse sha256 s e ∧ Keeps parse sha256 name version s e) s es)
    (hrun : exec (shop parse sha256) s es = some t) : Lost name version t := by
  induction es generalizing s with
  | nil =>
    obtain rfl := Option.some.inj hrun
    exact hs
  | cons e es ih =>
    obtain ⟨⟨hworks, hkeeps⟩, hmeets⟩ := hmeets
    exact ih (lost_step hs hworks hkeeps) hmeets hrun

/-- Each installed skill has every file of the directory it was installed from until the first
    install that returns and did not bring one; that skill lacks it from then on, as long as nobody
    installs or removes it and the registry names no other version: an update finds it up to date. -/
theorem whole_until_lost {s : Shop}
    (h : Reach (shop parse sha256) (fun s e => Works parse sha256 s e ∧ Arrives parse sha256 s e) s) :
    Whole s ∧ ∀ e t, (shop parse sha256).step s e = some t → Works parse sha256 s e → ¬Arrives parse sha256 s e →
      ∃ entry ∈ readManifest true t.disk.manifest, ∀ es u, exec (shop parse sha256) t es = some u →
        Meets (shop parse sha256) (fun s e => Works parse sha256 s e ∧ Keeps parse sha256 entry.name entry.version s e) t es →
          Lacks entry.name u := by
  have hinv : Whole s ∧ (s.disk.installedNames true).Nodup := by
    have hinit : Whole (shop parse sha256).init := fun _ _ _ hfrom => nomatch hfrom
    have hstep : ∀ s e t, (Whole s ∧ (s.disk.installedNames true).Nodup) → Works parse sha256 s e ∧ Arrives parse sha256 s e →
        (shop parse sha256).step s e = some t → Whole t ∧ (t.disk.installedNames true).Nodup := by
      intro s e t hs hc hst
      obtain rfl := Option.some.inj hst
      obtain ⟨hnodup, hiff⟩ := step_whole_iff hs.1 hs.2 hc.1
      exact ⟨hiff.mpr hc.2, hnodup⟩
    refine h.inv ?_ fun s e t _ hs hc hst => hstep s e t hs hc hst
    exact ⟨hinit, List.nodup_nil⟩
  refine ⟨hinv.1, fun e t hst hworks hno => ?_⟩
  obtain rfl := Option.some.inj hst
  obtain ⟨c, hcopy, entry, hstore, hbrings⟩ : ∃ c, e.copy? sha256 = some c ∧ ∃ entry, (s.store parse c).1 = .ok entry ∧
      ¬∀ net ∈ e.net?, Brings net c.origin.val fun p => s.disk.skills.fileAt (entry.name :: p) := by
    simpa [Arrives] using hno
  obtain ⟨hstored, -⟩ := store_ok hstore
  rcases run_cases parse sha256 s e with ⟨name, io, left, rfl, -⟩ | ⟨hnone, -⟩ | ⟨c', hcopy', hrun⟩
  · cases hcopy
  · cases hnone.symm.trans hcopy
  · obtain rfl := Option.some.inj (hcopy.symm.trans hcopy')
    simp only [← stored_iff hcopy hstored, not_forall] at hbrings
    obtain ⟨p, content, hcontent, hno⟩ := hbrings
    have horigin : (s.store parse c).2.origin entry.name = some c.origin := by rw [hstored.origin, Function.update_self]
    rw [hrun]
    refine ⟨entry, hstored.named, fun es u hu hmeets =>
      (lost_exec ⟨⟨c.origin, horigin, p, content, hcontent, hno⟩, ?_⟩ hmeets hu).lacks⟩
    intro x hx hname
    rw [List.inj_on_of_nodup_map (hstored.unique hinv.2) hx hstored.named hname]

/-! ## A note that is lost -/

def parseBase (content : Bytes) : Option SkillFrontmatter := if content = [0x62] then some base else none

def note : JsString := ofString "note"

/-- The registry's directory of `base`. -/
def published : Tree Bytes := ⟨.file skillMd [0x62] (.file note [0x6E] .none), by decide⟩

/-- The request for the note is answered with an error. -/
def withoutNote : Delivery where
  looked := some [⟨base.name, base.version, base.name, none⟩]
  index := some [⟨base.name, base.version, base.name, none⟩]
  repo _ := published
  net := ⟨fun _ => .ok, fun p => if p = [note] then .notOk else .ok⟩
  io := .fine
  now := []
  left := noFiles

def fetched : Tree Bytes := ⟨.file skillMd [0x62] .none, by decide⟩

theorem download_withoutNote : download (fun _ => []) withoutNote.index withoutNote.repo withoutNote.net base.name =
    .ok fetched := by
  rfl

abbrev baseShop : System Shop Ev := shop parseBase fun _ => []

/-- It installs what came. -/
theorem installs_withoutNote :
    (baseShop.init.store parseBase (withoutNote.copy base.name fetched)).1 = .ok (newEntry base .registry []) := by
  have hfile : baseShop.init.disk.manifest = some (manifestBytes []) := rfl
  have hok : (baseShop.init.disk.installFrom parseBase fetched .registry [] .fine noFiles).1.isOk = true :=
    installFrom_fine rfl hfile rfl rfl
  have hresult : (baseShop.init.store parseBase (withoutNote.copy base.name fetched)).1 =
      (baseShop.init.disk.installFrom parseBase fetched .registry [] .fine noFiles).1 := store_result ..
  rw [← hresult] at hok
  cases hstore : (baseShop.init.store parseBase (withoutNote.copy base.name fetched)).1 with
  | error e =>
    rw [hstore] at hok
    cases hok
  | ok entry =>
    obtain ⟨-, frontmatter, hskill, rfl⟩ := store_ok hstore
    obtain rfl := Option.some.inj hskill
    rfl

/-- `base` is installed without its note, and the update finds it up to date. -/
theorem a_lost_note_stays_lost : ∃ u, exec baseShop baseShop.init
    [.install base.name withoutNote, .update (newEntry base .registry []) withoutNote] = some u ∧ Lacks base.name u := by
  have hstore := installs_withoutNote
  have hcopy : (Ev.install base.name withoutNote).copy? (fun _ => []) = some (withoutNote.copy base.name fetched) := by
    simp only [Ev.copy?, download_withoutNote]
    rfl
  have hworks : Works parseBase (fun _ => []) baseShop.init (.install base.name withoutNote) := by
    intro c hc
    obtain rfl := Option.some.inj (hcopy.symm.trans hc)
    rw [hstore]
    nofun
  have hno : ¬Arrives parseBase (fun _ => []) baseShop.init (.install base.name withoutNote) := by
    intro h
    cases h _ hcopy _ hstore withoutNote.net rfl [note] [0x6E] rfl
  obtain ⟨entry, hin, hlost⟩ := (whole_until_lost (.init : Reach baseShop _ _)).2 _ _ rfl hworks hno
  -- the manifest has no other skill
  have hentry : entry = newEntry base .registry [] := by
    rcases run_cases parseBase (fun _ => []) baseShop.init (.install base.name withoutNote) with
      ⟨_, _, _, hremove, -⟩ | ⟨hnone, -⟩ | ⟨c, hc, hrun⟩
    · cases hremove
    · cases hnone.symm.trans hcopy
    · obtain rfl := Option.some.inj (hcopy.symm.trans hc)
      rw [hrun] at hin
      exact ((store_ok hstore).1.entered entry hin).resolve_right List.not_mem_nil
  subst hentry
  have hnone : (Ev.update (newEntry base .registry []) withoutNote).copy? (fun _ => []) = none := rfl
  refine ⟨_, rfl, hlost [.update (newEntry base .registry []) withoutNote] _ rfl ⟨⟨?_, hin, ?_⟩, trivial⟩⟩
  · intro c hc
    cases hnone.symm.trans hc
  · rw [if_pos rfl]
    intro entry hentry
    obtain rfl := Option.some.inj hentry
    rfl

end FlowHelm.Skills
