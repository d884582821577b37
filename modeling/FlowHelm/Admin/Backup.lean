/-
  FlowHelm.Admin.Backup — backup.ts: createBackup and restoreBackup.

  An archive is what the staging directory held, tar giving it back as it was. PostgreSQL is a
  parameter: the script pg_dump writes, the statements psql reads in it and what one does; psql
  goes on after a statement that fails. Whether a file operation or another program succeeds is
  up to the host.

  - `restore_of_backup`: what of a user's state a restore brings back, whatever it finds.
  - `a_skill_directory_is_not_archived`, `a_restore_keeps_what_it_finds`: what it does not.
-/
import FlowHelm.Admin.BackupFiles
import FlowHelm.Lib.FileTree
import FlowHelm.Lib.Utf8
import FlowHelm.Skills.Store

namespace FlowHelm.Admin

open Js FileTree

abbrev Folder := { files : Entries JsString (List UInt8) // files.Valid }

variable {Db : Type}

structure Postgres (Db : Type) where
  Statement : Type
  empty : Db
  /-- pg_dump. -/
  dump : Db → List Char
  statements : List Char → List Statement
  /-- `none` when it fails. -/
  execute : Statement → Db → Option Db

/-- psql -f. -/
def Postgres.run (pg : Postgres Db) (script : List Char) (db : Db) : Db :=
  (pg.statements script).foldl (fun db statement => (pg.execute statement db).getD db) db

/-- A dump run on an empty database makes the database it is of. -/
def Postgres.Dumps (pg : Postgres Db) : Prop := ∀ db, pg.run (pg.dump db) pg.empty = db

/-- What a user has below ~/.flowhelm and in the database. -/
structure UserState (Db : Type) where
  config : Option (List UInt8)
  secrets : Option Folder
  /-- skills/installed.json -/
  installed : Option (List UInt8)
  /-- The directories beside it. -/
  skills : Folder
  db : Db

structure Archive where
  database : Option (List UInt8)
  config : Option (List UInt8)
  secrets : Option Folder
  installed : Option (List UInt8)

inductive CliResult where
  | success (message : JsString)
  | failure (message : JsString)
  | thrown
  deriving DecidableEq

def noSuchUser (name : JsString) : CliResult := .failure (ofString "User \"" ++ name ++ ofString "\" does not exist")

/-! ## createBackup -/

structure BackupIo where
  homeExists : Bool
  dumpError : Option JsString
  /-- The copies, tar and stat. -/
  archived : Bool
  now : WallTime

/-- The bytes of database.sql: what pg_dump wrote, read as UTF-8 and written. -/
def dumpFile (pg : Postgres Db) (db : Db) : List UInt8 := Utf8.encode (Utf8.decode (Utf8.encode (pg.dump db)))

/-- A directory copied over another; `none` throws. -/
def copyOver (src dest : Folder) : Option Folder := match h : src.val.copyInto dest.val with
  | some out => some ⟨out, Entries.valid_copyInto dest.property h⟩
  | none => none

def emptyFolder : Folder := ⟨.none, trivial⟩

/-- secrets/ in the staging directory; `none` throws. -/
def stageSecrets : Option Folder → Option (Option Folder)
  | none => some none
  | some src => (copyOver src emptyFolder).map some

def stage (pg : Postgres Db) (s : UserState Db) : Option Archive :=
  (stageSecrets s.secrets).map fun secrets => ⟨some (dumpFile pg s.db), s.config, secrets, s.installed⟩

def createBackup (pg : Postgres Db) (io : BackupIo) (backupDir name : JsString) (s : UserState Db) : CliResult × Option Archive :=
  if io.homeExists = false then (noSuchUser name, none)
  else match io.dumpError with
    | some msg => (.failure (ofString "Database dump failed for \"" ++ name ++ ofString "\": " ++ msg), none)
    | none => match stage pg s with
      | none => (.thrown, none)
      | some archive =>
        if io.archived = false then (.thrown, none)
        else (.success (ofString "Backup created: " ++ PosixPath.join backupDir (archiveName name io.now)), some archive)

/-! ## restoreBackup -/

structure RestoreIo (Db : Type) where
  archiveExists : Bool
  homeExists : Bool
  extracted : Bool
  configCopied : Bool
  secretsCopied : Bool
  /-- What the secrets are when the copy throws. -/
  secretsLeft : Option Folder
  installedCopied : Bool
  startError : Option JsString
  /-- pg_isready succeeds within twenty tries. -/
  ready : Bool
  /-- The script gets into the container. -/
  scriptCopied : Bool
  /-- psql comes to the end of the script. -/
  ran : Bool
  databaseLeft : Db

/-- A step's state; `false` throws. -/
abbrev Restoring (Db : Type) := Bool × UserState Db

def Restoring.andThen (r : Restoring Db) (next : UserState Db → CliResult × UserState Db) : CliResult × UserState Db :=
  if r.1 then next r.2 else (.thrown, r.2)

def restoreConfig (io : RestoreIo Db) (archive : Archive) (s : UserState Db) : Restoring Db := match archive.config with
  | none => (true, s)
  | some config => if io.configCopied then (true, { s with config := some config }) else (false, s)

def restoreSecrets (io : RestoreIo Db) (archive : Archive) (s : UserState Db) : Restoring Db := match archive.secrets with
  | none => (true, s)
  | some src => match if io.secretsCopied then copyOver src (s.secrets.getD emptyFolder) else none with
    | some secrets => (true, { s with secrets := some secrets })
    | none => (false, { s with secrets := io.secretsLeft })

def restoreInstalled (io : RestoreIo Db) (archive : Archive) (s : UserState Db) : Restoring Db := match archive.installed with
  | none => (true, s)
  | some installed => if io.installedCopied then (true, { s with installed := some installed }) else (false, s)

/-- `none` goes on. -/
def restoreDatabase (pg : Postgres Db) (io : RestoreIo Db) (archive : Archive) (s : UserState Db) :
    Option CliResult × UserState Db :=
  match archive.database with
  | none => (none, s)
  | some script =>
    match io.startError with
    | some msg => (some (.failure (ofString "Cannot start DB container for restore: " ++ msg)), s)
    | none =>
      if io.ready = false then (some (.failure (ofString "Database container not ready for restore")), s)
      else if io.scriptCopied = false then (some .thrown, s)
      else if io.ran = false then (some .thrown, { s with db := io.databaseLeft })
      else (none, { s with db := pg.run (Utf8.decode script) s.db })

def restoreBackup (pg : Postgres Db) (io : RestoreIo Db) (archivePath name : JsString) (archive : Archive) (s : UserState Db) :
    CliResult × UserState Db :=
  if io.archiveExists = false then (.failure (ofString "Archive not found: " ++ archivePath), s)
  else if io.homeExists = false then (noSuchUser name, s)
  else if io.extracted = false then (.thrown, s)
  else
    Restoring.andThen (restoreConfig io archive s) fun s =>
      Restoring.andThen (restoreSecrets io archive s) fun s =>
        Restoring.andThen (restoreInstalled io archive s) fun s =>
          match restoreDatabase pg io archive s with
          | (some result, s) => (result, s)
          | (none, s) => (.success (ofString "Backup restored for \"" ++ name ++ ofString "\" from " ++ archivePath), s)

/-! ## What comes back -/

def UserState.secretAt (s : UserState Db) (path : List JsString) : Option (List UInt8) :=
  s.secrets.bind fun files => files.val.fileAt path

/-- What a restore of the state `s` over `before` comes to. -/
structure Restored (pg : Postgres Db) (s before after : UserState Db) : Prop where
  config : s.config ≠ none ∨ before.config = none → after.config = s.config
  installed : s.installed ≠ none ∨ before.installed = none → after.installed = s.installed
  secrets : ∀ path content, s.secretAt path = some content → after.secretAt path = some content
  onlySecrets : (∀ path, before.secretAt path ≠ none → s.secretAt path ≠ none) → after.secretAt = s.secretAt
  skills : after.skills = before.skills
  database : before.db = pg.empty → after.db = s.db

theorem copyOver_fileAt {src dest out : Folder} (h : copyOver src dest = some out) (path : List JsString) :
    out.val.fileAt path = (src.val.fileAt path).or (dest.val.fileAt path) := by
  unfold copyOver at h
  split at h
  · rename_i copied hcopied
    obtain rfl := Option.some.inj h
    exact Entries.fileAt_copyInto src.property hcopied path
  · cases h

def Archive.secretAt (archive : Archive) (path : List JsString) : Option (List UInt8) :=
  archive.secrets.bind fun files => files.val.fileAt path

/-- What an archive of the state `s` holds. -/
structure Archived (pg : Postgres Db) (s : UserState Db) (archive : Archive) : Prop where
  database : archive.database = some (Utf8.encode (pg.dump s.db))
  config : archive.config = s.config
  installed : archive.installed = s.installed
  secrets : archive.secretAt = s.secretAt

theorem stage_archived {pg : Postgres Db} {s : UserState Db} {archive : Archive} (h : stage pg s = some archive) :
    Archived pg s archive := by
  obtain ⟨secrets, hsecrets, rfl⟩ := Option.map_eq_some_iff.mp h
  refine ⟨?_, rfl, rfl, funext fun path => ?_⟩
  · rw [dumpFile, Utf8.decode_encode]
  · unfold Archive.secretAt UserState.secretAt
    cases hs : s.secrets with
    | none =>
      rw [hs] at hsecrets
      obtain rfl := Option.some.inj hsecrets
      rfl
    | some src =>
      rw [hs] at hsecrets
      obtain ⟨out, hout, rfl⟩ := Option.map_eq_some_iff.mp hsecrets
      rw [Option.bind_some, Option.bind_some, copyOver_fileAt hout]
      exact Option.or_none

theorem createBackup_archived {pg : Postgres Db} {io : BackupIo} {backupDir name message : JsString} {s : UserState Db}
    {archive : Archive}
    (h : createBackup pg io backupDir name s = (.success message, some archive)) : Archived pg s archive := by
  unfold createBackup at h
  split at h
  · cases h
  · split at h
    · cases h
    · split at h
      · cases h
      · rename_i staged hstaged
        split at h
        · cases h
        · cases h
          exact stage_archived hstaged

/-- What a restore that reports success has done. -/
structure Done (pg : Postgres Db) (archive : Archive) (before after : UserState Db) : Prop where
  config : after.config = archive.config.or before.config
  installed : after.installed = archive.installed.or before.installed
  secrets : ∀ path, after.secretAt path = (archive.secretAt path).or (before.secretAt path)
  skills : after.skills = before.skills
  database : ∀ script ∈ archive.database, after.db = pg.run (Utf8.decode script) before.db

theorem restoreConfig_spec {io : RestoreIo Db} {archive : Archive} {s t : UserState Db}
    (h : restoreConfig io archive s = (true, t)) :
    t = { s with config := archive.config.or s.config } := by
  unfold restoreConfig at h
  split at h
  · rename_i hnone
    cases h
    rw [hnone, Option.none_or]
  · rename_i config hconfig
    split at h
    · cases h
      rw [hconfig, Option.some_or]
    · cases h

theorem restoreInstalled_spec {io : RestoreIo Db} {archive : Archive} {s t : UserState Db}
    (h : restoreInstalled io archive s = (true, t)) : t = { s with installed := archive.installed.or s.installed } := by
  unfold restoreInstalled at h
  split at h
  · rename_i hnone
    cases h
    rw [hnone, Option.none_or]
  · rename_i installed hinstalled
    split at h
    · cases h
      rw [hinstalled, Option.some_or]
    · cases h

theorem restoreSecrets_spec {io : RestoreIo Db} {archive : Archive} {s t : UserState Db}
    (h : restoreSecrets io archive s = (true, t)) :
    (∀ path, t.secretAt path = (archive.secretAt path).or (s.secretAt path)) ∧ t = { s with secrets := t.secrets } := by
  unfold restoreSecrets at h
  split at h
  · rename_i hnone
    cases h
    refine ⟨fun path => ?_, rfl⟩
    rw [Archive.secretAt, hnone, Option.bind_none, Option.none_or]
  · rename_i src hsrc
    split at h
    · rename_i out hout
      cases h
      refine ⟨fun path => ?_, rfl⟩
      split at hout
      · rw [Archive.secretAt, hsrc, UserState.secretAt, Option.bind_some, Option.bind_some, copyOver_fileAt hout,
          UserState.secretAt]
        cases s.secrets <;> rfl
      · cases hout
    · cases h

theorem restoreDatabase_spec {pg : Postgres Db} {io : RestoreIo Db} {archive : Archive} {s t : UserState Db}
    (h : restoreDatabase pg io archive s = (none, t)) :
    (∀ script ∈ archive.database, t.db = pg.run (Utf8.decode script) s.db) ∧ t = { s with db := t.db } := by
  unfold restoreDatabase at h
  split at h
  · rename_i hnone
    cases h
    rw [hnone]
    exact ⟨nofun, rfl⟩
  · rename_i script hscript
    split at h
    · cases h
    · split at h
      · cases h
      · split at h
        · cases h
        · split at h
          · cases h
          · cases h
            rw [hscript]
            refine ⟨fun script hin => ?_, rfl⟩
            obtain rfl := Option.some.inj hin
            rfl

theorem restoreDatabase_fails {pg : Postgres Db} {io : RestoreIo Db} {archive : Archive} {s t : UserState Db} {result : CliResult}
    (h : restoreDatabase pg io archive s = (some result, t)) (message : JsString) : result ≠ .success message := by
  unfold restoreDatabase at h
  split at h
  · cases h
  · split at h
    · cases h
      exact nofun
    · split at h
      · cases h
        exact nofun
      · split at h
        · cases h
          exact nofun
        · split at h
          · cases h
            exact nofun
          · cases h

theorem andThen_success {r : Restoring Db} {next : UserState Db → CliResult × UserState Db} {message : JsString}
    {t : UserState Db}
    (h : r.andThen next = (.success message, t)) : ∃ s, r = (true, s) ∧ next s = (.success message, t) := by
  obtain ⟨ok, s⟩ := r
  cases ok with
  | false => cases h
  | true => exact ⟨s, rfl, h⟩

theorem restoreBackup_done {pg : Postgres Db} {io : RestoreIo Db} {archivePath name message : JsString} {archive : Archive}
    {s t : UserState Db} (h : restoreBackup pg io archivePath name archive s = (.success message, t)) : Done pg archive s t := by
  unfold restoreBackup at h
  split at h
  · cases h
  · split at h
    · cases h
    · split at h
      · cases h
      · obtain ⟨s₁, hconfig, h⟩ := andThen_success h
        obtain ⟨s₂, hsecrets, h⟩ := andThen_success h
        obtain ⟨s₃, hinstalled, h⟩ := andThen_success h
        obtain rfl := restoreConfig_spec hconfig
        obtain ⟨hsecretAt, hs₂⟩ := restoreSecrets_spec hsecrets
        obtain rfl := restoreInstalled_spec hinstalled
        split at h
        · rename_i result s₄ hdatabase
          cases h
          exact absurd rfl (restoreDatabase_fails hdatabase message)
        · rename_i s₄ hdatabase
          obtain ⟨hdb, hs₄⟩ := restoreDatabase_spec hdatabase
          cases h
          rw [hs₂] at hs₄
          rw [hs₂] at hdb
          rw [hs₄]
          exact ⟨rfl, rfl, hsecretAt, rfl, hdb⟩

/-- Of a state that was archived, a restore brings back the config and the manifest where it had
    them, every secret, and the database where it finds an empty one; it leaves the directories of
    the skills as it finds them. -/
theorem restore_of_backup {pg : Postgres Db} (hpg : pg.Dumps) {backupIo : BackupIo} {restoreIo : RestoreIo Db}
    {backupDir archivePath name message message' : JsString} {archive : Archive} {s before after : UserState Db}
    (hbackup : createBackup pg backupIo backupDir name s = (.success message, some archive))
    (hrestore : restoreBackup pg restoreIo archivePath name archive before = (.success message', after)) :
    Restored pg s before after := by
  have harchived := createBackup_archived hbackup
  have hdone := restoreBackup_done hrestore
  have hsecret : ∀ path, after.secretAt path = (s.secretAt path).or (before.secretAt path) := by
    rw [← harchived.secrets]
    exact hdone.secrets
  refine ⟨fun h => ?_, fun h => ?_, fun path content h => ?_, fun h => funext fun path => ?_, hdone.skills, fun h => ?_⟩
  · rw [hdone.config, harchived.config]
    rcases h with h | h
    · exact Option.or_of_isSome (Option.isSome_iff_ne_none.mpr h)
    · rw [h, Option.or_none]
  · rw [hdone.installed, harchived.installed]
    rcases h with h | h
    · exact Option.or_of_isSome (Option.isSome_iff_ne_none.mpr h)
    · rw [h, Option.or_none]
  · rw [hsecret, h, Option.some_or]
  · rw [hsecret]
    cases hs : s.secretAt path with
    | some content => rfl
    | none => exact not_not.mp fun hbefore => h path hbefore hs
  · rw [hdone.database _ harchived.database, Utf8.decode_encode, h]
    exact hpg s.db

/-! ## What does not come back -/

/-- Everything of the user's is as it was, with the directories of the skills the manifest names. -/
structure Inverse (s after : UserState Db) : Prop where
  config : after.config = s.config
  secrets : after.secretAt = s.secretAt
  installed : after.installed = s.installed
  skills : ∀ entry ∈ Skills.readManifest true s.installed, ∀ path,
    after.skills.val.fileAt (entry.name :: path) = s.skills.val.fileAt (entry.name :: path)
  database : after.db = s.db

inductive Sql where
  | create
  | copy (rows : List Char)

/-- A database of at most one table, its rows being keys. -/
def oneTable : Postgres (Option (List Char)) where
  Statement := Sql
  empty := none
  dump
    | none => []
    | some rows => 'T' :: rows
  statements
    | 'T' :: rows => [.create, .copy rows]
    | _ => []
  execute
    | .create, none => some (some [])
    | .copy rows, some there => if rows.any there.contains then none else some (some (there ++ rows))
    | _, _ => none

theorem oneTable_dumps : oneTable.Dumps := by
  intro db
  cases db with
  | none => rfl
  | some rows =>
    show (if rows.any [].contains then none else some (some ([] ++ rows))).getD (some []) = some rows
    rw [if_neg (by simp)]
    rfl

def BackupIo.fine : BackupIo := ⟨true, none, true, ⟨2026, 4, 10, 14, 30, 22⟩⟩

def RestoreIo.fine (db : Db) : RestoreIo Db := ⟨true, true, true, true, true, none, true, none, true, true, true, db⟩

def oneFile (dir file : String) (content : List UInt8) : Folder :=
  ⟨.dir (ofString dir) (.file (ofString file) content .none) .none, ⟨List.not_mem_nil, ⟨List.not_mem_nil, trivial⟩, trivial⟩⟩

/-- A user with one skill, one secret and one row. -/
def ann : UserState (Option (List Char)) where
  config := some [1]
  secrets := some (oneFile "vault" "key" [2])
  installed := some (Skills.manifestBytes [Skills.newEntry Skills.base .registry []])
  skills := oneFile "base" "SKILL.md" [3]
  db := some ['a']

def newUser : UserState (Option (List Char)) := ⟨none, none, none, emptyFolder, none⟩

/-- A user without a config. -/
def bare : UserState (Option (List Char)) := { newUser with db := some ['b'] }

/-- `s` archived, and restored over `before`. -/
def Restores (s before after : UserState (Option (List Char))) : Prop := ∃ archive message message',
  createBackup oneTable .fine defaultBackupDir (ofString "ann") s = (.success message, some archive) ∧
    restoreBackup oneTable (.fine none) [] (ofString "ann") archive before = (.success message', after)

/-- The same user later: another config, another value of the secret, another skill, a new database. -/
def annLater : UserState (Option (List Char)) where
  config := some [4]
  secrets := some (oneFile "vault" "key" [5])
  installed := some (Skills.manifestBytes [])
  skills := oneFile "mail" "SKILL.md" [6]
  db := none

theorem ann_is_restored : ∃ after, Restores ann annLater after ∧ Restored oneTable ann annLater after := by
  obtain ⟨archive, message, hbackup⟩ : ∃ archive message,
    createBackup oneTable .fine defaultBackupDir (ofString "ann") ann = (.success message, some archive) := ⟨_, _, rfl⟩
  obtain ⟨message', after, hrestore⟩ : ∃ message' after,
    restoreBackup oneTable (.fine none) [] (ofString "ann") archive annLater = (.success message', after) := by
    cases hbackup
    exact ⟨_, _, rfl⟩
  exact ⟨after, ⟨archive, message, message', hbackup, hrestore⟩, restore_of_backup oneTable_dumps hbackup hrestore⟩

theorem a_skill_directory_is_not_archived : ∃ after, Restores ann newUser after ∧ ¬ Inverse ann after := by
  obtain ⟨after, hrestores, hrestored⟩ : ∃ after, Restores ann newUser after ∧ after.skills = newUser.skills := by
    refine ⟨_, ⟨_, _, _, rfl, rfl⟩, rfl⟩
  refine ⟨after, hrestores, fun h => ?_⟩
  have hskill := h.skills (Skills.newEntry Skills.base .registry []) ?_ [ofString "SKILL.md"]
  · rw [hrestored] at hskill
    revert hskill
    decide
  · show _ ∈ Skills.readManifest true (some (Skills.manifestBytes _))
    rw [Skills.readManifest_bytes]
    exact List.mem_singleton_self _

/-- What was not archived stays: a config, a secret, and the rows that are there. -/
theorem a_restore_keeps_what_it_finds : ∃ after, Restores bare ann after ∧ after.config = ann.config ∧
    after.secretAt = ann.secretAt ∧
    after.db = some ['a', 'b'] := by
  refine ⟨_, ⟨_, _, _, rfl, rfl⟩, rfl, rfl, ?_⟩
  decide

end FlowHelm.Admin
