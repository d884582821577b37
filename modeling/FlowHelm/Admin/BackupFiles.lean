/-
  FlowHelm.Admin.BackupFiles — backup.ts: what an archive is called, and which files of the
  backup directory are listed as a user's.

  - `listBackups_spec`: the files listed, where all of them have a date.
-/
import Mathlib.Data.List.Sort
import FlowHelm.Lib.JsFormat
import FlowHelm.Lib.JsParseInt
import FlowHelm.Lib.PosixPath

namespace FlowHelm.Admin

open Js

def defaultBackupDir : JsString := ofString "/var/backup/flowhelm"

/-- A time as the host's clock has it; the months count from 1. -/
structure WallTime where
  year : Nat
  month : Nat
  day : Nat
  hour : Nat
  minute : Nat
  second : Nat

def pad (n : Nat) : JsString := ofString (String.ofList (digits 2 n))

def formatTimestamp (now : WallTime) : JsString :=
  ofString (toString now.year) ++ pad now.month ++ pad now.day ++ ofString "-" ++ pad now.hour ++ pad now.minute ++
    pad now.second

def archiveSuffix : JsString := ofString ".tar.gz"

def archivePrefix (name : JsString) : JsString := ofString "flowhelm-" ++ name ++ ofString "-"

/-- `archiveName` of `createBackup`. -/
def archiveName (name : JsString) (now : WallTime) : JsString := archivePrefix name ++ formatTimestamp now ++ archiveSuffix

/-! ## listBackups -/

/-- What `new Date(year, month, day, hour, min, sec)` is called with; the months count from 0. -/
structure DateFields where
  year : Int
  month : Int
  day : Int
  hour : Int
  min : Int
  sec : Int

/-- A date is `none` where it is an invalid Date. -/
structure BackupEntry where
  filename : JsString
  path : JsString
  date : Option DateFields
  sizeBytes : Nat

def parseDate (pre entry : JsString) : Option DateFields :=
  let timestampStr := (entry.drop pre.length).take ((entry.drop pre.length).length - archiveSuffix.length)
  let part start stop := parseInt ((timestampStr.take stop).drop start)
  do
    let year ← part 0 4
    let month ← part 4 6
    let day ← part 6 8
    let hour ← part 9 11
    let min ← part 11 13
    let sec ← part 13 15
    return ⟨year, month - 1, day, hour, min, sec⟩

/-- The backup directory: what is in it, and the size of a file, where `stat` gives one. -/
structure BackupDir where
  path : JsString
  files : List JsString
  size : JsString → Option Nat

def readEntries (dir : BackupDir) (pre : JsString) : List BackupEntry :=
  (dir.files.filter fun entry => pre.isPrefixOf entry && archiveSuffix.isSuffixOf entry).filterMap fun entry =>
    (dir.size entry).map fun sizeBytes => ⟨entry, PosixPath.join dir.path entry, parseDate pre entry, sizeBytes⟩

/-- `none` is the RangeError of `toISOString` on an invalid Date, after the sort. `getTime` is
    that of the host's time zone. -/
def listBackups (getTime : DateFields → Int) (dir : Option BackupDir) (name : JsString) : Option (List BackupEntry) :=
  match dir with
  | none => some []
  | some dir =>
    let backups := (readEntries dir (archivePrefix name)).insertionSort
      fun a b => (b.date.map getTime).getD 0 ≤ (a.date.map getTime).getD 0
    if backups.all fun b => b.date.isSome then some backups else none

/-! ## What is listed -/

/-- A file of the directory that is listed for a user. -/
structure Listed (dir : BackupDir) (name file : JsString) : Prop where
  present : file ∈ dir.files
  begins : archivePrefix name <+: file
  ends : archiveSuffix <:+ file
  stat : dir.size file ≠ none

theorem mem_readEntries {dir : BackupDir} {name file : JsString} :
    (∃ b ∈ readEntries dir (archivePrefix name), b.filename = file) ↔ Listed dir name file := by
  simp only [readEntries, List.mem_filterMap, List.mem_filter, Bool.and_eq_true, List.isPrefixOf_iff_prefix,
    List.isSuffixOf_iff_suffix, Option.map_eq_some_iff]
  constructor
  · rintro ⟨b, ⟨entry, ⟨hpresent, hbegins, hends⟩, size, hsize, rfl⟩, rfl⟩
    exact ⟨hpresent, hbegins, hends, Option.ne_none_iff_exists'.mpr ⟨size, hsize⟩⟩
  · rintro ⟨hpresent, hbegins, hends, hstat⟩
    obtain ⟨size, hsize⟩ := Option.ne_none_iff_exists'.mp hstat
    exact ⟨_, ⟨file, ⟨hpresent, hbegins, hends⟩, size, hsize, rfl⟩, rfl⟩

theorem date_of_mem {dir : BackupDir} {pre : JsString} {b : BackupEntry} (h : b ∈ readEntries dir pre) :
    b.date = parseDate pre b.filename := by
  simp only [readEntries, List.mem_filterMap, Option.map_eq_some_iff] at h
  obtain ⟨entry, -, size, -, rfl⟩ := h
  rfl

/-- Some file listed for the user has no date in its name. -/
def Undated (dir : BackupDir) (name : JsString) : Prop :=
  ∃ file, Listed dir name file ∧ parseDate (archivePrefix name) file = none

theorem listBackups_spec (getTime : DateFields → Int) (dir : BackupDir) (name : JsString) :
    (Undated dir name ∧ listBackups getTime (some dir) name = none) ∨
      (¬Undated dir name ∧ ∃ bs, listBackups getTime (some dir) name = some bs ∧
        ∀ file, (∃ b ∈ bs, b.filename = file) ↔ Listed dir name file) := by
  have hperm := List.perm_insertionSort (fun a b : BackupEntry => (b.date.map getTime).getD 0 ≤ (a.date.map getTime).getD 0)
    (readEntries dir (archivePrefix name))
  by_cases hundated : Undated dir name
  · obtain ⟨file, hfile, hdate⟩ := hundated
    obtain ⟨b, hb, rfl⟩ := mem_readEntries.mpr hfile
    refine .inl ⟨⟨_, hfile, hdate⟩, if_neg fun hall => ?_⟩
    have hsome := List.all_eq_true.mp hall b (hperm.mem_iff.mpr hb)
    rw [date_of_mem hb, hdate] at hsome
    cases hsome
  · refine .inr ⟨hundated, _, if_pos (List.all_eq_true.mpr fun b hb => ?_), fun file => ?_⟩
    · rw [hperm.mem_iff] at hb
      rw [date_of_mem hb, Option.isSome_iff_ne_none]
      exact fun hdate => hundated ⟨_, mem_readEntries.mp ⟨b, hb, rfl⟩, hdate⟩
    · simp only [hperm.mem_iff]
      exact mem_readEntries

end FlowHelm.Admin
