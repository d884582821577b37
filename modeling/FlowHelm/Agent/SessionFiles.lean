/-
  FlowHelm.Agent.SessionFiles — how session files leave a container and come back: what
  readSessionFilesFromContainer (warm-container-runtime.ts) makes of `find` and `cat`, and
  what restoreToFilesystem (session-manager.ts) writes.

  The agent names the files. `find` prints their paths as they are, a line end in a name
  included, and the listing is read by lines: a line need not be the path of a file.

  - `restored_inside`: what is restored stays in its directory just if each line listed,
    without its first 23 units, does.
  - `a_line_end_in_a_name_leads_out`: a directory whose name goes on in a second line.
-/
import Mathlib.Data.List.TakeWhile
import FlowHelm.Agent.Sessions
import FlowHelm.Lib.JsText
import FlowHelm.Lib.PosixPath
import FlowHelm.Lib.Utf8

namespace FlowHelm.Agent.SessionFiles

open Js PosixPath Sessions

/-! ## Reading -/

def claudeDir : JsString := ofString "/home/flowhelm/.claude"

def projectsDir : JsString := claudeDir ++ ofString "/projects"

def configKey : JsString := ofString "__claude.json"

def trimUnits (s : JsString) : JsString :=
  let white (u : UInt16) : Bool := isWhite (Char.ofNat u.toNat)
  ((s.dropWhile white).reverse.dropWhile white).reverse

/-- `stdout.trim().split('\n').filter(Boolean)`. -/
def lines (stdout : JsString) : List JsString := ((trimUnits stdout).splitOn 0x0A).filter (· != [])

def relativePath (absPath : JsString) : JsString := absPath.drop (claudeDir.length + 1)

/-- The lines that are not skipped. -/
def toRead (stdout : JsString) : List JsString := (lines stdout).filter (relativePath · != [])

/-- `files[key] = value`; the setter of `__proto__` takes no string. -/
def assign (files : SessionFiles) (key value : JsString) : SessionFiles :=
  if key = ofString "__proto__" then files
  else if files.any (·.1 == key) then files.map fun f => if f.1 = key then (key, value) else f
  else files ++ [(key, value)]

/-- After a `cat`, which may be rejected. -/
def addFile (files : SessionFiles) (absPath : JsString) : Option JsString → SessionFiles
  | some stdout => assign files (relativePath absPath) stdout
  | none => files

def addConfig (files : SessionFiles) : Option JsString → SessionFiles
  | some stdout => if trimUnits stdout = [] then files else assign files configKey stdout
  | none => files

/-- `stdout` is what `find projectsDir -type f` printed, `cat` what each file read as. -/
def readSessionFilesFromContainer (stdout : JsString) (cat : JsString → Option JsString) : SessionFiles :=
  let sessionFiles := (toRead stdout).foldl (fun files absPath => addFile files absPath (cat absPath)) []
  addConfig sessionFiles (cat (ofString "/home/flowhelm/.claude.json"))

/-! ## Restoring -/

/-- The session (`none` when `mkdir` or `writeFile` rejected) and what was written, for a file
    system on which the paths of `ok` can be written. -/
def restoreToFilesystem (t : Table) (now : Nat) (chatId : String) (targetDir : JsString) (ok : JsString → Bool) :
    Option (Option AgentSession) × List (JsString × JsString) :=
  match getActiveSession t now chatId with
  | none => (some none, [])
  | some session =>
    let writes := session.sessionFiles.map fun f : JsString × JsString => (PosixPath.join targetDir f.1, f.2)
    (if writes.all (ok ·.1) then some (some session) else none, writes.takeWhile (ok ·.1))

/-- What PostgreSQL takes in a JSON text: no zero, and surrogates in pairs. -/
def wellFormed : JsString → Bool
  | [] => true
  | [u] => u != 0 && !isHighSurrogate u && !isLowSurrogate u
  | u :: v :: rest =>
    if isHighSurrogate u then isLowSurrogate v && wellFormed rest
    else u != 0 && !isLowSurrogate u && wellFormed (v :: rest)

def storable (files : SessionFiles) : Bool := files.all fun f => wellFormed f.1 && wellFormed f.2

/-! ## The directory -/

/-- A file name as POSIX has it. -/
structure Name where
  bytes : List UInt8
  nonempty : bytes ≠ []
  plain : 0 ∉ bytes ∧ 0x2F ∉ bytes
  notDots : bytes ≠ [0x2E] ∧ bytes ≠ [0x2E, 0x2E]

/-- The files below `projects`, each by the names on its way. -/
abbrev Content := List (List Name)

/-- What `find` prints. -/
def listing (content : Content) : List UInt8 := content.flatMap fun names =>
  Utf8.encode "/home/flowhelm/.claude/projects".toList ++ names.flatMap (fun name => 0x2F :: name.bytes) ++ [0x0A]

/-- What `exec` makes of it: text, and no more than `limit` units of it. -/
def findStdout (content : Content) (limit : Nat) : JsString := ((Utf8.decode (listing content)).flatMap utf16).take limit

/-- A snapshot of the listing, stored and restored, is written into the target directory. -/
def Confined (stdout : JsString) : Prop :=
  ∀ (cat : JsString → Option JsString) (config : SessionConfig) (t : Table) (saved now : Nat) (chatId sessionId : String)
    (options : SaveOptions) (targetDir : JsString) (ok : JsString → Bool), targetDir ≠ [] →
    storable (readSessionFilesFromContainer stdout cat) = true →
    ∀ w ∈ (restoreToFilesystem (saveSession config t saved chatId sessionId (readSessionFilesFromContainer stdout cat) options)
      now chatId targetDir ok).2, Inside w.1 targetDir

/-! ## What a snapshot holds -/

theorem mem_assign {files : SessionFiles} {key value : JsString} {f : JsString × JsString} (h : f ∈ assign files key value) :
    f = (key, value) ∨ f ∈ files := by
  unfold assign at h
  split at h
  · exact .inr h
  · split at h
    · obtain ⟨g, hg, rfl⟩ := List.mem_map.mp h
      split
      · exact .inl rfl
      · exact .inr hg
    · rcases List.mem_append.mp h with h | h
      · exact .inr h
      · exact .inl (List.mem_singleton.mp h)

theorem assign_key (files : SessionFiles) {key : JsString} (value : JsString) (h : key ≠ ofString "__proto__") :
    ∃ f ∈ assign files key value, f.1 = key := by
  unfold assign
  rw [if_neg h]
  split
  · rename_i hany
    obtain ⟨g, hg, hkey⟩ := List.any_eq_true.mp hany
    refine ⟨(key, value), List.mem_map.mpr ⟨g, hg, ?_⟩, rfl⟩
    exact if_pos (beq_iff_eq.mp hkey)
  · exact ⟨(key, value), List.mem_append_right _ (List.mem_singleton_self _), rfl⟩

theorem assign_keeps {files : SessionFiles} {f : JsString × JsString} (key value : JsString) (h : f ∈ files) :
    ∃ g ∈ assign files key value, g.1 = f.1 := by
  unfold assign
  split
  · exact ⟨f, h, rfl⟩
  · split
    · refine ⟨_, List.mem_map.mpr ⟨f, h, rfl⟩, ?_⟩
      split
      · rename_i hkey
        exact hkey.symm
      · rfl
    · exact ⟨f, List.mem_append_left _ h, rfl⟩

/-- The files read so far, after those of `paths`. -/
def addFiles (cat : JsString → Option JsString) (files : SessionFiles) (paths : List JsString) : SessionFiles :=
  paths.foldl (fun files absPath => addFile files absPath (cat absPath)) files

theorem addFiles_cons (cat : JsString → Option JsString) (files : SessionFiles) (absPath : JsString) (paths : List JsString) :
    addFiles cat files (absPath :: paths) = addFiles cat (addFile files absPath (cat absPath)) paths := rfl

theorem mem_addFiles {cat : JsString → Option JsString} {paths : List JsString} {files : SessionFiles} {f : JsString × JsString}
    (h : f ∈ addFiles cat files paths) :
    f ∈ files ∨ ∃ absPath ∈ paths, f.1 = relativePath absPath ∧ cat absPath = some f.2 := by
  induction paths generalizing files with
  | nil => exact .inl h
  | cons absPath paths ih =>
    rw [addFiles_cons] at h
    rcases ih h with h | ⟨p, hp, hrest⟩
    · cases hcat : cat absPath with
      | none =>
        rw [hcat] at h
        exact .inl h
      | some stdout =>
        rw [hcat] at h
        rcases mem_assign h with rfl | h
        · exact .inr ⟨absPath, List.mem_cons_self .., rfl, hcat⟩
        · exact .inl h
    · exact .inr ⟨p, List.mem_cons_of_mem _ hp, hrest⟩

theorem addFiles_keeps {cat : JsString → Option JsString} {paths : List JsString} {files : SessionFiles}
    {f : JsString × JsString} (h : f ∈ files) : ∃ g ∈ addFiles cat files paths, g.1 = f.1 := by
  induction paths generalizing files f with
  | nil => exact ⟨f, h, rfl⟩
  | cons absPath paths ih =>
    rw [addFiles_cons]
    cases hcat : cat absPath with
    | none => exact ih h
    | some stdout =>
      obtain ⟨g, hg, hkey⟩ := assign_keeps (relativePath absPath) stdout h
      obtain ⟨g', hg', hkey'⟩ := ih hg
      exact ⟨g', hg', hkey'.trans hkey⟩

theorem addFiles_key {cat : JsString → Option JsString} {paths : List JsString} (files : SessionFiles)
    {absPath stdout : JsString} (h : absPath ∈ paths) (hcat : cat absPath = some stdout)
    (hproto : relativePath absPath ≠ ofString "__proto__") :
    ∃ f ∈ addFiles cat files paths, f.1 = relativePath absPath := by
  induction paths generalizing files with
  | nil => cases h
  | cons p paths ih =>
    rw [addFiles_cons]
    rcases List.mem_cons.mp h with rfl | h
    · obtain ⟨f, hf, hkey⟩ := assign_key files stdout hproto
      rw [hcat]
      obtain ⟨g, hg, hkey'⟩ := addFiles_keeps hf
      exact ⟨g, hg, hkey'.trans hkey⟩
    · exact ih _ h

theorem mem_snapshot {stdout : JsString} {cat : JsString → Option JsString} {f : JsString × JsString}
    (h : f ∈ readSessionFilesFromContainer stdout cat) :
    (f.1 = configKey ∧ ∃ p, cat p = some f.2) ∨ ∃ absPath ∈ toRead stdout, f.1 = relativePath absPath ∧
    cat absPath = some f.2 := by
  have hfiles : f ∈ addFiles cat [] (toRead stdout) →
      ∃ absPath ∈ toRead stdout, f.1 = relativePath absPath ∧ cat absPath = some f.2 := by
    intro hf
    rcases mem_addFiles hf with hf | hf
    · cases hf
    · exact hf
  unfold readSessionFilesFromContainer addConfig at h
  split at h
  · rename_i config hconfig
    split at h
    · exact .inr (hfiles h)
    · rcases mem_assign h with rfl | h
      · exact .inl ⟨rfl, _, hconfig⟩
      · exact .inr (hfiles h)
  · exact .inr (hfiles h)

/-! ## Where it is written -/

theorem stays_configKey : stays configKey = true := by decide

/-- What a fresh session is restored as. -/
theorem restored_write {config : SessionConfig} {t : Table} {saved now : Nat} {chatId sessionId : String} {files : SessionFiles}
    {options : SaveOptions} {targetDir : JsString} {ok : JsString → Bool} {w : JsString × JsString}
    (h : w ∈ (restoreToFilesystem (saveSession config t saved chatId sessionId files options) now chatId targetDir ok).2) :
    ∃ f ∈ files, w = (PosixPath.join targetDir f.1, f.2) := by
  unfold restoreToFilesystem at h
  split at h
  · cases h
  · rename_i session hsession
    have hrow := (getActive_some hsession).1
    unfold saveSession at hrow
    rw [AList.lookup_insert] at hrow
    obtain rfl := Option.some.inj hrow
    obtain ⟨f, hf, rfl⟩ := List.mem_map.mp ((List.takeWhile_sublist _).subset h)
    exact ⟨f, hf, rfl⟩

theorem write_restored (config : SessionConfig) (t : Table) (now : Nat) (chatId sessionId : String) {files : SessionFiles}
    (options : SaveOptions) (targetDir : JsString) {f : JsString × JsString} (hf : f ∈ files) :
    (PosixPath.join targetDir f.1, f.2) ∈
      (restoreToFilesystem (saveSession config t now chatId sessionId files options) now chatId targetDir fun _ => true).2 := by
  have hactive : ∃ row, getActiveSession (saveSession config t now chatId sessionId files options) now chatId = some row ∧
      row.sessionFiles = files := by
    unfold getActiveSession saveSession
    rw [AList.lookup_insert]
    refine ⟨_, Option.filter_eq_some_iff.mpr ⟨rfl, decide_eq_true ?_⟩, rfl⟩
    have hexpiry := config.atLeast
    show now < now + config.sessionHardExpiry
    omega
  obtain ⟨row, hrow, hfiles⟩ := hactive
  unfold restoreToFilesystem
  rw [hrow]
  dsimp only
  rw [List.takeWhile_eq_self_iff.mpr fun _ _ => rfl]
  exact List.mem_map.mpr ⟨f, hfiles ▸ hf, rfl⟩

theorem stays_proto : stays (ofString "__proto__") = true := by decide

theorem inside_of_stays {stdout : JsString}
    (h : ∀ p ∈ toRead stdout, wellFormed (relativePath p) = true → stays (relativePath p) = true) : Confined stdout := by
  intro cat config t saved now chatId sessionId options targetDir ok hdir hstorable w hw
  obtain ⟨f, hf, rfl⟩ := restored_write hw
  refine inside_join hdir ?_
  rcases mem_snapshot hf with ⟨hkey, -⟩ | ⟨p, hp, hkey, -⟩
  · rw [hkey]
    exact stays_configKey
  · have hwell := List.all_eq_true.mp hstorable f hf
    rw [hkey] at hwell ⊢
    exact h p hp ((Bool.and_eq_true ..).mp hwell).1

/-- A container in which `p` can be read, as an empty file, and nothing else. -/
def onlyEmpty (p : JsString) : JsString → Option JsString := fun q => if q = p then some [] else none

theorem snapshot_onlyEmpty {stdout p : JsString} (hp : p ∈ toRead stdout) (hproto : relativePath p ≠ ofString "__proto__") :
    ∃ f ∈ readSessionFilesFromContainer stdout (onlyEmpty p), f.1 = relativePath p := by
  have hconfig : ∀ files, addConfig files (onlyEmpty p (ofString "/home/flowhelm/.claude.json")) = files := by
    intro files
    unfold onlyEmpty
    split
    · rfl
    · rfl
  have hcat : onlyEmpty p p = some [] := if_pos rfl
  obtain ⟨f, hf, hkey⟩ := addFiles_key [] hp hcat hproto
  refine ⟨f, ?_, hkey⟩
  unfold readSessionFilesFromContainer
  rw [hconfig]
  exact hf

theorem storable_onlyEmpty {stdout p : JsString} (hp : wellFormed (relativePath p) = true) :
    storable (readSessionFilesFromContainer stdout (onlyEmpty p)) = true := by
  have hempty : ∀ q value, onlyEmpty p q = some value → q = p ∧ value = [] := by
    intro q value h
    unfold onlyEmpty at h
    split at h
    · exact ⟨‹_›, (Option.some.inj h).symm⟩
    · cases h
  refine List.all_eq_true.mpr fun f hf => (Bool.and_eq_true ..).mpr ?_
  rcases mem_snapshot hf with ⟨hkey, q, hcat⟩ | ⟨q, -, hkey, hcat⟩
  · rw [hkey, (hempty q _ hcat).2]
    exact ⟨by decide, rfl⟩
  · obtain ⟨rfl, hvalue⟩ := hempty q _ hcat
    rw [hkey, hvalue]
    exact ⟨hp, rfl⟩

theorem stays_of_inside {stdout p : JsString} (h : Confined stdout) (hp : p ∈ toRead stdout)
    (hwell : wellFormed (relativePath p) = true) : stays (relativePath p) = true := by
  by_cases hproto : relativePath p = ofString "__proto__"
  · rw [hproto]
    exact stays_proto
  by_contra hstays
  obtain ⟨f, hf, hkey⟩ := snapshot_onlyEmpty hp hproto
  have hwrite := write_restored ⟨0, 60000, le_refl _⟩ ∅ 0 "" "" ⟨none, none⟩ (slash :: otherName f.1) hf
  have hinside := h _ _ _ _ _ _ _ _ _ _ (List.cons_ne_nil _ _) (storable_onlyEmpty hwell) _ hwrite
  rw [← hkey] at hstays
  exact not_inside_join hstays hinside

/-- What is restored stays in its directory just if every line that can be stored does. -/
theorem restored_inside (content : Content) (limit : Nat) :
    Confined (findStdout content limit) ↔ ∀ absPath ∈ toRead (findStdout content limit),
      wellFormed (relativePath absPath) = true → stays (relativePath absPath) = true :=
  ⟨fun h _ hp hwell => stays_of_inside h hp hwell, inside_of_stays⟩

/-- A directory in `projects` whose name goes on in a second line, and a file in it. -/
def twoLines : Content :=
  [[⟨Utf8.encode "x\naaaaaaaaaaaaaaaaaaaaaaa..".toList, by decide, by decide, by decide⟩,
    ⟨Utf8.encode "evil".toList, by decide, by decide, by decide⟩]]

theorem a_line_end_in_a_name_leads_out : ¬Confined (findStdout twoLines 10485760) := by
  have hlisted : ofString "aaaaaaaaaaaaaaaaaaaaaaa../evil" ∈ toRead (findStdout twoLines 10485760) := by decide
  have hwell : wellFormed (relativePath (ofString "aaaaaaaaaaaaaaaaaaaaaaa../evil")) = true := by decide
  have hstays : stays (relativePath (ofString "aaaaaaaaaaaaaaaaaaaaaaa../evil")) = false := by decide
  intro h
  rw [stays_of_inside h hlisted hwell] at hstays
  cases hstays

end FlowHelm.Agent.SessionFiles
