/-
  FlowHelm.Service.Transcription — stt-provider.ts: voice messages transcribed with whisper.cpp,
  any number at a time.

  A file that is no WAV is converted by ffmpeg into one beside those of the other calls, under
  its own name without the extension. ffmpeg opens what it writes at once and writes it piece by
  piece; whisper.cpp reads what it is given at one moment. Either can fail at any time, as when it
  takes too long.

  - `parseWhisperOutput_tidy`: what a transcription looks like.
  - `undisturbed`: while no two calls write one file, whisper.cpp is given the call's own audio,
    all of it, and never finds it missing.
  - `nothing_left_iff`: then no file outlives its call just until ffmpeg fails with its file open or
    a file cannot be removed.
-/
import FlowHelm.Lib.JsCase
import FlowHelm.Lib.JsWords
import FlowHelm.Lib.Parties
import FlowHelm.Lib.Regex
import FlowHelm.Lib.Runs
import FlowHelm.Lib.SharedFile

namespace FlowHelm.Service.Transcription

open Js Parties Regex Runs

abbrev Bytes := List UInt8

/-! ## Names -/

def slash : UInt16 := 0x2F

def dot : UInt16 := 0x2E

/-- `basename(path)`. -/
def basename (path : JsString) : JsString := ((path.splitOn slash).filter (· ≠ [])).getLast?.getD []

/-- `extname(path)`: from the last dot of the name on, if it is not its first unit. -/
def extname (path : JsString) : JsString :=
  let name := basename path
  let ext := (name.reverse.takeWhile (· ≠ dot)).reverse
  if name.length ≤ ext.length + 1 ∨ name = [dot, dot] then [] else dot :: ext

/-- NATIVE_FORMATS. -/
def nativeFormats : List JsString := [ofString ".wav"]

def isNative (m : CaseMapping) (path : JsString) : Bool := m.toLowerCase (extname path) ∈ nativeFormats

/-- The name in the directory of temporary files. -/
def wavPath (path : JsString) : JsString :=
  (basename path).take ((basename path).length - (extname path).length) ++ ofString "_converted.wav"

example : ["/downloads/a.b.ogg", "x.WAV", ".ogg", "a.", "..", "/v/"].map (extname <| ofString ·) =
    [".ogg", ".WAV", "", ".", "", ""].map ofString := by decide

/-! ## What was said -/

/-- `.`. -/
def anyUnit (u : UInt16) : Bool := !(u == 0x0A || u == 0x0D || u == 0x2028 || u == 0x2029)

/-- `[\d:.]`. -/
def isTime (u : UInt16) : Bool := (0x30 ≤ u && u ≤ 0x39) || u == 0x3A || u == dot

def timestamp : Pattern UInt16 := .seq (.one isTime) (.many true isTime)

/-- The units of `text` one after the other. -/
def literally (text : JsString) (r : Pattern UInt16) : Pattern UInt16 := text.foldr (fun u r => .seq (.one (· == u)) r) r

/-- `\[[\d:.]+\s*-->\s*[\d:.]+\]\s*(.*)$`. -/
def timestamped : Pattern UInt16 :=
  literally (ofString "[") (.seq timestamp (.seq (.many true isWhiteUnit)
    (literally (ofString "-->") (.seq (.many true isWhiteUnit)
    (.seq timestamp (literally (ofString "]") (.seq (.many true isWhiteUnit) (.seq (.group 1 (.many true anyUnit)) .ending))))))))

/-- A line without its timestamp; `none` where nothing is left. -/
def lineText (line : JsString) : Option JsString :=
  let trimmed := trimEnds line
  let text := match run timestamped (fun _ => none) trimmed fun c s => some (c, s) with
    | some (c, _) => trimEnds ((c 1).getD [])
    | none => trimmed
  if text = [] then none else some text

/-- `join(' ').replace(/\s+/g, ' ').trim()`: the words, with one blank between them. -/
def parseWhisperOutput (stdout : JsString) : JsString :=
  join [gap] (tokenize (join [gap] ((stdout.splitOn 0x0A).filterMap lineText)))

example : parseWhisperOutput (ofString "\n[00:00:00.000 --> 00:00:02.000]   Buy  milk \n[00:02 --> 00:03]\n and eggs.\n") =
    ofString "Buy milk and eggs." := by decide +kernel

/-- WHISPER_HALLUCINATIONS. -/
def whisperHallucinations : List JsString := [
  "thank you.", "thank you", "thanks for watching.", "thanks for watching", "subscribe to my channel.", "subscribe to my channel",
  "like and subscribe.", "like and subscribe", "please subscribe.", "please subscribe", "thank you for watching.",
  "thank you for watching", "bye.", "bye", "you", "the end.", "the end", "продолжение следует", "продолжение следует...",
  "sous-titres", "sous-titres réalisés par la communauté d'amara.org", "sottotitoli creati dalla comunità amara.org",
  "untertitel von stephanie geiges", "amara.org", "www.mooji.org", "ご視聴ありがとうございました"].map ofString

/-- The words of HALLUCINATION_REPEAT_RE. -/
def stockPhrases : List JsString := ["thank you", "thanks", "bye", "you", "ok", "okay", "the end"].map ofString

/-- `[.,!\s]`. -/
def isPause (u : UInt16) : Bool := u == dot || u == 0x2C || u == 0x21 || isWhiteUnit u

/-- HALLUCINATION_REPEAT_RE from here on, of so many parts at most. -/
def repeats : Nat → JsString → Bool
  | _, [] => true
  | 0, _ => false
  | n + 1, u :: s => (isPause u && repeats n s) ||
    stockPhrases.any fun phrase => phrase.isPrefixOf (u :: s) && repeats n ((u :: s).drop phrase.length)

def isWhisperHallucination (m : CaseMapping) (transcript : JsString) : Bool :=
  let cleaned := m.toLowerCase (trimEnds transcript)
  let unmarked := (cleaned.reverse.dropWhile fun u => u == dot || u == 0x21).reverse
  cleaned = [] || cleaned ∈ whisperHallucinations || unmarked ∈ whisperHallucinations || repeats cleaned.length cleaned

example : ["Thank you!", "OK, okay. Bye...", "Thank you, Anna."].map (isWhisperHallucination .asciiOnly <| ofString ·) =
    [true, true, false] := by decide +kernel

/-- A result of whisper.cpp; the provider's name and the duration are left out. -/
structure SttResult where
  text : JsString
  language : JsString
  deriving DecidableEq

inductive Failure where
  /-- There is no such file. -/
  | stat
  /-- "whisper.cpp binary not found in PATH" -/
  | binary
  | ffmpeg
  /-- What whisper.cpp is given is not there. -/
  | input
  | whisper
  /-- "whisper.cpp returned empty transcription. stderr: " and its first 500 units. -/
  | empty (stderr : JsString)
  deriving DecidableEq

abbrev Outcome := Except Failure SttResult

def answered (m : CaseMapping) (language stdout stderr : JsString) : Outcome :=
  let text := parseWhisperOutput stdout
  if text = [] then .error (.empty (stderr.take 500))
  else if isWhisperHallucination m text then .ok ⟨[], language⟩ else .ok ⟨text, language⟩

/-! ## Calls -/

inductive Phase where
  | stat
  | binary
  /-- ffmpeg is started, its output not open yet. -/
  | ffmpeg
  | writing (file : Nat) (written left : Bytes)
  /-- whisper.cpp is started. -/
  | input
  | whisper
  | unlink (outcome : Outcome)
  | ended (outcome : Outcome)
  deriving DecidableEq

structure Call where
  audioPath : JsString
  language : JsString
  phase : Phase
  /-- What whisper.cpp was given, kept by the model. -/
  heard : Option Bytes
  deriving DecidableEq

structure St where
  /-- The audio files that there ever were: their names are new each time. -/
  saved : List (JsString × Bytes)
  deleted : List JsString
  /-- The temporary files by their names, each with a number of its own. -/
  tmp : JsString → Option (Nat × Bytes)
  files : Nat
  calls : List Call

def St.audio (s : St) (path : JsString) : Option Bytes :=
  if path ∈ s.deleted then none else (s.saved.find? (·.1 = path)).map (·.2)

inductive Ev where
  | saved (path : JsString) (audio : Bytes)
  | deleted (path : JsString)
  | transcribe (audioPath : JsString) (language : Option JsString)
  | stat (i : Nat)
  | binary (i : Nat) (found : Bool)
  /-- ffmpeg reads its input and opens its output. -/
  | opened (i : Nat)
  | wrote (i more : Nat)
  | exited (i : Nat) (ok : Bool)
  | loaded (i : Nat)
  /-- What whisper.cpp prints, if it does not fail. -/
  | printed (i : Nat) (output : Option (JsString × JsString))
  | unlinked (i : Nat) (ok : Bool)

/-- What the calls are made of: ffmpeg's output for an audio file it can read, and the options. -/
structure Provider where
  toWav : Bytes → Option Bytes
  lower : CaseMapping
  defaultLanguage : JsString

variable (P : Provider)

def Call.native (c : Call) : Bool := isNative P.lower c.audioPath

/-- Behind whisper.cpp: `finally`. -/
def Call.settle (c : Call) (outcome : Outcome) : Call :=
  { c with phase := if c.native P then .ended outcome else .unlink outcome }

def St.put (s : St) (i : Nat) (c : Call) : St := { s with calls := s.calls.set i c }

/-- Opening empties a file that is there, or makes one. -/
def St.open (s : St) (name : JsString) : Nat × St := match s.tmp name with
  | some (file, _) => (file, { s with tmp := Function.update s.tmp name (some (file, [])) })
  | none => (s.files, { s with tmp := Function.update s.tmp name (some (s.files, [])), files := s.files + 1 })

/-- Bytes go to the file that was opened, if it still has its name. -/
def St.write (s : St) (name : JsString) (file offset : Nat) (bytes : Bytes) : St := match s.tmp name with
  | some (other, content) =>
    if other = file then { s with tmp := Function.update s.tmp name (some (file, SharedFile.overwrite 0 offset bytes content)) }
      else s
  | none => s

def advance (s : St) (i : Nat) (c : Call) : Phase → Ev → Option St
  | .stat, .stat _ => some (s.put i { c with phase := if (s.audio c.audioPath).isSome then .binary else .ended (.error .stat) })
  | .binary, .binary _ found =>
    some (s.put i { c with phase := if !found then .ended (.error .binary) else if c.native P then .input else .ffmpeg })
  | .ffmpeg, .opened _ => ((s.audio c.audioPath).bind P.toWav).map fun wav =>
    let o := s.open (wavPath c.audioPath)
    o.2.put i { c with phase := .writing o.1 [] wav }
  | .ffmpeg, .exited _ false => some (s.put i { c with phase := .ended (.error .ffmpeg) })
  | .writing file written left, .wrote _ more =>
    some ((s.write (wavPath c.audioPath) file written.length (left.take (more + 1))).put i
      { c with phase := .writing file (written ++ left.take (more + 1)) (left.drop (more + 1)) })
  | .writing _ _ [], .exited _ true => some (s.put i { c with phase := .input })
  | .writing _ _ _, .exited _ false => some (s.put i { c with phase := .ended (.error .ffmpeg) })
  | .input, .loaded _ =>
    match if c.native P then s.audio c.audioPath else (s.tmp (wavPath c.audioPath)).map (·.2) with
    | some bytes => some (s.put i { c with phase := .whisper, heard := some bytes })
    | none => some (s.put i (c.settle P (.error .input)))
  | .whisper, .printed _ output => some (s.put i (c.settle P (match output with
    | some (stdout, stderr) => answered P.lower c.language stdout stderr
    | none => .error .whisper)))
  | .unlink outcome, .unlinked _ ok =>
    some ({ s with tmp := if ok then Function.update s.tmp (wavPath c.audioPath) none else s.tmp }.put i
      { c with phase := .ended outcome })
  | _, _ => none

/-- The call that an event is about. -/
def Ev.call? : Ev → Option Nat
  | .saved _ _ | .deleted _ | .transcribe _ _ => none
  | .stat i | .binary i _ | .opened i | .wrote i _ | .exited i _ | .loaded i | .printed i _ | .unlinked i _ => some i

def step (s : St) (e : Ev) : Option St := match e with
  | .saved path audio => if s.saved.any (·.1 = path) then none else some { s with saved := s.saved ++ [(path, audio)] }
  | .deleted path => some { s with deleted := path :: s.deleted }
  | .transcribe audioPath language =>
    some { s with calls := s.calls ++ [⟨audioPath, language.getD P.defaultLanguage, .stat, none⟩] }
  | e => e.call?.bind fun i => (s.calls[i]?).bind fun c => advance P s i c c.phase e

def transcriber : System St Ev := ⟨⟨[], [], fun _ => none, 0, []⟩, step P⟩

/-! ## What an event does -/

/-- It has a temporary file from when ffmpeg opens it until it is removed. -/
def Phase.holds : Phase → Bool
  | .writing _ _ _ | .input | .whisper | .unlink _ => true
  | .stat | .binary | .ffmpeg | .ended _ => false

def Phase.outcome? : Phase → Option Outcome
  | .unlink outcome | .ended outcome => some outcome
  | _ => none

def Call.holds (c : Call) : Bool := !c.native P && c.phase.holds

/-- Where a call goes before ffmpeg has opened anything, or without ffmpeg. -/
def Call.Early (c : Call) (phase : Phase) : Prop :=
  phase = .binary ∨ (phase = .ffmpeg ∧ c.native P = false) ∨ (phase = .input ∧ c.native P = true) ∨
    ∃ failure, phase = .ended (.error failure) ∧ failure ≠ .input

/-- What a call becomes of an event, and the temporary files behind it. -/
inductive Turn (s : St) (c : Call) : Ev → Call → (JsString → Option (Nat × Bytes)) → Nat → Prop
  | early {e phase} (hbefore : c.phase.holds = false ∧ c.phase.outcome? = none) (hphase : c.Early P phase)
      (hopen : ∀ i, e ≠ .opened i) (hclean : ∀ i, e ≠ .unlinked i false) : Turn s c e { c with phase } s.tmp s.files
  | opened {i audio wav} (hphase : c.phase = .ffmpeg) (haudio : (c.audioPath, audio) ∈ s.saved)
    (hwav : P.toWav audio = some wav) :
      Turn s c (.opened i) { c with phase := .writing (s.open (wavPath c.audioPath)).1 [] wav }
        (s.open (wavPath c.audioPath)).2.tmp
        (s.open (wavPath c.audioPath)).2.files
  | wrote {i more file written left} (hphase : c.phase = .writing file written left) :
      Turn s c (.wrote i more) { c with phase := .writing file (written ++ left.take (more + 1)) (left.drop (more + 1)) }
        (s.write (wavPath c.audioPath) file written.length (left.take (more + 1))).tmp s.files
  | converted {i file written} (hphase : c.phase = .writing file written []) :
      Turn s c (.exited i true) { c with phase := .input } s.tmp s.files
  | broken {i file written left} (hphase : c.phase = .writing file written left) :
      Turn s c (.exited i false) { c with phase := .ended (.error .ffmpeg) } s.tmp s.files
  | loaded {i bytes} (hphase : c.phase = .input)
      (hbytes : if c.native P then (c.audioPath, bytes) ∈ s.saved else ∃ file, s.tmp (wavPath c.audioPath) = some (file, bytes)) :
      Turn s c (.loaded i) { c with phase := .whisper, heard := some bytes } s.tmp s.files
  | missing {i} (hphase : c.phase = .input) (hnone : c.native P = false → s.tmp (wavPath c.audioPath) = none) :
      Turn s c (.loaded i) (c.settle P (.error .input)) s.tmp s.files
  | printed {i output outcome} (hphase : c.phase = .whisper)
      (houtcome : outcome = .error .whisper ∨ ∃ stdout stderr, outcome = answered P.lower c.language stdout stderr) :
      Turn s c (.printed i output) (c.settle P outcome) s.tmp s.files
  | unlinked {i ok outcome} (hphase : c.phase = .unlink outcome) :
      Turn s c (.unlinked i ok) { c with phase := .ended outcome }
        (if ok then Function.update s.tmp (wavPath c.audioPath) none else s.tmp) s.files

variable {P}

theorem audio_saved {s : St} {path : JsString} {audio : Bytes} (h : s.audio path = some audio) : (path, audio) ∈ s.saved := by
  unfold St.audio at h
  split at h
  · cases h
  · obtain ⟨x, hx, rfl⟩ := Option.map_eq_some_iff.mp h
    have hpath := List.find?_some hx
    have hmem := List.mem_of_find?_eq_some hx
    rw [decide_eq_true_iff] at hpath
    rwa [← hpath]

theorem open_calls (s : St) (name : JsString) :
    (s.open name).2 = { s with tmp := (s.open name).2.tmp, files := (s.open name).2.files } := by
  unfold St.open
  split <;> rfl

theorem write_calls (s : St) (name : JsString) (file offset : Nat) (bytes : Bytes) :
    s.write name file offset bytes = { s with tmp := (s.write name file offset bytes).tmp } := by
  unfold St.write
  split
  · split <;> rfl
  · rfl

/-- A turn before there is a file, of which nothing but the call's phase changes. -/
theorem turn_early {s t : St} {i : Nat} {c : Call} {e : Ev} {phase : Phase}
    (hbefore : c.phase.holds = false ∧ c.phase.outcome? = none)
    (hphase : c.Early P phase) (hopen : ∀ i, e ≠ .opened i) (hclean : ∀ i, e ≠ .unlinked i false)
    (ht : some (s.put i { c with phase }) = some t) :
    ∃ c' tmp files, Turn P s c e c' tmp files ∧ t = { s with tmp, files, calls := s.calls.set i c' } :=
  ⟨_, _, _, .early hbefore hphase hopen hclean, (Option.some.inj ht).symm⟩

theorem advance_turn {s t : St} {i : Nat} {c : Call} {e : Ev} (h : advance P s i c c.phase e = some t) :
    ∃ c' tmp files, Turn P s c e c' tmp files ∧ t = { s with tmp, files, calls := s.calls.set i c' } := by
  cases hphase : c.phase with
  | stat =>
    rw [hphase] at h
    cases e with
    | stat j =>
      refine turn_early (by rw [hphase]; exact ⟨rfl, rfl⟩) ?_ (fun _ he => by cases he) (fun _ he => by cases he) h
      split
      · exact .inl rfl
      · exact .inr (.inr (.inr ⟨_, rfl, by simp⟩))
    | _ => cases h
  | binary =>
    rw [hphase] at h
    cases e with
    | binary j found =>
      refine turn_early (by rw [hphase]; exact ⟨rfl, rfl⟩) ?_ (fun _ he => by cases he) (fun _ he => by cases he) h
      split
      · exact .inr (.inr (.inr ⟨_, rfl, by simp⟩))
      · split
        · rename_i hnative
          exact .inr (.inr (.inl ⟨rfl, hnative⟩))
        · rename_i hnative
          exact .inr (.inl ⟨rfl, by simpa using hnative⟩)
    | _ => cases h
  | ffmpeg =>
    rw [hphase] at h
    cases e with
    | opened j =>
      obtain ⟨wav, hwav, rfl⟩ := Option.map_eq_some_iff.mp h
      obtain ⟨audio, haudio, hwav⟩ := Option.bind_eq_some_iff.mp hwav
      refine ⟨_, _, _, .opened hphase (audio_saved haudio) hwav, ?_⟩
      dsimp only
      rw [open_calls]
      rfl
    | exited j ok =>
      cases ok with
      | false =>
        exact turn_early (by rw [hphase]; exact ⟨rfl, rfl⟩) (.inr (.inr (.inr ⟨_, rfl, by simp⟩))) (fun _ he => by cases he)
          (fun _ he => by cases he) h
      | true => cases h
    | _ => cases h
  | writing file written left =>
    rw [hphase] at h
    cases e with
    | wrote j more =>
      obtain rfl := Option.some.inj h
      refine ⟨_, _, _, .wrote hphase, ?_⟩
      rw [write_calls]
      rfl
    | exited j ok =>
      cases left with
      | nil =>
        cases ok with
        | true => exact ⟨_, _, _, .converted hphase, (Option.some.inj h).symm⟩
        | false => exact ⟨_, _, _, .broken hphase, (Option.some.inj h).symm⟩
      | cons b left =>
        cases ok with
        | true => cases h
        | false => exact ⟨_, _, _, .broken hphase, (Option.some.inj h).symm⟩
    | _ => cases left <;> cases h
  | input =>
    rw [hphase] at h
    cases e with
    | loaded j =>
      simp only [advance] at h
      split at h
      · rename_i bytes hbytes
        refine ⟨_, _, _, .loaded hphase ?_, (Option.some.inj h).symm⟩
        split at hbytes
        · rename_i hnative
          rw [if_pos hnative]
          exact audio_saved hbytes
        · rename_i hnative
          rw [if_neg hnative]
          obtain ⟨⟨file, bytes⟩, hfile, rfl⟩ := Option.map_eq_some_iff.mp hbytes
          exact ⟨file, hfile⟩
      · rename_i hnone
        refine ⟨_, _, _, .missing hphase fun hnative => ?_, (Option.some.inj h).symm⟩
        rw [if_neg (by simp [hnative])] at hnone
        exact Option.map_eq_none_iff.mp hnone
    | _ => cases h
  | whisper =>
    rw [hphase] at h
    cases e with
    | printed j output =>
      refine ⟨_, _, _, .printed hphase ?_, (Option.some.inj h).symm⟩
      cases output with
      | none => exact .inl rfl
      | some texts => exact .inr ⟨texts.1, texts.2, rfl⟩
    | _ => cases h
  | unlink outcome =>
    rw [hphase] at h
    cases e with
    | unlinked j ok => exact ⟨_, _, _, .unlinked hphase, (Option.some.inj h).symm⟩
    | _ => cases h
  | ended outcome =>
    rw [hphase] at h
    cases e <;> cases h

/-- What a step does: files come and go, a call comes, or one takes a turn. -/
theorem step_cases {s t : St} {e : Ev} (h : step P s e = some t) :
    (∃ saved deleted, t = { s with saved := s.saved ++ saved, deleted } ∧ e.call? = none) ∨
      (∃ audioPath language, t = { s with calls := s.calls ++ [⟨audioPath, language, .stat, none⟩] } ∧ e.call? = none) ∨
      ∃ i c c' tmp files, e.call? = some i ∧ s.calls[i]? = some c ∧ Turn P s c e c' tmp files ∧
        t = { s with tmp, files, calls := s.calls.set i c' } := by
  have hcall : ∀ i, e.call? = some i → (s.calls[i]?).bind (fun c => advance P s i c c.phase e) = some t →
      ∃ i c c' tmp files, e.call? = some i ∧ s.calls[i]? = some c ∧ Turn P s c e c' tmp files ∧
        t = { s with tmp, files, calls := s.calls.set i c' } := by
    intro i hi h
    obtain ⟨c, hc, h⟩ := Option.bind_eq_some_iff.mp h
    obtain ⟨c', tmp, files, hturn, ht⟩ := advance_turn h
    exact ⟨i, c, c', tmp, files, hi, hc, hturn, ht⟩
  cases e with
  | saved path audio =>
    rw [step] at h
    split at h
    · cases h
    · exact .inl ⟨[(path, audio)], s.deleted, (Option.some.inj h).symm, rfl⟩
  | deleted path =>
    obtain rfl := Option.some.inj h
    exact .inl ⟨[], path :: s.deleted, by rw [List.append_nil], rfl⟩
  | transcribe audioPath language => exact .inr (.inl ⟨_, _, (Option.some.inj h).symm, rfl⟩)
  | stat i => exact .inr (.inr (hcall i rfl h))
  | binary i found => exact .inr (.inr (hcall i rfl h))
  | opened i => exact .inr (.inr (hcall i rfl h))
  | wrote i more => exact .inr (.inr (hcall i rfl h))
  | exited i ok => exact .inr (.inr (hcall i rfl h))
  | loaded i => exact .inr (.inr (hcall i rfl h))
  | printed i output => exact .inr (.inr (hcall i rfl h))
  | unlinked i ok => exact .inr (.inr (hcall i rfl h))

/-! ## Calls apart -/

variable (P)

/-- What whisper.cpp is to be given for an audio file. -/
def Provider.input (path : JsString) (audio : Bytes) : Option Bytes := if isNative P.lower path then some audio else P.toWav audio

def Own (saved : List (JsString × Bytes)) (path : JsString) (bytes : Bytes) : Prop :=
  ∃ audio, (path, audio) ∈ saved ∧ P.input path audio = some bytes

/-- No call opens the temporary file of another. -/
def Apart (s : St) : Ev → Prop
  | .opened i => ∀ c ∈ s.calls[i]?, ∀ d ∈ s.calls, d.holds P = true → wavPath d.audioPath ≠ wavPath c.audioPath
  | _ => True

instance (s : St) (e : Ev) : Decidable (Apart P s e) := match e with
  | .opened i => inferInstanceAs (Decidable (∀ c ∈ s.calls[i]?, ∀ d ∈ s.calls, d.holds P = true →
      wavPath d.audioPath ≠ wavPath c.audioPath))
  | .saved _ _ | .deleted _ | .transcribe _ _ | .stat _ | .binary _ _ | .wrote _ _ | .exited _ _ | .loaded _ | .printed _ _
  | .unlinked _ _ => isTrue trivial

/-- What a call's phase says of the temporary files. -/
def Fits (saved : List (JsString × Bytes)) (tmp : JsString → Option (Nat × Bytes)) (c : Call) : Prop := match c.phase with
  | .ffmpeg => c.native P = false
  | .writing file written left =>
    c.native P = false ∧ tmp (wavPath c.audioPath) = some (file, written) ∧ Own P saved c.audioPath (written ++ left)
  | .input => c.native P = false → ∃ file bytes, tmp (wavPath c.audioPath) = some (file, bytes) ∧ Own P saved c.audioPath bytes
  | .whisper => c.native P = false → (tmp (wavPath c.audioPath)).isSome
  | .unlink _ => c.native P = false ∧ (tmp (wavPath c.audioPath)).isSome
  | .stat | .binary | .ended _ => True

/-- What a call has to show for itself. -/
structure Told (saved : List (JsString × Bytes)) (c : Call) : Prop where
  own : ∀ bytes ∈ c.heard, Own P saved c.audioPath bytes
  heard : c.phase = .whisper → c.heard.isSome
  result : ∀ r, c.phase.outcome? = some (.ok r) → c.heard.isSome ∧ r.language = c.language ∧
    (r.text = [] ∨ (Tidy r.text ∧ isWhisperHallucination P.lower r.text = false))
  input : c.phase.outcome? = some (.error .input) → c.native P = true

/-- No two calls have one temporary file. -/
def Unshared (calls : List Call) : Prop := ∀ (i j : Nat) (c d : Call), calls[i]? = some c → calls[j]? = some d →
  c.holds P = true → d.holds P = true → wavPath c.audioPath = wavPath d.audioPath → i = j

structure Inv (s : St) : Prop where
  alone : Unshared P s.calls
  fits : ∀ c ∈ s.calls, Fits P s.saved s.tmp c
  told : ∀ c ∈ s.calls, Told P s.saved c

variable {P}

/-- The words of any text, with one blank between them. -/
theorem join_words {words : List JsString} (h : ∀ w ∈ words, w ≠ [] ∧ ∀ u ∈ w, isWhiteUnit u = false) :
    Tidy (join [gap] words) ∧ (words ≠ [] → join [gap] words ≠ []) := by
  induction words with
  | nil => exact ⟨Tidy.plain (List.forall_mem_nil _), fun hne => absurd rfl hne⟩
  | cons w words ih =>
    obtain ⟨⟨hne, hplain⟩, hwords⟩ := List.forall_mem_cons.mp h
    obtain ⟨htidy, hrest⟩ := ih hwords
    cases words with
    | nil => exact ⟨Tidy.plain hplain, fun _ => hne⟩
    | cons v words =>
      have hspaced := (Tidy.plain hplain).spaced htidy hne (hrest (List.cons_ne_nil v words))
      have hjoin : join [gap] (w :: v :: words) = w ++ gap :: join [gap] (v :: words) := by simp [join]
      rw [hjoin]
      exact ⟨hspaced, fun _ hnil => hne (List.append_eq_nil_iff.mp hnil).1⟩

/-- A transcription is words with one blank between them. -/
theorem parseWhisperOutput_tidy (stdout : JsString) : Tidy (parseWhisperOutput stdout) := by
  refine (join_words fun w hw => ?_).1
  obtain ⟨hpiece, hne⟩ := List.mem_filter.mp hw
  exact ⟨by simpa using hne, of_mem_splitOnP hpiece⟩

theorem answered_ok {m : CaseMapping} {language stdout stderr : JsString} {r : SttResult}
    (h : answered m language stdout stderr = .ok r) :
    r.language = language ∧ (r.text = [] ∨ (Tidy r.text ∧ isWhisperHallucination m r.text = false)) := by
  simp only [answered] at h
  split at h
  · cases h
  · split at h
    · cases h
      exact ⟨rfl, .inl rfl⟩
    · rename_i hreal
      cases h
      exact ⟨rfl, .inr ⟨parseWhisperOutput_tidy stdout, by simpa using hreal⟩⟩

theorem answered_input {m : CaseMapping} {language stdout stderr : JsString} :
    answered m language stdout stderr ≠ .error .input := by
  simp only [answered]
  split
  · simp
  · split <;> simp

theorem settle_outcome (c : Call) (outcome : Outcome) : (c.settle P outcome).phase.outcome? = some outcome := by
  unfold Call.settle
  dsimp only
  split <;> rfl

theorem settle_whisper (c : Call) (outcome : Outcome) : (c.settle P outcome).phase ≠ .whisper := by
  intro hwhisper
  have houtcome := settle_outcome (P := P) c outcome
  rw [hwhisper] at houtcome
  cases houtcome

theorem settle_holds {c : Call} (h : c.phase.holds = true) (outcome : Outcome) : (c.settle P outcome).holds P = c.holds P := by
  unfold Call.settle Call.holds Call.native
  dsimp only
  cases isNative P.lower c.audioPath
  · rw [h]
    rfl
  · rfl

theorem holds_of {c : Call} (hnative : c.native P = false) (hphase : c.phase.holds = true) : c.holds P = true := by
  simp [Call.holds, hnative, hphase]

theorem Own.mono {saved more : List (JsString × Bytes)} {path : JsString} {bytes : Bytes} (h : Own P saved path bytes) :
    Own P (saved ++ more) path bytes :=
  h.imp fun _ ⟨hmem, hinput⟩ => ⟨List.mem_append_left more hmem, hinput⟩

theorem Fits.mono {saved more : List (JsString × Bytes)} {tmp : JsString → Option (Nat × Bytes)} {c : Call}
    (h : Fits P saved tmp c) :
    Fits P (saved ++ more) tmp c := by
  unfold Fits at h ⊢
  split
  · rename_i hphase
    rwa [hphase] at h
  · rename_i hphase
    rw [hphase] at h
    exact ⟨h.1, h.2.1, h.2.2.mono⟩
  · rename_i hphase
    rw [hphase] at h
    intro hnative
    obtain ⟨file, bytes, htmp, hown⟩ := h hnative
    exact ⟨file, bytes, htmp, hown.mono⟩
  · rename_i hphase
    rwa [hphase] at h
  · rename_i hphase
    rwa [hphase] at h
  all_goals trivial

theorem Told.mono {saved more : List (JsString × Bytes)} {c : Call} (h : Told P saved c) : Told P (saved ++ more) c :=
  { h with own := fun bytes hbytes => (h.own bytes hbytes).mono }

/-- Only the file under its own name matters to a call, and only while it has one. -/
theorem Fits.frame {saved : List (JsString × Bytes)} {tmp tmp' : JsString → Option (Nat × Bytes)} {c : Call}
    (h : Fits P saved tmp c)
    (htmp : c.holds P = true → tmp' (wavPath c.audioPath) = tmp (wavPath c.audioPath)) : Fits P saved tmp' c := by
  have hholds : c.native P = false → c.phase.holds = true → tmp' (wavPath c.audioPath) = tmp (wavPath c.audioPath) := by
    intro hnative hphase
    exact htmp (holds_of hnative hphase)
  unfold Fits at h ⊢
  cases hphase : c.phase with
  | ffmpeg =>
    rw [hphase] at h
    exact h
  | writing file written left =>
    rw [hphase] at h hholds
    dsimp only
    rw [hholds h.1 rfl]
    exact h
  | input =>
    rw [hphase] at h hholds
    intro hnative
    rw [hholds hnative rfl]
    exact h hnative
  | whisper =>
    rw [hphase] at h hholds
    intro hnative
    rw [hholds hnative rfl]
    exact h hnative
  | unlink outcome =>
    rw [hphase] at h hholds
    dsimp only
    rw [hholds h.1 rfl]
    exact h
  | _ => trivial

section Turns

variable {s : St} {c c' : Call} {e : Ev} {tmp : JsString → Option (Nat × Bytes)} {files : Nat}

theorem Turn.path (h : Turn P s c e c' tmp files) : c'.audioPath = c.audioPath := by
  cases h <;> rfl

theorem open_self (s : St) (name : JsString) : (s.open name).2.tmp name = some ((s.open name).1, []) := by
  unfold St.open
  split <;> exact Function.update_self ..

theorem open_other (s : St) {name other : JsString} (h : other ≠ name) : (s.open name).2.tmp other = s.tmp other := by
  unfold St.open
  split <;> exact Function.update_of_ne h ..

theorem write_other (s : St) {name other : JsString} (h : other ≠ name) (file offset : Nat) (bytes : Bytes) :
    (s.write name file offset bytes).tmp other = s.tmp other := by
  unfold St.write
  split
  · split
    · exact Function.update_of_ne h ..
    · rfl
  · rfl

theorem write_end {s : St} {name : JsString} {file : Nat} {written : Bytes} (h : s.tmp name = some (file, written))
    (bytes : Bytes) :
    (s.write name file written.length bytes).tmp name = some (file, written ++ bytes) := by
  unfold St.write
  rw [h]
  dsimp only
  rw [if_pos rfl, SharedFile.overwrite_end]
  exact Function.update_self ..

/-- A turn changes the temporary file of the call's own name at most, and that only where the call has it. -/
theorem Turn.elsewhere (h : Turn P s c e c' tmp files) (hfits : Fits P s.saved s.tmp c) {name : JsString}
    (hname : (c.holds P = true ∨ ∃ i, e = .opened i) → name ≠ wavPath c.audioPath) : tmp name = s.tmp name := by
  unfold Fits at hfits
  cases h with
  | opened hphase haudio hwav => exact open_other s (hname (.inr ⟨_, rfl⟩))
  | wrote hphase =>
    rw [hphase] at hfits
    exact write_other s (hname (.inl (holds_of hfits.1 (by rw [hphase]; rfl)))) ..
  | @unlinked i ok outcome hphase =>
    rw [hphase] at hfits
    cases ok with
    | true => exact Function.update_of_ne (hname (.inl (holds_of hfits.1 (by rw [hphase]; rfl)))) ..
    | false => rfl
  | _ => rfl

theorem Turn.holds (h : Turn P s c e c' tmp files) (hholds : c'.holds P = true) : c.holds P = true ∨ ∃ i, e = .opened i := by
  obtain ⟨hnative, hphase⟩ : c'.native P = false ∧ c'.phase.holds = true := by simpa [Call.holds] using hholds
  have hsame : c.native P = false := by rwa [Call.native, ← h.path]
  have hheld : c.phase.holds = true → c.holds P = true := holds_of hsame
  cases h with
  | early hbefore hgo hopen hclean =>
    rcases hgo with rfl | ⟨rfl, -⟩ | ⟨rfl, hnat⟩ | ⟨failure, rfl, -⟩
    · cases hphase
    · cases hphase
    · rw [hsame] at hnat
      cases hnat
    · cases hphase
  | opened => exact .inr ⟨_, rfl⟩
  | wrote hp => exact .inl (hheld (by rw [hp]; rfl))
  | converted hp => exact .inl (hheld (by rw [hp]; rfl))
  | broken => cases hphase
  | loaded hp => exact .inl (hheld (by rw [hp]; rfl))
  | missing hp => exact .inl (hheld (by rw [hp]; rfl))
  | printed hp => exact .inl (hheld (by rw [hp]; rfl))
  | unlinked => cases hphase

/-- The step lemma of what the phases say. -/
theorem Turn.fits (h : Turn P s c e c' tmp files) (hfits : Fits P s.saved s.tmp c) : Fits P s.saved tmp c' := by
  have hsettle : ∀ outcome, (c.native P = false → (s.tmp (wavPath c.audioPath)).isSome) →
      Fits P s.saved s.tmp (c.settle P outcome) := by
    intro outcome hsome
    unfold Call.settle Fits
    by_cases hnative : c.native P = true
    · simp only [hnative, if_true]
    · rw [Bool.not_eq_true] at hnative
      simp only [hnative, Bool.false_eq_true, if_false]
      exact ⟨hnative, hsome hnative⟩
  unfold Fits at hfits
  cases h with
  | early hbefore hgo hopen hclean =>
    unfold Fits
    rcases hgo with rfl | ⟨rfl, hnative⟩ | ⟨rfl, hnative⟩ | ⟨failure, rfl, -⟩
    · trivial
    · exact hnative
    · intro hnot
      rw [show c.native P = false from hnot] at hnative
      cases hnative
    · trivial
  | opened hphase haudio hwav =>
    rw [hphase] at hfits
    refine ⟨hfits, open_self s _, _, haudio, ?_⟩
    rw [List.nil_append, Provider.input, if_neg (by rw [show isNative P.lower c.audioPath = false from hfits]; decide)]
    exact hwav
  | wrote hphase =>
    rw [hphase] at hfits
    obtain ⟨hnative, htmp, hown⟩ := hfits
    refine ⟨hnative, write_end htmp _, ?_⟩
    rw [List.append_assoc, List.take_append_drop]
    exact hown
  | converted hphase =>
    rw [hphase] at hfits
    obtain ⟨hnative, htmp, hown⟩ := hfits
    rw [List.append_nil] at hown
    exact fun _ => ⟨_, _, htmp, hown⟩
  | broken => trivial
  | loaded hphase hbytes =>
    rw [hphase] at hfits
    intro hnative
    obtain ⟨file, bytes, htmp, -⟩ := hfits hnative
    rw [htmp]
    rfl
  | missing hphase =>
    rw [hphase] at hfits
    refine hsettle _ fun hnative => ?_
    obtain ⟨file, bytes, htmp, -⟩ := hfits hnative
    rw [htmp]
    rfl
  | printed hphase =>
    rw [hphase] at hfits
    exact hsettle _ hfits
  | unlinked => trivial

theorem Told.go {saved : List (JsString × Bytes)} (h : Told P saved c) {phase : Phase} (hwhisper : phase ≠ .whisper)
    (houtcome : ∀ o, phase.outcome? = some o → c.phase.outcome? = some o ∨ ∃ failure, o = .error failure ∧ failure ≠ .input) :
    Told P saved { c with phase } where
  own := h.own
  heard hphase := absurd hphase hwhisper
  result r hr := by
    rcases houtcome _ hr with hr | ⟨failure, ⟨⟩, -⟩
    exact h.result r hr
  input hinput := by
    rcases houtcome _ hinput with hinput | ⟨failure, ⟨⟩, hne⟩
    · exact h.input hinput
    · exact absurd rfl hne

theorem Turn.told (h : Turn P s c e c' tmp files) (hfits : Fits P s.saved s.tmp c) (htold : Told P s.saved c) :
    Told P s.saved c' := by
  have hfailed : ∀ {failure}, failure ≠ .input → ∀ o, (Phase.ended (.error failure)).outcome? = some o →
      c.phase.outcome? = some o ∨ ∃ failure, o = .error failure ∧ failure ≠ .input := by
    intro failure hne o ho
    exact .inr ⟨failure, (Option.some.inj ho).symm, hne⟩
  have hnone : ∀ {phase : Phase}, phase.outcome? = none → ∀ o, phase.outcome? = some o →
      c.phase.outcome? = some o ∨ ∃ failure, o = .error failure ∧ failure ≠ .input := by
    intro phase hphase o ho
    rw [hphase] at ho
    cases ho
  unfold Fits at hfits
  cases h with
  | early hbefore hgo hopen hclean =>
    rcases hgo with rfl | ⟨rfl, -⟩ | ⟨rfl, -⟩ | ⟨failure, rfl, hne⟩
    · exact htold.go (by simp) (hnone rfl)
    · exact htold.go (by simp) (hnone rfl)
    · exact htold.go (by simp) (hnone rfl)
    · exact htold.go (by simp) (hfailed hne)
  | opened => exact htold.go (by simp) (hnone rfl)
  | wrote => exact htold.go (by simp) (hnone rfl)
  | converted => exact htold.go (by simp) (hnone rfl)
  | broken => exact htold.go (by simp) (hfailed (by simp))
  | @loaded i bytes hphase hbytes =>
    rw [hphase] at hfits
    refine ⟨fun got hgot => ?_, fun _ => rfl, fun r hr => (by cases hr), fun hinput => (by cases hinput)⟩
    obtain rfl := Option.some.inj hgot
    by_cases hnative : c.native P = true
    · rw [if_pos hnative] at hbytes
      exact ⟨_, hbytes, if_pos hnative⟩
    · rw [if_neg hnative] at hbytes
      obtain ⟨file, hfile⟩ := hbytes
      obtain ⟨file', bytes', htmp, hown⟩ := hfits (by simpa using hnative)
      rw [hfile] at htmp
      cases htmp
      exact hown
  | missing hphase htmp =>
    rw [hphase] at hfits
    refine ⟨htold.own, fun hwhisper => absurd hwhisper (settle_whisper c _), fun r hr => ?_, fun _ => ?_⟩
    · rw [settle_outcome] at hr
      cases hr
    · show c.native P = true
      by_contra hnative
      obtain ⟨file, bytes, hsome, -⟩ := hfits (by simpa using hnative)
      rw [htmp (by simpa using hnative)] at hsome
      cases hsome
  | @printed i output outcome hphase houtcome =>
    refine ⟨htold.own, fun hwhisper => absurd hwhisper (settle_whisper c _), fun r hr => ?_, fun hinput => ?_⟩
    · rw [settle_outcome] at hr
      rcases houtcome with rfl | ⟨stdout, stderr, rfl⟩
      · cases hr
      · exact ⟨htold.heard hphase, answered_ok (Option.some.inj hr)⟩
    · rw [settle_outcome] at hinput
      rcases houtcome with rfl | ⟨stdout, stderr, rfl⟩
      · cases hinput
      · exact absurd (Option.some.inj hinput) answered_input
  | @unlinked i ok outcome hphase =>
    refine htold.go (by simp) fun o ho => .inl ?_
    rw [hphase]
    exact ho

end Turns

/-- A call keeps its own while another takes a turn. -/
theorem Inv.others {s : St} (h : Inv P s) {i j : Nat} {c d : Call} {e : Ev}
    (hi : s.calls[i]? = some c) (hcall : e.call? = some i) (hapart : Apart P s e) (hj : s.calls[j]? = some d)
    (hne : j ≠ i) (hd : d.holds P = true) : (c.holds P = true ∨ ∃ i, e = .opened i) →
    wavPath d.audioPath ≠ wavPath c.audioPath := by
  rintro (hc | ⟨k, rfl⟩) hname
  · exact hne (h.alone j i d c hj hi hd hc hname)
  · obtain rfl := Option.some.inj hcall
    exact hapart c hi d (List.mem_of_getElem? hj) hd hname

theorem Inv.turn {s : St} (h : Inv P s) {i : Nat} {c c' : Call} {e : Ev} {tmp : JsString → Option (Nat × Bytes)} {files : Nat}
    (hi : s.calls[i]? = some c) (hcall : e.call? = some i) (hapart : Apart P s e) (hturn : Turn P s c e c' tmp files) :
    Inv P { s with tmp, files, calls := s.calls.set i c' } := by
  have hfits := h.fits c (List.mem_of_getElem? hi)
  refine ⟨fun k l a b hk hl ha hb hname => ?_, fun d hd => ?_, fun d hd => ?_⟩
  · rcases changed hk with ⟨rfl, rfl⟩ | ⟨hki, hka⟩ <;> rcases changed hl with ⟨rfl, rfl⟩ | ⟨hli, hlb⟩
    · rfl
    · rw [hturn.path] at hname
      exact absurd hname.symm (h.others hi hcall hapart hlb hli hb (hturn.holds ha))
    · rw [hturn.path] at hname
      exact absurd hname (h.others hi hcall hapart hka hki ha (hturn.holds hb))
    · exact h.alone k l a b hka hlb ha hb hname
  · obtain ⟨j, hj⟩ := List.mem_iff_getElem?.mp hd
    rcases changed hj with ⟨rfl, rfl⟩ | ⟨hne, hj⟩
    · exact hturn.fits hfits
    · exact (h.fits d (List.mem_of_getElem? hj)).frame fun hholds =>
        hturn.elsewhere hfits (h.others hi hcall hapart hj hne hholds)
  · obtain ⟨j, hj⟩ := List.mem_iff_getElem?.mp hd
    rcases changed hj with ⟨rfl, rfl⟩ | ⟨-, hj⟩
    · exact hturn.told hfits (h.told c (List.mem_of_getElem? hi))
    · exact h.told d (List.mem_of_getElem? hj)

/-- The step lemma. -/
theorem Inv.step {s t : St} (h : Inv P s) {e : Ev} (hapart : Apart P s e) (he : step P s e = some t) : Inv P t := by
  rcases step_cases he with ⟨saved, deleted, rfl, -⟩ | ⟨audioPath, language, rfl, -⟩ | ⟨i, c, c', tmp, files, hcall,
    hi, hturn, rfl⟩
  · exact ⟨h.alone, fun c hc => (h.fits c hc).mono, fun c hc => (h.told c hc).mono⟩
  · have hnew : (Call.mk audioPath language .stat none).holds P = false := by simp [Call.holds, Phase.holds]
    refine ⟨fun k l a b hk hl ha hb hname => ?_, fun d hd => ?_, fun d hd => ?_⟩
    · rcases joined hk with hk | ⟨-, rfl⟩
      · rcases joined hl with hl | ⟨-, rfl⟩
        · exact h.alone k l a b hk hl ha hb hname
        · rw [hnew] at hb
          cases hb
      · rw [hnew] at ha
        cases ha
    · rcases List.mem_append.mp hd with hd | hd
      · exact h.fits d hd
      · obtain rfl := List.mem_singleton.mp hd
        trivial
    · rcases List.mem_append.mp hd with hd | hd
      · exact h.told d hd
      · obtain rfl := List.mem_singleton.mp hd
        exact ⟨fun _ hb => (by cases hb), fun hw => (by cases hw), fun _ hr => (by cases hr), fun hin => (by cases hin)⟩
  · exact h.turn hi hcall hapart hturn

theorem inv_start : Inv P (transcriber P).init :=
  ⟨fun _ _ _ _ hk => (by cases hk), fun _ hc => (by cases hc), fun _ hc => (by cases hc)⟩

/-- While no call opens another's temporary file, whisper.cpp is given a call's own audio or nothing, what a call returns is of
    that audio, and what was converted is never missing. -/
theorem undisturbed {s : St} (h : Reach (transcriber P) (Apart P) s) {c : Call} (hc : c ∈ s.calls) :
    (∀ bytes ∈ c.heard, Own P s.saved c.audioPath bytes) ∧
      (∀ r, c.phase.outcome? = some (.ok r) → c.heard.isSome ∧ r.language = c.language ∧
        (r.text = [] ∨ (Tidy r.text ∧ isWhisperHallucination P.lower r.text = false))) ∧
      (c.phase.outcome? = some (.error .input) → c.native P = true) := by
  have hinv : Inv P s := h.inv inv_start fun s e t _ hs hapart he => hs.step hapart he
  exact ⟨(hinv.told c hc).own, (hinv.told c hc).result, (hinv.told c hc).input⟩

/-- A conversion that puts a byte in front. -/
def marked : Provider := ⟨fun audio => some (0x52 :: audio), .asciiOnly, ofString "en"⟩

/-- Two voice messages come, and their conversions take turns. -/
def twoMessages : List Ev :=
  [.saved (ofString "/downloads/a.ogg") [1, 2], .saved (ofString "/downloads/b.ogg") [3],
    .transcribe (ofString "/downloads/a.ogg") none,
    .transcribe (ofString "/downloads/b.ogg") none, .stat 0, .stat 1, .binary 0 true, .binary 1 true, .opened 0,
      .opened 1, .wrote 0 0,
    .wrote 1 4, .exited 1 true, .loaded 1, .wrote 0 4, .exited 0 true, .loaded 0]

theorem undisturbed_by_another : ∃ s, Reach (transcriber marked) (Apart marked) s ∧ ∃ c ∈ s.calls,
    c.phase = .unlink (.ok ⟨ofString "Buy milk.", ofString "en"⟩) ∧ c.heard = some [0x52, 1, 2] ∧
      ∀ bytes ∈ c.heard, Own marked s.saved c.audioPath bytes := by
  obtain ⟨s, hs, hp⟩ := reach_any (M := transcriber marked) (C := Apart marked)
    (P := fun s => s.calls.any fun c => c.phase = .unlink (.ok ⟨ofString "Buy milk.", ofString "en"⟩) ∧
    c.heard = some [0x52, 1, 2])
    (twoMessages ++ [.printed 0 (some (ofString "\n Buy milk.\n", []))]) (by decide +kernel) (by decide +kernel)
  obtain ⟨c, hc, hcall⟩ := List.any_eq_true.mp hp
  obtain ⟨hphase, hheard⟩ := of_decide_eq_true hcall
  exact ⟨s, hs, c, hc, hphase, hheard, (undisturbed hs hc).1⟩

/-- A voice message is transcribed once more before the first time is over: then only a part of it is heard. -/
example : (exec (transcriber marked) (transcriber marked).init [.saved (ofString "/downloads/a.ogg") [1, 2],
    .transcribe (ofString "/downloads/a.ogg") none, .transcribe (ofString "/downloads/a.ogg") none, .stat 0, .stat 1,
      .binary 0 true,
    .binary 1 true, .opened 0, .wrote 0 4, .exited 0 true, .opened 1, .wrote 1 0, .loaded 0]).map
    (fun s => s.calls.map (·.heard)) = some [some [0x52], none] := by
  decide +kernel

/-! ## What is left behind -/

variable (P)

/-- ffmpeg does not fail once its file is open, and what is to be removed is. -/
def Clean (s : St) : Ev → Prop
  | .exited i ok => ok = true ∨ ∀ c ∈ s.calls[i]?, c.phase.holds = false
  | .unlinked _ ok => ok = true
  | _ => True

instance (s : St) (e : Ev) : Decidable (Clean s e) := match e with
  | .exited i ok => inferInstanceAs (Decidable (ok = true ∨ ∀ c ∈ s.calls[i]?, c.phase.holds = false))
  | .unlinked _ ok => inferInstanceAs (Decidable (ok = true))
  | .saved _ _ | .deleted _ | .transcribe _ _ | .stat _ | .binary _ _ | .opened _ | .wrote _ _ | .loaded _ | .printed _ _ =>
    isTrue trivial

/-- Each temporary file is one call's. -/
structure NoneLeft (s : St) : Prop where
  alone : Unshared P s.calls
  held : ∀ name, (s.tmp name).isSome → ∃ c ∈ s.calls, c.holds P = true ∧ wavPath c.audioPath = name

variable {P}

/-- A call that has no file any more removed it, unless it never had one. -/
theorem Turn.released {s : St} {c c' : Call} {e : Ev} {tmp : JsString → Option (Nat × Bytes)} {files i : Nat}
    (h : Turn P s c e c' tmp files) (hfits : Fits P s.saved s.tmp c) (hi : s.calls[i]? = some c) (hcall : e.call? = some i)
    (hclean : Clean s e) (hfree : c'.holds P = false) : (c.holds P = false ∧ tmp = s.tmp) ∨ tmp (wavPath c.audioPath) = none := by
  unfold Fits at hfits
  cases h with
  | early hbefore => exact .inl ⟨by simp [Call.holds, hbefore.1], rfl⟩
  | opened hphase =>
    rw [hphase] at hfits
    cases hfree.symm.trans (holds_of hfits rfl)
  | wrote hphase =>
    rw [hphase] at hfits
    cases hfree.symm.trans (holds_of hfits.1 rfl)
  | converted hphase => exact .inl ⟨by rw [Call.holds, hphase]; exact hfree, rfl⟩
  | @broken i file written left hphase =>
    obtain rfl := Option.some.inj hcall
    rcases hclean with hok | hclean
    · cases hok
    · have hheld := hclean c hi
      rw [hphase] at hheld
      cases hheld
  | loaded hphase => exact .inl ⟨by rw [Call.holds, hphase]; exact hfree, rfl⟩
  | missing hphase => exact .inl ⟨by rwa [settle_holds (by rw [hphase]; rfl)] at hfree, rfl⟩
  | printed hphase => exact .inl ⟨by rwa [settle_holds (by rw [hphase]; rfl)] at hfree, rfl⟩
  | unlinked hphase =>
    refine .inr ?_
    rw [show _ = true from hclean]
    exact Function.update_self ..

/-- Otherwise its file is left. -/
theorem Turn.forgotten {s : St} {c c' : Call} {e : Ev} {tmp : JsString → Option (Nat × Bytes)} {files i : Nat}
    (h : Turn P s c e c' tmp files) (hfits : Fits P s.saved s.tmp c) (hi : s.calls[i]? = some c) (hcall : e.call? = some i)
    (hclean : ¬Clean s e) : c.holds P = true ∧ c'.holds P = false ∧ (tmp (wavPath c.audioPath)).isSome := by
  unfold Fits at hfits
  cases h with
  | @early e phase hbefore hgo hopen hunlink =>
    refine absurd ?_ hclean
    cases e with
    | exited j ok =>
      refine .inr fun d hd => ?_
      obtain rfl := Option.some.inj hcall
      obtain rfl := Option.some.inj (hi.symm.trans hd)
      exact hbefore.1
    | unlinked j ok =>
      cases ok with
      | true => rfl
      | false => exact absurd rfl (hunlink j)
    | _ => trivial
  | @broken i file written left hphase =>
    rw [hphase] at hfits
    refine ⟨holds_of hfits.1 (by rw [hphase]; rfl), by simp [Call.holds, Phase.holds], ?_⟩
    rw [hfits.2.1]
    rfl
  | @unlinked i ok outcome hphase =>
    rw [hphase] at hfits
    cases ok with
    | true => exact absurd rfl hclean
    | false => exact ⟨holds_of hfits.1 (by rw [hphase]; rfl), by simp [Call.holds, Phase.holds], hfits.2⟩
  | converted => exact absurd (.inl rfl) hclean
  | _ => exact absurd trivial hclean

theorem Turn.opening {s : St} {c c' : Call} {tmp : JsString → Option (Nat × Bytes)} {files i : Nat}
    (h : Turn P s c (.opened i) c' tmp files) (hfits : Fits P s.saved s.tmp c) : c.holds P = false ∧ c'.holds P = true := by
  cases h with
  | early _ _ hopen => exact absurd rfl (hopen i)
  | opened hphase =>
    unfold Fits at hfits
    rw [hphase] at hfits
    exact ⟨by simp [Call.holds, hphase, Phase.holds], holds_of hfits rfl⟩

section Leaving

variable {s : St} {c c' : Call} {e : Ev} {tmp : JsString → Option (Nat × Bytes)} {files i : Nat}

/-- A call that has a file stays as it is while one that has none, or one of another name, takes a turn. -/
theorem stays (x : Call) {d : Call} (hi : s.calls[i]? = some c) (hd : d ∈ s.calls) (hheld : d.holds P = true)
    (hor : c.holds P = false ∨ wavPath d.audioPath ≠ wavPath c.audioPath) : ∃ j, j ≠ i ∧ (s.calls.set i x)[j]? = some d := by
  obtain ⟨j, hj⟩ := List.mem_iff_getElem?.mp hd
  have hne : j ≠ i := by
    rintro rfl
    obtain rfl := Option.some.inj (hi.symm.trans hj)
    rcases hor with hfree | hname
    · rw [hheld] at hfree
      cases hfree
    · exact hname rfl
  exact ⟨j, hne, by rwa [List.getElem?_set_ne (Ne.symm hne)]⟩

theorem NoneLeft.apart (ht : NoneLeft P { s with tmp, files, calls := s.calls.set i c' }) (hfits : Fits P s.saved s.tmp c)
    (hi : s.calls[i]? = some c) (hcall : e.call? = some i) (hturn : Turn P s c e c' tmp files) : Apart P s e := by
  cases e with
  | opened k =>
    obtain rfl := Option.some.inj hcall
    intro b hb d hd hheld hname
    obtain rfl := Option.some.inj (hi.symm.trans hb)
    obtain ⟨hbefore, hopened⟩ := hturn.opening hfits
    obtain ⟨j, hne, hj⟩ := stays c' hi hd hheld (.inl hbefore)
    have hself : (s.calls.set k c')[k]? = some c' := List.getElem?_set_self (List.getElem?_eq_some_iff.mp hi).1
    exact hne (ht.alone j k d c' hj hself hheld hopened (by rw [hturn.path, hname]))
  | _ => trivial

theorem NoneLeft.clean (ht : NoneLeft P { s with tmp, files, calls := s.calls.set i c' }) (hs : NoneLeft P s)
    (hfits : Fits P s.saved s.tmp c) (hi : s.calls[i]? = some c) (hcall : e.call? = some i) (hturn : Turn P s c e c' tmp files) :
    Clean s e := by
  by_contra hclean
  obtain ⟨hheld, hfree, hsome⟩ := hturn.forgotten hfits hi hcall hclean
  obtain ⟨d, hd, hdheld, hname⟩ := ht.held _ hsome
  obtain ⟨j, hj⟩ := List.mem_iff_getElem?.mp hd
  rcases changed hj with ⟨rfl, rfl⟩ | ⟨hne, hj⟩
  · rw [hfree] at hdheld
    cases hdheld
  · exact hne (hs.alone j i d c hj hi hdheld hheld hname)

theorem NoneLeft.turn (hs : NoneLeft P s) (hinv : Inv P s) (hi : s.calls[i]? = some c) (hcall : e.call? = some i)
    (hturn : Turn P s c e c' tmp files) (hapart : Apart P s e) (hclean : Clean s e) :
    NoneLeft P { s with tmp, files, calls := s.calls.set i c' } := by
  have hfits := hinv.fits c (List.mem_of_getElem? hi)
  have hkeep : ∀ name, (s.tmp name).isSome → (c.holds P = false ∨ name ≠ wavPath c.audioPath) →
      ∃ d ∈ s.calls.set i c', d.holds P = true ∧ wavPath d.audioPath = name := by
    intro name hname hor
    obtain ⟨d, hd, hheld, rfl⟩ := hs.held name hname
    obtain ⟨j, -, hj⟩ := stays c' hi hd hheld hor
    exact ⟨d, List.mem_of_getElem? hj, hheld, rfl⟩
  refine ⟨(hinv.turn hi hcall hapart hturn).alone, fun name hname => ?_⟩
  dsimp only at hname
  by_cases hpath : name = wavPath c.audioPath
  · cases hheld : c'.holds P with
    | true =>
      have hself : (s.calls.set i c')[i]? = some c' := List.getElem?_set_self (List.getElem?_eq_some_iff.mp hi).1
      exact ⟨c', List.mem_of_getElem? hself, hheld, by rw [hturn.path, hpath]⟩
    | false =>
      rcases hturn.released hfits hi hcall hclean hheld with ⟨hfree, hsame⟩ | hgone
      · rw [hsame] at hname
        exact hkeep name hname (.inl hfree)
      · rw [hpath, hgone] at hname
        cases hname
  · rw [hturn.elsewhere hfits fun _ => hpath] at hname
    exact hkeep name hname (.inr hpath)

end Leaving

/-- The step lemma. -/
theorem NoneLeft.step_iff {s t : St} (hs : NoneLeft P s) (hinv : Inv P s) {e : Ev} (he : step P s e = some t) :
    NoneLeft P t ↔ Apart P s e ∧ Clean s e := by
  have hfree : e.call? = none → Apart P s e ∧ Clean s e := by
    intro hcall
    cases e with
    | opened i => cases hcall
    | exited i ok => cases hcall
    | unlinked i ok => cases hcall
    | _ => exact ⟨trivial, trivial⟩
  rcases step_cases he with ⟨saved, deleted, rfl, hcall⟩ | ⟨audioPath, language, rfl, hcall⟩ | ⟨i, c, c', tmp, files, hcall,
    hi, hturn, rfl⟩
  · exact iff_of_true ⟨hs.alone, hs.held⟩ (hfree hcall)
  · have hinv' := hinv.step (hfree hcall).1 he
    refine iff_of_true ⟨hinv'.alone, fun name hname => ?_⟩ (hfree hcall)
    obtain ⟨d, hd, hheld⟩ := hs.held name hname
    exact ⟨d, List.mem_append_left _ hd, hheld⟩
  · have hfits := hinv.fits c (List.mem_of_getElem? hi)
    constructor
    · exact fun ht => ⟨ht.apart hfits hi hcall hturn, ht.clean hs hfits hi hcall hturn⟩
    · exact fun ⟨hapart, hclean⟩ => hs.turn hinv hi hcall hturn hapart hclean

/-- Each temporary file is one call's, until two calls have one name or ffmpeg fails with its file
    open or a file is not removed: just
    then one is shared, or stays when its call has ended. -/
theorem nothing_left_iff {s : St} (h : Reach (transcriber P) (fun s e => Apart P s e ∧ Clean s e) s) :
    NoneLeft P s ∧ ∀ e t, step P s e = some t → (NoneLeft P t ↔ Apart P s e ∧ Clean s e) := by
  have hstart : NoneLeft P (transcriber P).init := ⟨fun _ _ _ _ hk => (by cases hk), fun _ hname => (by cases hname)⟩
  obtain ⟨hinv, hnone⟩ : Inv P s ∧ NoneLeft P s := by
    refine h.inv (I := fun s => Inv P s ∧ NoneLeft P s) ⟨inv_start, hstart⟩ ?_
    rintro s e t - ⟨hinv, hs⟩ hc he
    exact ⟨hinv.step hc.1 he, (hs.step_iff hinv he).mpr hc⟩
  exact ⟨hnone, fun e t he => hnone.step_iff hinv he⟩

/-- The second conversion takes too long. -/
theorem left_when_too_slow : ∃ s t, Reach (transcriber marked) (fun s e => Apart marked s e ∧ Clean s e) s ∧
    step marked s (.exited 1 false) = some t ∧ NoneLeft marked s ∧ ¬NoneLeft marked t := by
  have hrun : ((exec (transcriber marked) (transcriber marked).init (twoMessages.take 12)).any fun s =>
      (step marked s (.exited 1 false)).isSome && !decide (Clean s (.exited 1 false))) = true := by decide +kernel
  obtain ⟨s, hs, hp⟩ := reach_any (M := transcriber marked) (C := fun s e => Apart marked s e ∧ Clean s e) _
    (by decide +kernel) hrun
  obtain ⟨hstep, hclean⟩ := (Bool.and_eq_true ..).mp hp
  obtain ⟨t, ht⟩ := Option.isSome_iff_exists.mp hstep
  obtain ⟨hnone, hiff⟩ := nothing_left_iff hs
  refine ⟨s, t, hs, ht, hnone, fun hleft => ?_⟩
  simp only [Bool.not_eq_true', decide_eq_false_iff_not] at hclean
  exact hclean ((hiff _ t ht).mp hleft).2

end FlowHelm.Service.Transcription
