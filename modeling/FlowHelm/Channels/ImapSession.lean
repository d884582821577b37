/-
  FlowHelm.Channels.ImapSession — what `ImapIdleClient` hears of a server once it has logged
  in (`installIdleListener`, `startIdle`, `refreshIdle`, `sendCommand` and `disconnect` of
  src/channels/gmail/imap-client.ts).

  The idle listener and the listener of every command that awaits its answer are called with
  each chunk, in this order, and each adds it to the one buffer: what the idle listener leaves
  there, a command's listener finds in front of the same chunk. EXISTS counts only while the
  client is idling, which a refresh is not between DONE and the next IDLE.

  The session ends with its socket; reconnections are in ImapDisconnect. A timer of a command
  can run out at any time, and a promise that has settled goes on at any later time. `stream`
  keeps what the server has sent, and no step reads it.

  - `undisturbed_outcomes`: in a run no chunk of which disturbs a command, every outcome is what
    the tagged line says, and every EXISTS line has given one newMail.
  - `a_split_answer_is_lost`: a refresh whose answer comes in two chunks, and an EXISTS in it.
-/
import FlowHelm.Lib.Runs
import FlowHelm.Lib.Utf8Chunks

namespace FlowHelm.Channels.ImapSession

open Runs Utf8

/-! ## Lines -/

/-- The lines the server has ended. -/
def ended (stream : List UInt8) : List (List UInt8) := Crlf.complete 0x0D 0x0A stream

/-- The line it has begun. -/
def begun (stream : List UInt8) : List UInt8 := Crlf.unfinished 0x0D 0x0A stream

/-- `line.match(/^\* \d+ EXISTS/)`. -/
def isExists : List Char → Bool
  | '*' :: ' ' :: rest =>
    rest.head?.any Char.isDigit && [' ', 'E', 'X', 'I', 'S', 'T', 'S'].isPrefixOf (rest.dropWhile Char.isDigit)
  | _ => false

inductive Outcome where
  | resolved (line : List Char)
  | rejected (line : List Char)
  | timedOut
  deriving DecidableEq

/-- What a line is to the command with this tag. -/
def answer (tag line : List Char) : Option Outcome :=
  if (tag ++ [' ', 'O', 'K']).isPrefixOf line then some (.resolved line)
  else if (tag ++ [' ', 'N', 'O']).isPrefixOf line || (tag ++ [' ', 'B', 'A', 'D']).isPrefixOf line then some (.rejected line)
  else none

/-! ## The client -/

inductive Caller where
  | refreshIdle
  | disconnect
  deriving DecidableEq

structure Command where
  caller : Caller
  tag : List Char
  /-- How much of the stream had come in. -/
  sentAt : Nat
  outcome : Option Outcome
  /-- What follows it has run. -/
  resumed : Bool
  deriving DecidableEq

structure Client where
  buffer : List Char
  connected : Bool
  idling : Bool
  idleRefreshTimer : Bool
  /-- A refresh is in its `sleep`. -/
  sleeping : Bool
  tagCounter : Nat
  commands : List Command
  newMails : Nat
  written : List (List Char)
  stream : List UInt8
  deriving DecidableEq

inductive Event where
  | data (chunk : List UInt8)
  | refreshTimer
  | slept
  /-- What follows the `i`th command. -/
  | resumed (i : Nat)
  | timeout (i : Nat)
  | disconnect
  deriving DecidableEq

/-- `A` and the number, in four digits at least. -/
def tagText (n : Nat) : List Char := 'A' :: List.leftpad 4 '0' (Nat.toDigits 10 n)

def sendRaw (text : List Char) (c : Client) : Client := { c with written := c.written ++ [text ++ ['\r', '\n']] }

def startIdle (c : Client) : Client :=
  let tag := tagText (c.tagCounter + 1)
  { sendRaw (tag ++ [' ', 'I', 'D', 'L', 'E']) { c with tagCounter := c.tagCounter + 1 } with
    idling := true, idleRefreshTimer := true }

def sendCommand (caller : Caller) (command : List Char) (c : Client) : Client :=
  let tag := tagText (c.tagCounter + 1)
  sendRaw (tag ++ ' ' :: command)
    { c with tagCounter := c.tagCounter + 1, commands := c.commands ++ [⟨caller, tag, c.stream.length, none, false⟩] }

def done (c : Client) : Client := { sendRaw ['D', 'O', 'N', 'E'] c with idling := false }

def refreshIdle (c : Client) : Client := if c.idling && c.connected then { done c with sleeping := true } else c

def handleDisconnect (c : Client) : Client := { c with connected := false, idling := false, idleRefreshTimer := false }

def disconnect (c : Client) : Client :=
  let c := { c with idleRefreshTimer := false }
  sendCommand .disconnect ['L', 'O', 'G', 'O', 'U', 'T'] (if c.idling then done c else c)

/-- What follows a command in its caller. -/
def resume (caller : Caller) (outcome : Outcome) (c : Client) : Client :=
  match caller, outcome with
  | .refreshIdle, .resolved _ => startIdle c
  | .refreshIdle, _ => handleDisconnect c
  | .disconnect, _ => { c with connected := false }

/-! ## Listeners -/

def idleListener (text : List Char) (c : Client) : Client :=
  let lines := Crlf.complete '\r' '\n' (c.buffer ++ text)
  { c with
    buffer := Crlf.unfinished '\r' '\n' (c.buffer ++ text),
    newMails := c.newMails + if c.idling then lines.countP isExists else 0 }

/-- The first line that answers, and the lines behind it. -/
def scan (tag : List Char) : List (List Char) → Option (Outcome × List (List Char))
  | [] => none
  | line :: lines => match answer tag line with
    | some outcome => some (outcome, lines)
    | none => scan tag lines

/-- The outcome for a command, and what its listener leaves in the buffer. -/
def responseHandler (tag buffer text : List Char) : Option Outcome × List Char :=
  match scan tag (Crlf.complete '\r' '\n' (buffer ++ text)) with
  | some (outcome, lines) => (some outcome, lines.flatMap (· ++ ['\r', '\n']) ++ Crlf.unfinished '\r' '\n' (buffer ++ text))
  | none => (none, Crlf.unfinished '\r' '\n' (buffer ++ text))

/-- The listeners of the commands, one after the other. -/
def respond (text : List Char) : List Command → List Char → List Command × List Char
  | [], buffer => ([], buffer)
  | command :: commands, buffer =>
    if command.outcome = none then
      let heard := responseHandler command.tag buffer text
      let rest := respond text commands heard.2
      ({ command with outcome := heard.1 } :: rest.1, rest.2)
    else
      let rest := respond text commands buffer
      (command :: rest.1, rest.2)

def onData (chunk : List UInt8) (c : Client) : Client :=
  let c := idleListener (decode chunk) c
  let heard := respond (decode chunk) c.commands c.buffer
  { c with commands := heard.1, buffer := heard.2, stream := c.stream ++ chunk }

def step (c : Client) : Event → Option Client
  | .data chunk => if c.connected then some (onData chunk c) else none
  | .refreshTimer => if c.idleRefreshTimer then some (refreshIdle { c with idleRefreshTimer := false }) else none
  | .slept =>
    if c.connected && c.sleeping then some (sendCommand .refreshIdle ['N', 'O', 'O', 'P'] { c with sleeping := false }) else none
  | .resumed i => match c.commands[i]? with
    | some ⟨caller, _, _, some outcome, false⟩ =>
      if c.connected then some (resume caller outcome
        { c with commands := c.commands.modify i ({ · with resumed := true }) }) else none
    | _ => none
  | .timeout i => match c.commands[i]? with
    | some ⟨_, _, _, none, _⟩ => some { c with commands := c.commands.modify i ({ · with outcome := some .timedOut }) }
    | _ => none
  | .disconnect => if c.connected then some (disconnect c) else none

/-- The login has used `tagCounter` tags, and left in the buffer what stood behind its last answer. -/
def init (tagCounter : Nat) (left : List UInt8) : Client :=
  startIdle ⟨decode left, true, false, false, false, tagCounter, [], 0, [], left⟩

def session (tagCounter : Nat) (left : List UInt8) : System Client Event := ⟨init tagCounter left, step⟩

/-! ## What the stream dictates -/

def existsLine (line : List UInt8) : Bool := isExists (decode line)

/-- The lines that an event with this chunk ends. -/
def news (c : Client) (chunk : List UInt8) : List (List UInt8) := ended (begun c.stream ++ chunk)

/-- The first answer among the lines that have ended since the command was sent. -/
def dictated (command : Command) (stream : List UInt8) : Option Outcome :=
  ((ended stream).drop (ended (stream.take command.sentAt)).length).findSome? fun line => answer command.tag (decode line)

def awaiting (c : Client) : Bool := c.commands.any (·.outcome == none)

/-- The server answers a command once. -/
def AnswersOnce (c : Client) (chunk : List UInt8) : Prop :=
  ∀ command ∈ c.commands, command.outcome = none →
    ((news c chunk).filter fun line => (answer command.tag (decode line)).isSome).length ≤ 1

/-- A step that disturbs nothing: a chunk that comes while a command awaits its answer is whole
    lines, an EXISTS line ends while the client is idling and awaits no answer, and no timer runs
    out. -/
def Undisturbed (c : Client) : Event → Prop
  | .data chunk => AnswersOnce c chunk ∧ (awaiting c = true → begun c.stream = [] ∧ begun (c.stream ++ chunk) = []) ∧
      (c.idling = false ∨ awaiting c = true → ∀ line ∈ news c chunk, existsLine line = false)
  | .timeout _ => False
  | _ => True

/-! ## EXISTS lines -/

theorem isExists_iff {line : List Char} :
    isExists line = true ↔ ∃ digits rest, digits ≠ [] ∧ (∀ d ∈ digits, Char.isDigit d = true) ∧
      line = ['*', ' '] ++ digits ++ [' ', 'E', 'X', 'I', 'S', 'T', 'S'] ++ rest := by
  constructor
  · intro h
    unfold isExists at h
    split at h
    · rename_i rest
      rw [Bool.and_eq_true, List.isPrefixOf_iff_prefix] at h
      obtain ⟨hhead, more, hmore⟩ := h
      refine ⟨rest.takeWhile Char.isDigit, more, ?_, List.all_eq_true.mp List.all_takeWhile, ?_⟩
      · cases rest with
        | nil => simp at hhead
        | cons d rest => simp_all
      · rw [List.append_assoc, hmore, List.append_assoc, List.takeWhile_append_dropWhile]
        rfl
    · cases h
  · rintro ⟨digits, rest, hne, hdigits, rfl⟩
    obtain ⟨d, ds, rfl⟩ := List.exists_cons_of_ne_nil hne
    have hd := (List.forall_mem_cons.mp hdigits).1
    have hdrop : (d :: (ds ++ ' ' :: 'E' :: 'X' :: 'I' :: 'S' :: 'T' :: 'S' :: rest)).dropWhile Char.isDigit =
        ' ' :: 'E' :: 'X' :: 'I' :: 'S' :: 'T' :: 'S' :: rest := by
      rw [← List.cons_append, List.dropWhile_append_of_pos hdigits]
      simp
    simp [isExists, hd, hdrop]

theorem digit_ascii {d : Char} (h : d.isDigit = true) : d.toNat < 0x80 := by
  have hrange := Char.isDigit_iff_toNat.mp h
  have hnine : '9'.toNat = 57 := rfl
  omega

theorem ascii_of_all {text : List Char} (h : (text.all fun ch => ch.toNat < 0x80) = true) : ∀ ch ∈ text, ch.toNat < 0x80 :=
  fun ch hch => of_decide_eq_true (List.all_eq_true.mp h ch hch)

theorem isExists_decoded {bytes : List UInt8} {line line' : List Char} (h : Decoded bytes line) (h' : Decoded bytes line')
    (hline : isExists line = true) : isExists line' = true := by
  obtain ⟨digits, rest, hne, hdigits, rfl⟩ := isExists_iff.mp hline
  have hascii : ∀ ch ∈ ['*', ' '] ++ digits ++ [' ', 'E', 'X', 'I', 'S', 'T', 'S'], ch.toNat < 0x80 := by
    simp only [List.forall_mem_append]
    exact ⟨⟨ascii_of_all rfl, fun d hd => digit_ascii (hdigits d hd)⟩, ascii_of_all rfl⟩
  obtain ⟨more, rfl⟩ := Decoded.starts hascii h h'
  exact isExists_iff.mpr ⟨digits, more, hne, hdigits, rfl⟩

theorem existsLine_decoded {bytes : List UInt8} {line : List Char} (h : Decoded bytes line) :
    existsLine bytes = isExists line := by
  rw [Bool.eq_iff_iff]
  exact ⟨isExists_decoded (.chunk bytes) h, isExists_decoded h (.chunk bytes)⟩

theorem countP_decoded {lines : List (List UInt8)} {texts : List (List Char)} (h : List.Forall₂ Decoded lines texts) :
    texts.countP isExists = lines.countP existsLine := by
  induction h with
  | nil => rfl
  | cons hline _ ih => rw [List.countP_cons, List.countP_cons, ih, existsLine_decoded hline]

/-! ## Answers -/

variable {tag text : List Char} {lines heard : List (List Char)}

theorem scan_eq (tag : List Char) (lines : List (List Char)) : (scan tag lines).map Prod.fst = lines.findSome? (answer tag) := by
  induction lines with
  | nil => rfl
  | cons line lines ih =>
    rw [scan, List.findSome?_cons]
    cases answer tag line with
    | none => exact ih
    | some outcome => rfl

theorem scan_subset {outcome : Outcome} {rest : List (List Char)} (h : scan tag lines = some (outcome, rest)) :
    ∀ l ∈ rest, l ∈ lines := by
  induction lines with
  | nil => cases h
  | cons line lines ih =>
    rw [scan] at h
    split at h
    · obtain ⟨-, rfl⟩ := Prod.mk.inj (Option.some.inj h)
      exact fun l hl => List.mem_cons_of_mem _ hl
    · exact fun l hl => List.mem_cons_of_mem _ (ih h l hl)

/-- Where one line answers, what is heard again of the lines answers the same. -/
theorem findSome_heard (hheard : ∀ l ∈ heard, l ∈ lines) (honce : (lines.filter fun l => (answer tag l).isSome).length ≤ 1) :
    (heard ++ lines).findSome? (answer tag) = lines.findSome? (answer tag) := by
  rw [List.findSome?_append]
  cases hfound : heard.findSome? (answer tag) with
  | none => rfl
  | some outcome =>
    obtain ⟨l, hl, hanswer⟩ := List.exists_of_findSome?_eq_some hfound
    cases hfirst : lines.findSome? (answer tag) with
    | none => rw [List.findSome?_eq_none_iff.mp hfirst l (hheard l hl)] at hanswer; cases hanswer
    | some first =>
      obtain ⟨m, hm, hmanswer⟩ := List.exists_of_findSome?_eq_some hfirst
      have hsame : l = m := by
        have hlmem : l ∈ lines.filter fun l => (answer tag l).isSome := List.mem_filter.mpr ⟨hheard l hl, by simp [hanswer]⟩
        have hmmem : m ∈ lines.filter fun l => (answer tag l).isSome := List.mem_filter.mpr ⟨hm, by simp [hmanswer]⟩
        match hfilter : lines.filter fun l => (answer tag l).isSome, honce with
        | [], _ => rw [hfilter] at hlmem; cases hlmem
        | [x], _ =>
          rw [hfilter] at hlmem hmmem
          rw [List.mem_singleton.mp hlmem, List.mem_singleton.mp hmmem]
        | _ :: _ :: _, hlong => simp at hlong
      rw [hsame, hmanswer] at hanswer
      rw [hanswer]
      rfl

/-- Lines as they stand in the buffer. -/
def textOf (lines : List (List Char)) : List Char := lines.flatMap (· ++ ['\r', '\n'])

theorem responseHandler_spec (hlines : Crlf.complete '\r' '\n' text = lines) (hwhole : Crlf.unfinished '\r' '\n' text = [])
    (hheard : ∀ l ∈ heard, l ∈ lines) (honce : (lines.filter fun l => (answer tag l).isSome).length ≤ 1) :
    (responseHandler tag (textOf heard) text).1 = lines.findSome? (answer tag) ∧
      ∃ left, (responseHandler tag (textOf heard) text).2 = textOf left ∧ ∀ l ∈ left, l ∈ lines := by
  have hunbroken : ∀ l ∈ heard, Crlf.Unbroken '\r' '\n' l :=
    fun l hl => Crlf.complete_unbroken text l (hlines ▸ hheard l hl)
  have hne : '\r' ≠ '\n' := by decide
  have hcomplete : Crlf.complete '\r' '\n' (textOf heard ++ text) = heard ++ lines := by
    rw [textOf, Crlf.complete_ended hne hunbroken, hlines]
  have hunfinished : Crlf.unfinished '\r' '\n' (textOf heard ++ text) = [] := by
    rw [textOf, Crlf.unfinished_ended hne hunbroken, hwhole]
  have hscan := scan_eq tag (heard ++ lines)
  rw [findSome_heard hheard honce] at hscan
  rw [responseHandler, hcomplete, hunfinished]
  cases hfound : scan tag (heard ++ lines) with
  | none =>
    rw [hfound] at hscan
    exact ⟨hscan, [], rfl, List.forall_mem_nil _⟩
  | some found =>
    obtain ⟨outcome, left⟩ := found
    rw [hfound] at hscan
    refine ⟨hscan, left, by simp [textOf], fun l hl => ?_⟩
    rcases List.mem_append.mp (scan_subset hfound l hl) with hl | hl
    · exact hheard l hl
    · exact hl

/-- What an event with whole lines does to the commands. -/
theorem respond_spec (hlines : Crlf.complete '\r' '\n' text = lines) (hwhole : Crlf.unfinished '\r' '\n' text = [])
    {commands : List Command} (hheard : ∀ l ∈ heard, l ∈ lines)
    (honce : ∀ command ∈ commands, command.outcome = none → (lines.filter fun l => (answer command.tag l).isSome).length ≤ 1) :
    (respond text commands (textOf heard)).1 =
        commands.map (fun command => { command with outcome := command.outcome.or (lines.findSome? (answer command.tag)) }) ∧
      ∃ left, (respond text commands (textOf heard)).2 = textOf left ∧ ∀ l ∈ left, l ∈ lines := by
  induction commands generalizing heard with
  | nil => exact ⟨rfl, heard, rfl, hheard⟩
  | cons command commands ih =>
    obtain ⟨hcommand, hcommands⟩ := List.forall_mem_cons.mp honce
    rw [respond]
    split
    · rename_i hnone
      obtain ⟨houtcome, left, hleft, hsub⟩ := responseHandler_spec hlines hwhole hheard (hcommand hnone)
      obtain ⟨hrest, hbuffer⟩ := ih hsub hcommands
      simp only [hleft, houtcome]
      refine ⟨?_, hbuffer⟩
      rw [hrest, List.map_cons, hnone, Option.none_or]
    · rename_i hsome
      obtain ⟨hrest, hbuffer⟩ := ih hheard hcommands
      obtain ⟨outcome, houtcome⟩ := Option.ne_none_iff_exists'.mp hsome
      have hkept : { command with outcome := command.outcome.or (lines.findSome? (answer command.tag)) } = command := by
        rw [houtcome, Option.some_or, ← houtcome]
      refine ⟨?_, hbuffer⟩
      rw [List.map_cons, hkept, ← hrest]

/-- With no command waiting, nothing is heard but by the idle listener. -/
theorem respond_idle {commands : List Command} (h : ∀ command ∈ commands, command.outcome ≠ none) (buffer : List Char) :
    respond text commands buffer = (commands, buffer) := by
  induction commands with
  | nil => rfl
  | cons command commands ih =>
    obtain ⟨hcommand, hcommands⟩ := List.forall_mem_cons.mp h
    rw [respond, if_neg hcommand, ih hcommands]

/-! ## More of the stream -/

variable {stream chunk : List UInt8}

theorem ended_append (stream chunk : List UInt8) : ended (stream ++ chunk) = ended stream ++ ended (begun stream ++ chunk) :=
  Crlf.complete_append (by decide) stream chunk

theorem begun_append (stream chunk : List UInt8) : begun (stream ++ chunk) = begun (begun stream ++ chunk) :=
  Crlf.unfinished_append (by decide) stream chunk

theorem dictated_append {command : Command} (hsent : command.sentAt ≤ stream.length) (chunk : List UInt8) :
    dictated command (stream ++ chunk) =
      (dictated command stream).or ((ended (begun stream ++ chunk)).findSome? fun line => answer command.tag (decode line)) := by
  have hle : (ended (stream.take command.sentAt)).length ≤ (ended stream).length := by
    have hwhole := ended_append (stream.take command.sentAt) (stream.drop command.sentAt)
    rw [List.take_append_drop] at hwhole
    rw [hwhole, List.length_append]
    exact Nat.le_add_right _ _
  rw [dictated, List.take_append_of_le_length hsent, ended_append, List.drop_append_of_le_length hle, List.findSome?_append]
  rfl

/-- A command just sent is answered by nothing. -/
theorem dictated_sent {command : Command} (h : command.sentAt = stream.length) : dictated command stream = none := by
  rw [dictated, h, List.take_length, List.drop_length]
  rfl

/-! ## Runs -/

/-- What the client has heard is what the stream says. -/
structure Heard (c : Client) : Prop where
  mails : c.newMails = (ended c.stream).countP existsLine
  buffer : ∃ lines text, c.buffer = textOf lines ++ text ∧
    (∀ l ∈ lines, Crlf.Unbroken '\r' '\n' l ∧ isExists l = false) ∧ Decoded (begun c.stream) text
  outcomes : ∀ command ∈ c.commands, command.outcome = dictated command c.stream
  sent : ∀ command ∈ c.commands, command.sentAt ≤ c.stream.length

theorem heard_init (tagCounter : Nat) {left : List UInt8} (h : ∀ line ∈ ended left, existsLine line = false) :
    Heard (init tagCounter left) where
  mails := by
    symm
    apply List.countP_eq_zero.mpr
    intro line hline
    simp [h line hline]
  buffer := by
    refine ⟨(ended left).map decode, decode (begun left), ?_, ?_, .chunk _⟩
    · have hwhole : textOf (Crlf.complete '\r' '\n' (decode left)) ++ Crlf.unfinished '\r' '\n' (decode left) = decode left :=
        Crlf.ended_unfinished (decode left)
      rw [(complete_decode left).1, (complete_decode left).2] at hwhole
      exact hwhole.symm
    · rw [List.forall_mem_map]
      intro line hline
      exact ⟨(Decoded.chunk line).unbroken.mp (Crlf.complete_unbroken left line hline), h line hline⟩
  outcomes := List.forall_mem_nil _
  sent := List.forall_mem_nil _

/-- What the idle listener makes of a chunk. -/
theorem idle_spec {c : Client} (h : Heard c) {chunk : List UInt8}
    (hquiet : c.idling = false → ∀ line ∈ news c chunk, existsLine line = false) :
    (idleListener (decode chunk) c).newMails = (ended (c.stream ++ chunk)).countP existsLine ∧
      Decoded (begun (c.stream ++ chunk)) (idleListener (decode chunk) c).buffer := by
  obtain ⟨lines, text, hbuffer, hlines, htext⟩ := h.buffer
  have hne : '\r' ≠ '\n' := by decide
  have hunbroken : ∀ l ∈ lines, Crlf.Unbroken '\r' '\n' l := fun l hl => (hlines l hl).1
  obtain ⟨hended, hbegun⟩ := (htext.append (.chunk chunk)).complete
  have hcount : (Crlf.complete '\r' '\n' (c.buffer ++ decode chunk)).countP isExists = (news c chunk).countP existsLine := by
    have hzero : lines.countP isExists = 0 := List.countP_eq_zero.mpr fun l hl => by simp [(hlines l hl).2]
    rw [hbuffer, List.append_assoc, textOf, Crlf.complete_ended hne hunbroken, List.countP_append, hzero, Nat.zero_add]
    exact countP_decoded hended
  constructor
  · rw [ended_append, List.countP_append, ← h.mails]
    unfold idleListener
    simp only [hcount]
    by_cases hidling : c.idling = true
    · rw [if_pos hidling]
      rfl
    · rw [if_neg hidling]
      have hzero : (news c chunk).countP existsLine = 0 :=
        List.countP_eq_zero.mpr fun line hline => by simp [hquiet (by simpa using hidling) line hline]
      exact congrArg _ hzero.symm
  · rw [begun_append]
    unfold idleListener
    simp only [hbuffer, List.append_assoc, textOf]
    rw [Crlf.unfinished_ended hne hunbroken]
    exact hbegun

theorem heard_data {c : Client} (h : Heard c) {chunk : List UInt8} (hc : Undisturbed c (.data chunk)) :
    Heard (onData chunk c) := by
  obtain ⟨honce, hwhole, hquiet⟩ := hc
  obtain ⟨hmails, hbuffer⟩ := idle_spec h fun hidling => hquiet (.inl hidling)
  have hsent : ∀ command ∈ c.commands, command.sentAt ≤ (c.stream ++ chunk).length := by
    intro command hcommand
    have hle := h.sent command hcommand
    simp
    omega
  by_cases hawaiting : awaiting c = true
  · -- Whole lines: the idle listener leaves nothing, and every command hears them all.
    obtain ⟨hbegun, hbegun'⟩ := hwhole hawaiting
    have hnews : news c chunk = ended chunk := by rw [news, hbegun, List.nil_append]
    have hlines : Crlf.complete '\r' '\n' (decode chunk) = (ended chunk).map decode := (complete_decode chunk).1
    have hrest : Crlf.unfinished '\r' '\n' (decode chunk) = [] := by
      rw [begun_append, hbegun, List.nil_append] at hbegun'
      rw [(complete_decode chunk).2]
      exact congrArg decode hbegun'
    have hempty : (idleListener (decode chunk) c).buffer = textOf [] := by
      rw [hbegun'] at hbuffer
      exact hbuffer.eq_nil_iff.mp rfl
    have hanswers : ∀ command ∈ c.commands, command.outcome = none →
        (((ended chunk).map decode).filter fun l => (answer command.tag l).isSome).length ≤ 1 := by
      intro command hcommand hnone
      rw [List.filter_map, List.length_map]
      exact hnews ▸ honce command hcommand hnone
    obtain ⟨hcommands, left, hleft, hsub⟩ := respond_spec hlines hrest (List.forall_mem_nil _) hanswers
    have hdata : onData chunk c = { idleListener (decode chunk) c with
        commands := c.commands.map (fun command =>
          { command with outcome := command.outcome.or (((ended chunk).map decode).findSome? (answer command.tag)) }),
        buffer := textOf left, stream := c.stream ++ chunk } := by
      unfold onData
      simp only [hempty]
      rw [← hcommands, ← hleft]
      rfl
    rw [hdata]
    refine ⟨hmails, ⟨left, [], by simp, fun l hl => ?_, hbegun' ▸ .nil⟩, ?_, ?_⟩
    · obtain ⟨line, hline, rfl⟩ := List.mem_map.mp (hsub l hl)
      exact ⟨(Decoded.chunk line).unbroken.mp (Crlf.complete_unbroken chunk line hline),
        hquiet (.inr hawaiting) line (hnews ▸ hline)⟩
    · rw [List.forall_mem_map]
      intro command hcommand
      show command.outcome.or _ = _
      have hsame :
          dictated { command with outcome := command.outcome.or (((ended chunk).map decode).findSome? (answer command.tag)) }
            (c.stream ++ chunk) = dictated command (c.stream ++ chunk) := rfl
      rw [hsame, dictated_append (h.sent command hcommand), ← h.outcomes command hcommand, hbegun, List.nil_append,
        List.findSome?_map]
      rfl
    · rw [List.forall_mem_map]
      exact hsent
  · have hidle : ∀ command ∈ c.commands, command.outcome ≠ none := by
      intro command hcommand hnone
      exact hawaiting (List.any_eq_true.mpr ⟨command, hcommand, by simp [hnone]⟩)
    have hdata : onData chunk c = { idleListener (decode chunk) c with stream := c.stream ++ chunk } := by
      unfold onData
      simp only
      rw [show (idleListener (decode chunk) c).commands = c.commands from rfl, respond_idle hidle]
      rfl
    rw [hdata]
    refine ⟨hmails, ⟨[], _, rfl, List.forall_mem_nil _, hbuffer⟩, ?_, hsent⟩
    intro command hcommand
    show command.outcome = dictated command (c.stream ++ chunk)
    obtain ⟨outcome, houtcome⟩ := Option.ne_none_iff_exists'.mp (hidle command hcommand)
    rw [dictated_append (h.sent command hcommand), ← h.outcomes command hcommand, houtcome]
    rfl

/-- A step that reads nothing and answers nothing. -/
theorem Heard.of {c c' : Client} (h : Heard c) (hmails : c'.newMails = c.newMails) (hbuffer : c'.buffer = c.buffer)
    (hstream : c'.stream = c.stream)
    (hcommands : ∀ command ∈ c'.commands,
      (∃ old ∈ c.commands, old.tag = command.tag ∧ old.sentAt = command.sentAt ∧ old.outcome = command.outcome) ∨
        (command.outcome = none ∧ command.sentAt = c.stream.length)) : Heard c' where
  mails := by rw [hmails, hstream, h.mails]
  buffer := by
    rw [hbuffer, hstream]
    exact h.buffer
  outcomes command hcommand := by
    rw [hstream]
    rcases hcommands command hcommand with ⟨old, hold, htag, hsent, houtcome⟩ | ⟨hnone, hsent⟩
    · have hsame : dictated command c.stream = dictated old c.stream := by rw [dictated, dictated, htag, hsent]
      rw [← houtcome, hsame, h.outcomes old hold]
    · rw [hnone, dictated_sent hsent]
  sent command hcommand := by
    rw [hstream]
    rcases hcommands command hcommand with ⟨old, hold, -, hsent, -⟩ | ⟨-, hsent⟩
    · exact hsent ▸ h.sent old hold
    · exact Nat.le_of_eq hsent

theorem Heard.same {c c' : Client} (h : Heard c) (hmails : c'.newMails = c.newMails) (hbuffer : c'.buffer = c.buffer)
    (hstream : c'.stream = c.stream) (hcommands : c'.commands = c.commands) : Heard c' := by
  refine h.of hmails hbuffer hstream fun command hcommand => .inl ⟨command, ?_, rfl, rfl, rfl⟩
  exact hcommands ▸ hcommand

theorem Heard.send {c : Client} (h : Heard c) (caller : Caller) (command : List Char) : Heard (sendCommand caller command c) := by
  refine h.of rfl rfl rfl fun cmd hcmd => ?_
  rcases List.mem_append.mp hcmd with hold | hnew
  · exact .inl ⟨cmd, hold, rfl, rfl, rfl⟩
  · rw [List.mem_singleton.mp hnew]
    exact .inr ⟨rfl, rfl⟩

theorem Heard.resumed {c : Client} (h : Heard c) (i : Nat) :
    Heard { c with commands := c.commands.modify i ({ · with resumed := true }) } := by
  refine h.of rfl rfl rfl fun cmd hcmd => ?_
  obtain ⟨j, hj⟩ := List.mem_iff_getElem?.mp hcmd
  rw [List.getElem?_modify] at hj
  obtain ⟨old, hold, rfl⟩ := Option.map_eq_some_iff.mp hj
  refine .inl ⟨old, List.mem_of_getElem? hold, ?_⟩
  split <;> exact ⟨rfl, rfl, rfl⟩

theorem heard_step {c c' : Client} (h : Heard c) {event : Event} (hc : Undisturbed c event) (hstep : step c event = some c') :
    Heard c' := by
  cases event with
  | data chunk =>
    rw [step, Option.ite_none_right_eq_some, Option.some.injEq] at hstep
    obtain ⟨-, rfl⟩ := hstep
    exact heard_data h hc
  | refreshTimer =>
    rw [step, Option.ite_none_right_eq_some, Option.some.injEq] at hstep
    obtain ⟨-, rfl⟩ := hstep
    unfold refreshIdle
    split
    · exact h.same rfl rfl rfl rfl
    · exact h.same rfl rfl rfl rfl
  | slept =>
    rw [step, Option.ite_none_right_eq_some, Option.some.injEq] at hstep
    obtain ⟨-, rfl⟩ := hstep
    have hawake : Heard { c with sleeping := false } := h.same rfl rfl rfl rfl
    exact hawake.send _ _
  | resumed i =>
    simp only [step] at hstep
    split at hstep
    · rename_i caller _ _ outcome _
      rw [Option.ite_none_right_eq_some, Option.some.injEq] at hstep
      obtain ⟨-, rfl⟩ := hstep
      have hmarked := h.resumed i
      cases caller <;> cases outcome <;> exact hmarked.same rfl rfl rfl rfl
    · cases hstep
  | timeout i => exact hc.elim
  | disconnect =>
    rw [step, Option.ite_none_right_eq_some, Option.some.injEq] at hstep
    obtain ⟨-, rfl⟩ := hstep
    unfold disconnect
    refine Heard.send ?_ ..
    split
    · exact h.same rfl rfl rfl rfl
    · exact h.same rfl rfl rfl rfl

/-- In a run that nothing disturbs, every command has the outcome its answer dictates, and every
    EXISTS line has given one newMail, wherever the chunks end. -/
theorem undisturbed_outcomes (tagCounter : Nat) {left : List UInt8}
    (hleft : ∀ line ∈ ended left, existsLine line = false) {c : Client}
    (h : Reach (session tagCounter left) Undisturbed c) :
    c.newMails = (ended c.stream).countP existsLine ∧ ∀ command ∈ c.commands, command.outcome = dictated command c.stream := by
  have hheard : Heard c := h.inv (heard_init tagCounter hleft) fun _ _ _ _ hs hc hstep => heard_step hs hc hstep
  exact ⟨hheard.mails, hheard.outcomes⟩

/-! ## Two runs -/

instance (c : Client) (event : Event) : Decidable (Undisturbed c event) := by
  cases event <;> unfold Undisturbed AnswersOnce <;> infer_instance

def bytes (text : String) : List UInt8 := encode text.toList

/-- New mail in three chunks, and a refresh that is answered in one. -/
def refreshed : List Event :=
  [.data (bytes "* 7 EX"), .data (bytes "ISTS\r"), .data (bytes "\n* 8 EXISTS\r\n"), .refreshTimer, .slept,
    .data (bytes "A0003 OK IDLE terminated\r\nA0004 OK NOOP completed\r\n"), .resumed 0, .data (bytes "+ idling\r\n")]

theorem undisturbed_outcomes_refreshed : ∃ c, Reach (session 2 []) Undisturbed c ∧ c.newMails = 2 ∧
    c.newMails = (ended c.stream).countP existsLine ∧ ∀ command ∈ c.commands, command.outcome = dictated command c.stream := by
  obtain ⟨c, hreach, hmails⟩ : ∃ c, Reach (session 2 []) Undisturbed c ∧ (c.newMails == 2) = true :=
    reach_any refreshed (by decide) (by decide)
  exact ⟨c, hreach, by simpa using hmails, undisturbed_outcomes 2 (by decide) hreach⟩

/-- New mail in the sleep of a refresh, and the answer to its NOOP in two chunks. -/
def interrupted : List Event :=
  [.refreshTimer, .data (bytes "* 7 EXISTS\r\n"), .slept, .data (bytes "A0004 O"),
    .data (bytes "K NOOP completed\r\n"), .timeout 0]

/-- The EXISTS line gives no newMail, and the NOOP times out though the server has answered OK. -/
theorem a_split_answer_is_lost : ∃ c, Reach (session 2 []) Free c ∧ c.newMails = 0 ∧ (ended c.stream).countP existsLine = 1 ∧
    ∃ command ∈ c.commands, command.outcome = some .timedOut ∧
      dictated command c.stream = some (.resolved "A0004 OK NOOP completed".toList) := by
  obtain ⟨c, hreach, hlost⟩ : ∃ c, Reach (session 2 []) Free c ∧
      (c.newMails == 0 && (ended c.stream).countP existsLine == 1 && c.commands.any fun command =>
        command.outcome == some .timedOut &&
          dictated command c.stream == some (.resolved "A0004 OK NOOP completed".toList)) = true :=
    reach_any interrupted (meets_free _ _) (by decide)
  simp only [Bool.and_eq_true, beq_iff_eq, List.any_eq_true] at hlost
  exact ⟨c, hreach, hlost.1.1, hlost.1.2, hlost.2⟩

end FlowHelm.Channels.ImapSession
