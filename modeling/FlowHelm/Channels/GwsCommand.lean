/-
  FlowHelm.Channels.GwsCommand — `parseCommandArgs` of channel-server.ts: the command of a
  `POST /gws` as the arguments `execFile` starts gws with.

  The loop takes one UTF-16 unit at a time. Quotes are dropped, and an argument is pushed when
  a space outside quotes, or the end, finds `current` with something in it; so an argument with
  nothing in its quotes is none.

  - `feed_quoted`: a quoted argument is read as it stands.
  - `parse_quoted`: what is read of a list of quoted arguments.
  - `quoting_round_trips`: all of them, just if none is empty.
  - `an_empty_argument_is_lost`: the subject of a mail, and what the next option then is.
-/
import FlowHelm.Lib.Js

namespace FlowHelm.Channels.GwsCommand

open Js

def singleQuote : UInt16 := 0x27

def doubleQuote : UInt16 := 0x22

def space : UInt16 := 0x20

/-- The variables of the loop. -/
structure Scan where
  args : List JsString
  current : JsString
  inSingle : Bool
  inDouble : Bool
  deriving DecidableEq

def Scan.start : Scan := ⟨[], [], false, false⟩

/-- `if (current.length > 0) args.push(current)`. -/
def Scan.flush (s : Scan) : List JsString := if 0 < s.current.length then s.args ++ [s.current] else s.args

def Scan.feed (s : Scan) (ch : UInt16) : Scan :=
  if ch = singleQuote ∧ s.inDouble = false then { s with inSingle := !s.inSingle }
  else if ch = doubleQuote ∧ s.inSingle = false then { s with inDouble := !s.inDouble }
  else if ch = space ∧ s.inSingle = false ∧ s.inDouble = false then { s with args := s.flush, current := [] }
  else { s with current := s.current ++ [ch] }

def parseCommandArgs (command : JsString) : List JsString := (command.foldl Scan.feed .start).flush

example : parseCommandArgs (ofString "gmail +send --subject \"Hello World\" --body 'Hi there'") =
    ["gmail", "+send", "--subject", "Hello World", "--body", "Hi there"].map ofString := by decide

/-! ## Quoted arguments -/

/-- An argument in single quotes. -/
def quoted (arg : JsString) : JsString := singleQuote :: (arg ++ [singleQuote])

def commandOf (args : List JsString) : JsString := join [space] (args.map quoted)

/-- Within single quotes nothing but a single quote has a meaning. -/
theorem feed_within {arg : JsString} (h : singleQuote ∉ arg) (args : List JsString) (current : JsString) :
    arg.foldl Scan.feed ⟨args, current, true, false⟩ = ⟨args, current ++ arg, true, false⟩ := by
  induction arg generalizing current with
  | nil => simp
  | cons ch arg ih =>
    obtain ⟨hch, harg⟩ : singleQuote ≠ ch ∧ singleQuote ∉ arg := by simpa using h
    have hfeed : Scan.feed ⟨args, current, true, false⟩ ch = ⟨args, current ++ [ch], true, false⟩ := by
      simp [Scan.feed, hch.symm]
    rw [List.foldl_cons, hfeed, ih harg, List.append_assoc, List.singleton_append]

theorem feed_quoted {arg : JsString} (h : singleQuote ∉ arg) (args : List JsString) :
    (quoted arg).foldl Scan.feed ⟨args, [], false, false⟩ = ⟨args, arg, false, false⟩ := by
  have hopen : Scan.feed ⟨args, [], false, false⟩ singleQuote = ⟨args, [], true, false⟩ := by simp [Scan.feed]
  have hclose : Scan.feed ⟨args, arg, true, false⟩ singleQuote = ⟨args, arg, false, false⟩ := by simp [Scan.feed]
  rw [quoted, List.foldl_cons, hopen, List.foldl_append, feed_within h, List.nil_append, List.foldl_cons, List.foldl_nil, hclose]

theorem feed_space (args : List JsString) (current : JsString) :
    Scan.feed ⟨args, current, false, false⟩ space = ⟨Scan.flush ⟨args, current, false, false⟩, [], false, false⟩ := by
  simp [Scan.feed, space, singleQuote, doubleQuote]

theorem flush_eq (args : List JsString) (current : JsString) (inSingle inDouble : Bool) :
    Scan.flush ⟨args, current, inSingle, inDouble⟩ = args ++ [current].filter (· ≠ []) := by
  cases current <;> simp [Scan.flush]

/-- The arguments come back without the empty ones. -/
theorem parse_quoted {args : List JsString} (h : ∀ arg ∈ args, singleQuote ∉ arg) :
    parseCommandArgs (commandOf args) = args.filter (· ≠ []) := by
  suffices hfrom : ∀ done : List JsString,
      ((commandOf args).foldl Scan.feed ⟨done, [], false, false⟩).flush = done ++ args.filter (· ≠ []) by
    exact (hfrom []).trans (List.nil_append _)
  induction args with
  | nil => simp [commandOf, join, Scan.flush]
  | cons arg args ih =>
    intro done
    have harg := feed_quoted (h arg (.head _)) done
    cases args with
    | nil =>
      show ((quoted arg).foldl Scan.feed _).flush = _
      rw [harg, flush_eq]
    | cons next more =>
      show ((quoted arg ++ [space] ++ commandOf (next :: more)).foldl Scan.feed _).flush = _
      rw [List.foldl_append, List.foldl_append, harg, List.foldl_cons, List.foldl_nil, feed_space,
        ih (fun a ha => h a (.tail _ ha)), flush_eq, List.append_assoc, ← List.filter_append, List.singleton_append]

/-- Arguments without single quotes come back as they were just if none is empty. -/
theorem quoting_round_trips (args : List JsString) (h : ∀ arg ∈ args, singleQuote ∉ arg) :
    parseCommandArgs (commandOf args) = args ↔ [] ∉ args := by
  rw [parse_quoted h, List.filter_eq_self]
  constructor
  · intro hall hempty
    exact absurd rfl (of_decide_eq_true (hall [] hempty))
  · intro hempty arg harg
    exact decide_eq_true fun hnil => hempty (hnil ▸ harg)

/-- Spaces, double quotes and a newline. -/
theorem a_body_round_trips :
    parseCommandArgs (commandOf [ofString "--body", ofString "say \"hi\"\n to all"]) =
        [ofString "--body", ofString "say \"hi\"\n to all"] :=
  (quoting_round_trips [ofString "--body", ofString "say \"hi\"\n to all"] (by decide)).mpr (by decide)

theorem an_empty_argument_is_lost :
    (∀ arg ∈ [ofString "--subject", [], ofString "--body", ofString "Hi"], singleQuote ∉ arg) ∧
      parseCommandArgs (commandOf [ofString "--subject", [], ofString "--body", ofString "Hi"]) =
        [ofString "--subject", ofString "--body", ofString "Hi"] ∧
      ¬∀ args : List JsString, (∀ arg ∈ args, singleQuote ∉ arg) → parseCommandArgs (commandOf args) = args := by
  refine ⟨by decide, by decide, fun hall => ?_⟩
  exact absurd (hall [[]] (by decide)) (by decide)

end FlowHelm.Channels.GwsCommand
