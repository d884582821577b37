/-
  FlowHelm.Proxy.CostLog — the token counts the proxy takes from an Anthropic response: the
  buffering in `handleMitmRequest` of mitm-handler.ts, and the parsers of cost-log.ts.

  A response comes in data events. The agent gets all of them; for the entry they are kept as
  long as fewer than 1 MiB were kept before, then decoded as one text and parsed as one JSON
  value or as the lines of an event stream. A count is a number as it was written, and what
  throws gives no entry. The timestamp is left out.

  - `Buffered.data`: what is kept after one more event.
  - `entry_of_what_was_kept`: the entry is that of the events up to 1 MiB, however they come.
-/
import Mathlib.Data.List.Induction
import FlowHelm.Lib.Utf8
import FlowHelm.Proxy.CredentialSchema

namespace FlowHelm.Proxy

open Js

structure CostEntry where
  credential : JsString
  model : JsString
  inputTokens : Json
  outputTokens : Json
  cacheCreationInputTokens : Option Json
  cacheReadInputTokens : Option Json

/-! ## The parsers -/

/-- `typeof value === 'number'`. -/
def number? : Option Json → Option Json
  | some (.num neg digits exp) => some (.num neg digits exp)
  | _ => none

def string? (value : Option Json) : Option JsString := value.bind Json.text?

/-- `if (value)`. -/
def present? (value : Option Json) : Option Json := value.filter Json.truthy

def startsWithBrace (text : List Char) : Bool := ['{'].isPrefixOf (text.dropWhile isWhite)

/-- What is read of the usage so far. -/
structure Usage where
  model : JsString
  inputTokens : Json
  outputTokens : Json
  cacheCreation : Option Json
  cacheRead : Option Json

def Usage.unknown : Usage := ⟨ofString "unknown", .num false 0 0, .num false 0 0, none, none⟩

/-- No entry where nothing was used. -/
def Usage.entry (u : Usage) (credentialName : JsString) : Option CostEntry :=
  if u.inputTokens.truthy = false ∧ u.outputTokens.truthy = false ∧ (present? u.cacheCreation).isNone ∧
    (present? u.cacheRead).isNone then none
  else some ⟨credentialName, u.model, u.inputTokens, u.outputTokens, u.cacheCreation, u.cacheRead⟩

def parseJsonUsage (body : List Char) (credentialName : JsString) : Option CostEntry := do
  let obj ← Json.parse (String.ofList body)
  let usage ← present? (obj.get "usage")
  let unknown := Usage.unknown
  Usage.entry {
    model := (string? (obj.get "model")).getD unknown.model
    inputTokens := (number? (usage.get "input_tokens")).getD unknown.inputTokens
    outputTokens := (number? (usage.get "output_tokens")).getD unknown.outputTokens
    cacheCreation := number? (usage.get "cache_creation_input_tokens")
    cacheRead := number? (usage.get "cache_read_input_tokens") } credentialName

def messageStart (event : Json) (u : Usage) : Usage :=
  match present? (event.get "message") with
  | none => u
  | some message =>
    let u := { u with model := (string? (message.get "model")).getD u.model }
    match present? (message.get "usage") with
    | none => u
    | some usage =>
      { u with
        inputTokens := (number? (usage.get "input_tokens")).getD u.inputTokens
        cacheCreation := (number? (usage.get "cache_creation_input_tokens")).or u.cacheCreation
        cacheRead := (number? (usage.get "cache_read_input_tokens")).or u.cacheRead }

def messageDelta (event : Json) (u : Usage) : Usage :=
  match present? (event.get "usage") with
  | none => u
  | some usage => { u with outputTokens := (number? (usage.get "output_tokens")).getD u.outputTokens }

def eventType (event : Json) (type : String) : Bool := string? (event.get "type") == some (ofString type)

/-- A line that is no event, or is malformed, is skipped. -/
def sseLine (u : Usage) (line : List Char) : Usage :=
  if "data: ".toList.isPrefixOf line && startsWithBrace (line.drop 6) then
    match Json.parse (String.ofList (line.drop 6)) with
    | none => u
    | some event =>
      let u := if eventType event "message_start" then messageStart event u else u
      if eventType event "message_delta" then messageDelta event u else u
  else u

def parseSseUsage (body : List Char) (credentialName : JsString) : Option CostEntry :=
  ((body.splitOn '\n').foldl sseLine Usage.unknown).entry credentialName

def parseAnthropicUsage (body : List Char) (credentialName : JsString) : Option CostEntry :=
  if startsWithBrace body then parseJsonUsage body credentialName else parseSseUsage body credentialName

/-! ## The buffer -/

def maxCostBody : Nat := 1024 * 1024

structure Buffering where
  /-- What the agent was sent. -/
  written : List UInt8
  chunks : List (List UInt8)
  totalSize : Nat

def Buffering.start : Buffering := ⟨[], [], 0⟩

/-- `proxyRes.on('data', ...)`. -/
def Buffering.data (b : Buffering) (chunk : List UInt8) : Buffering :=
  let b := { b with written := b.written ++ chunk }
  if b.totalSize < maxCostBody then { b with chunks := b.chunks ++ [chunk], totalSize := b.totalSize + chunk.length } else b

def buffer (events : List (List UInt8)) : Buffering := events.foldl Buffering.data .start

def shouldTrackCost (costLog : Bool) (credential : CredentialRule) : Prop :=
  costLog = true ∧ ofString "anthropic" <:+: credential.hostPattern

instance (costLog : Bool) (credential : CredentialRule) : Decidable (shouldTrackCost costLog credential) :=
  inferInstanceAs (Decidable (_ ∧ _))

/-- What is logged at the response's end; a response without a status counts as 502. -/
def costEntry (costLog : Bool) (credential : CredentialRule) (statusCode : Option Nat) (events : List (List UInt8)) :
    Option CostEntry :=
  let statusCode := statusCode.getD 502
  if shouldTrackCost costLog credential ∧ 200 ≤ statusCode ∧ statusCode < 300 then
    parseAnthropicUsage (Utf8.decode (buffer events).chunks.flatten) credential.name
  else none

/-! ## What is kept -/

/-- `n` events are kept: before each there was room, and after them there is none or no more come. -/
structure KeptTo (events : List (List UInt8)) (n : Nat) : Prop where
  le : n ≤ events.length
  room : ∀ k < n, (events.take k).flatten.length < maxCostBody
  full : n < events.length → maxCostBody ≤ (events.take n).flatten.length

structure Buffered (events : List (List UInt8)) (b : Buffering) : Prop where
  written : b.written = events.flatten
  size : b.totalSize = b.chunks.flatten.length
  kept : ∃ n, KeptTo events n ∧ b.chunks = events.take n

theorem Buffered.data {events : List (List UInt8)} {b : Buffering} (h : Buffered events b) (chunk : List UInt8) :
    Buffered (events ++ [chunk]) (b.data chunk) := by
  obtain ⟨n, hn, hchunks⟩ := h.kept
  have hsize := h.size
  rw [hchunks] at hsize
  have hbefore : ∀ k ≤ n, (events ++ [chunk]).take k = events.take k := fun k hk => List.take_append_of_le_length (hk.trans hn.le)
  have hwritten : b.written ++ chunk = (events ++ [chunk]).flatten := by simp [h.written]
  unfold Buffering.data
  dsimp only
  split
  case isTrue hroom =>
    have hall : n = events.length := by
      by_contra hne
      have hfull := hn.full (by have := hn.le; omega)
      omega
    refine ⟨hwritten, by simp [h.size], n + 1, ⟨by simp [hall], fun k hk => ?_, ?_⟩, ?_⟩
    · rw [hbefore k (by omega)]
      obtain rfl | hlt : k = n ∨ k < n := by omega
      · rwa [← hsize]
      · exact hn.room k hlt
    · simp [hall]
    · rw [hchunks, hall, List.take_length, List.take_of_length_le (by simp)]
  case isFalse hfull =>
    refine ⟨hwritten, h.size, n, ⟨by simp; have := hn.le; omega, fun k hk => ?_, fun _ => ?_⟩, ?_⟩
    · rw [hbefore k hk.le]
      exact hn.room k hk
    · rw [hbefore n (le_refl n)]
      omega
    · rw [hbefore n (le_refl n)]
      exact hchunks

theorem buffered (events : List (List UInt8)) : Buffered events (buffer events) := by
  induction events using List.reverseRecOn with
  | nil => exact ⟨rfl, rfl, 0, ⟨le_refl 0, nofun, nofun⟩, rfl⟩
  | append_singleton events chunk ih =>
    rw [buffer, List.foldl_append]
    exact ih.data chunk

/-- Where no bytes come once there is no room, all are kept. -/
theorem kept_whole {events : List (List UInt8)}
    (h : ∀ k, maxCostBody ≤ (events.take k).flatten.length → (events.drop k).flatten = []) :
    (buffer events).chunks.flatten = events.flatten := by
  obtain ⟨n, hn, hchunks⟩ := (buffered events).kept
  rw [hchunks]
  by_cases hlast : n < events.length
  · have hrest := h n (hn.full hlast)
    conv_rhs => rw [← List.take_append_drop n events, List.flatten_append, hrest, List.append_nil]
  · rw [List.take_of_length_le (by omega)]

theorem small_kept_whole {events : List (List UInt8)} (h : events.flatten.length ≤ maxCostBody) :
    (buffer events).chunks.flatten = events.flatten := by
  refine kept_whole fun k hk => ?_
  rw [← List.take_append_drop k events, List.flatten_append, List.length_append] at h
  exact List.eq_nil_of_length_eq_zero (by omega)

/-! ## The entry -/

theorem costEntry_ok {costLog : Bool} {credential : CredentialRule} {statusCode : Nat}
    (htracked : shouldTrackCost costLog credential)
    (hok : 200 ≤ statusCode ∧ statusCode < 300) (events : List (List UInt8)) :
    costEntry costLog credential (some statusCode) events =
      parseAnthropicUsage (Utf8.decode (buffer events).chunks.flatten) credential.name := if_pos ⟨htracked, hok⟩

/-- For a tracked response the entry is that of the events kept; where the body is no more than
    1 MiB, or none of it comes once there is no room, that is the whole body. -/
theorem entry_of_what_was_kept (costLog : Bool) (credential : CredentialRule) (statusCode : Nat)
    (htracked : shouldTrackCost costLog credential) (hok : 200 ≤ statusCode ∧ statusCode < 300) :
    (∀ events, ∃ n, KeptTo events n ∧ costEntry costLog credential (some statusCode) events =
      parseAnthropicUsage (Utf8.decode (events.take n).flatten) credential.name) ∧
    (∀ events events' : List (List UInt8), events'.flatten = events.flatten → events.flatten.length ≤ maxCostBody →
      costEntry costLog credential (some statusCode) events' = costEntry costLog credential (some statusCode) events ∧
      costEntry costLog credential (some statusCode) events = parseAnthropicUsage (Utf8.decode events.flatten) credential.name) ∧
    ∀ events : List (List UInt8), (∀ k, maxCostBody ≤ (events.take k).flatten.length → (events.drop k).flatten = []) →
      costEntry costLog credential (some statusCode) events =
          parseAnthropicUsage (Utf8.decode events.flatten) credential.name := by
  have hentry := costEntry_ok htracked hok
  refine ⟨fun events => ?_, fun events events' hsame hsmall => ?_, fun events hroom => ?_⟩
  · obtain ⟨n, hn, hchunks⟩ := (buffered events).kept
    exact ⟨n, hn, by rw [hentry, hchunks]⟩
  · rw [hentry, hentry, small_kept_whole hsmall, small_kept_whole (hsame ▸ hsmall), hsame]
    exact ⟨rfl, rfl⟩
  · rw [hentry, kept_whole hroom]

def claude : CredentialRule where
  name := ofString "claude"
  hostPattern := ofString "api.anthropic.com"
  header := ofString "x-api-key"
  value := ofString "sk"
  values := none
  rateLimit := none
  rules := none
  expiresAt := none
  credentialMethod := none
  valid := by decide

def startEvent : List Char :=
  "data: \x7b\"type\":\"message_start\",\"message\":\x7b\"model\":\"m\",\"usage\":\x7b\"input_tokens\":5\x7d\x7d\x7d".toList

def deltaEvent : List Char := "data: \x7b\"type\":\"message_delta\",\"usage\":\x7b\"output_tokens\":7\x7d\x7d".toList

/-- A response cut within both of its events. -/
theorem two_events_cut : costEntry true claude (some 200)
      [Utf8.encode (startEvent.take 20), Utf8.encode (startEvent.drop 20 ++ '\n' :: deltaEvent.take 30),
        Utf8.encode (deltaEvent.drop 30)] =
    parseAnthropicUsage (Utf8.decode (Utf8.encode (startEvent ++ '\n' :: deltaEvent))) claude.name := by
  have hwhole : Utf8.encode (startEvent ++ '\n' :: deltaEvent) = [Utf8.encode (startEvent.take 20),
      Utf8.encode (startEvent.drop 20 ++ '\n' :: deltaEvent.take 30), Utf8.encode (deltaEvent.drop 30)].flatten := by
        decide +kernel
  rw [hwhole]
  exact ((entry_of_what_was_kept true claude 200 (by decide +kernel) (by decide)).2.1 _ _ rfl (by decide +kernel)).2

/-! ## Past 1 MiB -/

/-- Empty lines are skipped. -/
theorem newlines_skipped (u : Usage) (k : Nat) (text : List Char) :
    ((List.replicate k '\n' ++ text).splitOn '\n').foldl sseLine u = (text.splitOn '\n').foldl sseLine u := by
  induction k with
  | zero => rfl
  | succ k ih =>
    have hsplit : ('\n' :: (List.replicate k '\n' ++ text)).splitOn '\n' =
        ([] : List Char).splitOn '\n' ++ (List.replicate k '\n' ++ text).splitOn '\n' := List.splitOn_append_cons_self [] _
    rw [List.replicate_succ, List.cons_append, hsplit, List.foldl_append, ← ih]
    rfl

theorem parse_padded (k : Nat) (text : List Char) (credentialName : JsString) :
    parseAnthropicUsage (startEvent ++ '\n' :: (List.replicate k '\n' ++ text)) credentialName =
      ((text.splitOn '\n').foldl sseLine ((startEvent.splitOn '\n').foldl sseLine Usage.unknown)).entry credentialName := by
  have hhead : startEvent = 'd' :: startEvent.tail := by decide
  have hstream : startsWithBrace (startEvent ++ '\n' :: (List.replicate k '\n' ++ text)) = false := by
    rw [hhead]
    rfl
  simp only [parseAnthropicUsage, hstream, Bool.false_eq_true, if_false, parseSseUsage, List.splitOn_append_cons_self,
    List.foldl_append,
    newlines_skipped]

theorem last_kept {events : List (List UInt8)} {chunk : List UInt8} (h : events.flatten.length < maxCostBody) :
    (buffer (events ++ [chunk])).chunks.flatten = (events ++ [chunk]).flatten := by
  refine kept_whole fun k hk => ?_
  by_cases hlast : k ≤ events.length
  · rw [List.take_append_of_le_length hlast] at hk
    rw [← List.take_append_drop k events, List.flatten_append, List.length_append] at h
    omega
  · rw [List.drop_of_length_le (by simp; omega)]
    rfl

theorem last_dropped {events : List (List UInt8)} (chunk : List UInt8) (hwhole : (buffer events).chunks.flatten = events.flatten)
    (h : maxCostBody ≤ events.flatten.length) : (buffer (events ++ [chunk])).chunks.flatten = events.flatten := by
  have hfull : ¬ (buffer events).totalSize < maxCostBody := by
    rw [(buffered events).size, hwhole]
    omega
  have hsame : ((buffer events).data chunk).chunks = (buffer events).chunks := by simp [Buffering.data, hfull]
  rw [buffer, List.foldl_append]
  exact (congrArg List.flatten hsame).trans hwhole

def firstLine : List UInt8 := Utf8.encode (startEvent ++ ['\n'])

/-- The first line, and `n` events of newlines. -/
def padded (size n : Nat) : List (List UInt8) := firstLine :: List.replicate n (List.replicate size 10)

theorem padded_succ (size n : Nat) : padded size (n + 1) = padded size n ++ [List.replicate size 10] := by
  simp [padded, List.replicate_succ']

/-- The last of them may come with what follows. -/
theorem flatten_padded_succ (size n : Nat) (chunk : List UInt8) :
    (padded size (n + 1) ++ [chunk]).flatten = (padded size n ++ [List.replicate size 10 ++ chunk]).flatten := by
  simp [padded_succ]

theorem flatten_padded (size n : Nat) :
    (padded size n).flatten = Utf8.encode (startEvent ++ '\n' :: List.replicate (n * size) '\n') := by
  have hnewline : Utf8.encodeChar '\n' = [10] := by decide
  simp [padded, firstLine, Utf8.encode, List.flatMap_replicate, hnewline]

theorem length_flatten_padded (size n : Nat) : (padded size n).flatten.length = firstLine.length + n * size := by simp [padded]

theorem room_before_63 : (padded 16384 63).flatten.length < maxCostBody := by
  have hshort : firstLine.length < 16384 := by decide
  rw [length_flatten_padded]
  calc firstLine.length + 63 * 16384 < 16384 + 63 * 16384 := Nat.add_lt_add_right hshort _
    _ = maxCostBody := rfl

theorem full_after_64 : maxCostBody ≤ (padded 16384 64).flatten.length := by
  rw [length_flatten_padded]
  exact Nat.le_add_left _ _

/-- Each event but the last 16 KiB at most, the output is lost where it comes once 1 MiB is kept,
    and counted where it comes with the newlines before it. -/
theorem a_late_event_is_lost :
    let late := padded 16384 64 ++ [Utf8.encode deltaEvent]
    let early := padded 16384 63 ++ [List.replicate 16384 10 ++ Utf8.encode deltaEvent]
    late.flatten = early.flatten ∧
      (costEntry true claude (some 200) late).map (·.outputTokens.truthy) = some false ∧
      (costEntry true claude (some 200) early).map (·.outputTokens.truthy) = some true := by
  intro late early
  have htracked : shouldTrackCost true claude := by decide +kernel
  have hsame : late.flatten = early.flatten := flatten_padded_succ 16384 63 _
  have hwhole : (buffer (padded 16384 64)).chunks.flatten = (padded 16384 64).flatten := by
    rw [padded_succ 16384 63]
    exact last_kept room_before_63
  refine ⟨hsame, ?_, ?_⟩
  · have hlate := parse_padded (64 * 16384) [] claude.name
    rw [List.append_nil] at hlate
    rw [costEntry_ok htracked (by decide) late, last_dropped _ hwhole full_after_64, flatten_padded, Utf8.decode_encode, hlate]
    decide +kernel
  · have hearly := parse_padded (64 * 16384) deltaEvent claude.name
    rw [costEntry_ok htracked (by decide) early, last_kept room_before_63, ← hsame, List.flatten_append, flatten_padded,
      List.flatten_singleton, ← Utf8.encode_append, Utf8.decode_encode, List.append_assoc, List.cons_append, hearly]
    decide +kernel

end FlowHelm.Proxy
