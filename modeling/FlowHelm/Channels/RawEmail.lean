/-
  FlowHelm.Channels.RawEmail — the mail the Gmail adapter sends (`decodeBase64Url`,
  `encodeBase64Url` and `buildRawEmail` of src/channels/gmail/gmail-client.ts).

  The values go between the header names and CRLF as they are.

  - `decode_encode`: base64url is read as it was written.
  - `raw_email_reads`: the mail is read as the fields and the body given just if no CRLF is in
    a value.
  - `a_subject_adds_a_field`: a subject with a line of its own.
-/
import FlowHelm.Lib.Buffer
import FlowHelm.Lib.MailText

namespace FlowHelm.Channels.Gmail

open Js Buffer MailText

/-! ## Base64url -/

/-- `s.replace(/x/g, 'y')` for two units. -/
def replaceUnit (x y : UInt16) (s : JsString) : JsString := s.map fun u => if u = x then y else u

/-- `s.replace(/=+$/, '')`. -/
def stripPadding (s : JsString) : JsString := (s.reverse.dropWhile (· = padding)).reverse

def decodeBase64Url (data : JsString) : JsString := toUtf8 (fromBase64 (replaceUnit 0x5F 0x2F (replaceUnit 0x2D 0x2B data)))

def encodeBase64Url (data : JsString) : JsString :=
  stripPadding (replaceUnit 0x2F 0x5F (replaceUnit 0x2B 0x2D (toBase64 (fromUtf8 data))))

theorem stripPadding_append {s : JsString} (h : ∀ u ∈ s, u ≠ padding) (n : Nat) :
    stripPadding (s ++ List.replicate n padding) = s := by
  have hpad : ∀ u ∈ List.replicate n padding, decide (u = padding) = true := by
    intro u hu
    simpa using List.eq_of_mem_replicate hu
  have hself : s.reverse.dropWhile (· = padding) = s.reverse := by
    cases hs : s.reverse with
    | nil => rfl
    | cons u t =>
      have hu : u ≠ padding := h u (List.mem_reverse.mp (hs ▸ List.mem_cons_self ..))
      simp [hu]
  rw [stripPadding, List.reverse_append, List.reverse_replicate, List.dropWhile_append_of_pos hpad, hself, List.reverse_reverse]

/-- The units of the URL's alphabet, and back. -/
theorem replaceUnit_digit {n : Nat} (h : n < 64) :
    (replaceUnit 0x2F 0x5F (replaceUnit 0x2B 0x2D [digit n])).all (· != padding) = true ∧
      replaceUnit 0x5F 0x2F (replaceUnit 0x2D 0x2B (replaceUnit 0x2F 0x5F (replaceUnit 0x2B 0x2D [digit n]))) = [digit n] := by
  have hall : ∀ n < 64, (replaceUnit 0x2F 0x5F (replaceUnit 0x2B 0x2D [digit n])).all (· != padding) = true ∧
      replaceUnit 0x5F 0x2F (replaceUnit 0x2D 0x2B (replaceUnit 0x2F 0x5F (replaceUnit 0x2B 0x2D [digit n]))) = [digit n] := by
        decide
  exact hall n h

theorem replaceUnit_append (x y : UInt16) (s t : JsString) : replaceUnit x y (s ++ t) = replaceUnit x y s ++ replaceUnit x y t :=
  List.map_append

theorem replaceUnit_digits {ns : List Nat} (h : ∀ n ∈ ns, n < 64) :
    (∀ u ∈ replaceUnit 0x2F 0x5F (replaceUnit 0x2B 0x2D (ns.map digit)), u ≠ padding) ∧
      replaceUnit 0x5F 0x2F (replaceUnit 0x2D 0x2B (replaceUnit 0x2F 0x5F (replaceUnit 0x2B 0x2D (ns.map digit)))) =
          ns.map digit := by
  induction ns with
  | nil => exact ⟨by simp [replaceUnit], rfl⟩
  | cons n ns ih =>
    obtain ⟨hn, hns⟩ := List.forall_mem_cons.mp h
    obtain ⟨hpad, hback⟩ := replaceUnit_digit hn
    rw [List.map_cons, ← List.singleton_append]
    simp only [replaceUnit_append]
    constructor
    · intro u hu
      rcases List.mem_append.mp hu with hu | hu
      · simpa using List.all_eq_true.mp hpad u hu
      · exact (ih hns).1 u hu
    · rw [hback, (ih hns).2]

theorem replaceUnit_padding (n : Nat) :
    replaceUnit 0x2F 0x5F (replaceUnit 0x2B 0x2D (List.replicate n padding)) = List.replicate n padding := by
  simp [replaceUnit, padding]

theorem decode_encode {data : JsString} (h : isWellFormed data = true) : decodeBase64Url (encodeBase64Url data) = data := by
  obtain ⟨hpad, hback⟩ := replaceUnit_digits (digits_lt (fromUtf8 data))
  have hencode : encodeBase64Url data = replaceUnit 0x2F 0x5F (replaceUnit 0x2B 0x2D ((digits (fromUtf8 data)).map digit)) := by
    rw [encodeBase64Url, toBase64, replaceUnit_append, replaceUnit_append, replaceUnit_padding, stripPadding_append hpad]
  rw [decodeBase64Url, hencode, hback, fromBase64_digits, toUtf8_fromUtf8 h]

/-! ## The mail -/

/-- The options, with `from` and `to` as `sender` and `recipient`. -/
structure MailOptions where
  sender : JsString
  recipient : JsString
  subject : JsString
  body : JsString
  inReplyTo : Option JsString
  references : Option JsString

/-- A value that is not given, or empty, is falsy. -/
def given : Option JsString → List JsString
  | some s => if s = [] then [] else [s]
  | none => []

def headers (options : MailOptions) : List JsString :=
  [ofString "From: " ++ options.sender,
    ofString "To: " ++ options.recipient,
    ofString "Subject: " ++ options.subject,
    ofString "MIME-Version: 1.0",
    ofString "Content-Type: text/plain; charset=utf-8"] ++
    (given options.inReplyTo).map (ofString "In-Reply-To: " ++ ·) ++
    (given options.references).map (ofString "References: " ++ ·)

def rawText (options : MailOptions) : JsString :=
  join (ofString "\r\n") (headers options) ++ ofString "\r\n\r\n" ++ options.body

def buildRawEmail (options : MailOptions) : JsString := encodeBase64Url (rawText options)

structure MailOptions.WellFormed (options : MailOptions) : Prop where
  sender : isWellFormed options.sender = true
  recipient : isWellFormed options.recipient = true
  subject : isWellFormed options.subject = true
  body : isWellFormed options.body = true
  inReplyTo : ∀ value ∈ options.inReplyTo, isWellFormed value = true
  references : ∀ value ∈ options.references, isWellFormed value = true

/-- No value has CRLF in it. -/
structure MailOptions.Unbroken (options : MailOptions) : Prop where
  sender : MailText.Unbroken options.sender
  recipient : MailText.Unbroken options.recipient
  subject : MailText.Unbroken options.subject
  inReplyTo : ∀ value ∈ options.inReplyTo, MailText.Unbroken value
  references : ∀ value ∈ options.references, MailText.Unbroken value

/-- The fields that are asked for. -/
def fields (options : MailOptions) : List Field :=
  [(ofString "From", options.sender),
    (ofString "To", options.recipient),
    (ofString "Subject", options.subject),
    (ofString "MIME-Version", ofString "1.0"),
    (ofString "Content-Type", ofString "text/plain; charset=utf-8")] ++
    (given options.inReplyTo).map (ofString "In-Reply-To", ·) ++
    (given options.references).map (ofString "References", ·)

variable {options : MailOptions}

theorem mem_given {value : Option JsString} {s : JsString} : s ∈ given value ↔ value = some s ∧ s ≠ [] := by
  unfold given
  split
  · rename_i t
    by_cases ht : t = []
    · rw [if_pos ht, ht]
      constructor
      · intro h
        cases h
      · intro h
        exact absurd (Option.some.inj h.1).symm h.2
    · rw [if_neg ht]
      constructor
      · intro h
        obtain rfl := List.mem_singleton.mp h
        exact ⟨rfl, ht⟩
      · intro h
        exact List.mem_singleton.mpr (Option.some.inj h.1).symm
  · simp

theorem headers_eq (options : MailOptions) : headers options = (fields options).map line := by
  have hname : ∀ (name : JsString) (more : Option JsString),
      (given more).map (name ++ [colon, blank] ++ ·) = ((given more).map (name, ·)).map line := by
    intro name more
    simp [line]
  have hreply : ofString "In-Reply-To: " = ofString "In-Reply-To" ++ [colon, blank] := by decide
  have hreferences : ofString "References: " = ofString "References" ++ [colon, blank] := by decide
  unfold headers fields
  rw [List.map_append, List.map_append, hreply, hreferences, hname, hname]
  rfl

theorem join_lines {sep : JsString} {hs : List JsString} (h : hs ≠ []) (rest : JsString) :
    join sep hs ++ (sep ++ rest) = hs.flatMap (· ++ sep) ++ rest := by
  induction hs with
  | nil => exact absurd rfl h
  | cons s hs ih =>
    cases hs with
    | nil => simp [join]
    | cons t hs =>
      rw [join, List.append_assoc, ih (List.cons_ne_nil t hs)]
      simp

theorem rawText_eq (options : MailOptions) : rawText options = mail ((fields options).map line) options.body := by
  have hend : ofString "\r\n\r\n" = ofString "\r\n" ++ [cr, lf] := by decide
  have hcrlf : ofString "\r\n" = [cr, lf] := by decide
  rw [rawText, hend, List.append_assoc, List.append_assoc, join_lines (by simp [headers]), headers_eq, hcrlf]
  rfl

theorem fields_plain : ∀ f ∈ fields options, Plain f.1 := by
  have hnames : ∀ name ∈ ["From", "To", "Subject", "MIME-Version", "Content-Type", "In-Reply-To", "References"].map ofString,
      Plain name := by
    intro name hname
    have hall : ∀ name ∈ ["From", "To", "Subject", "MIME-Version", "Content-Type", "In-Reply-To", "References"].map ofString,
        colon ∉ name ∧ lf ∉ name ∧ goesOn name = false ∧ name ≠ [] := by decide
    obtain ⟨hcolon, hlf, hfirst, hne⟩ := hall name hname
    exact ⟨hcolon, hlf, hfirst, hne⟩
  intro f hf
  apply hnames
  simp only [fields, List.mem_append, List.mem_map, List.mem_cons, List.not_mem_nil, or_false] at hf
  rcases hf with ((rfl | rfl | rfl | rfl | rfl) | ⟨_, -, rfl⟩) | ⟨_, -, rfl⟩ <;> simp

theorem fields_unbroken : (∀ f ∈ fields options, MailText.Unbroken f.2) ↔ options.Unbroken := by
  have hempty : MailText.Unbroken [] := Crlf.unbroken_nil
  have hgiven : ∀ value : Option JsString, (∀ s ∈ given value, MailText.Unbroken s) ↔ ∀ s ∈ value, MailText.Unbroken s := by
    intro value
    constructor
    · intro h s hs
      by_cases hnil : s = []
      · rwa [hnil]
      · exact h s (mem_given.mpr ⟨hs, hnil⟩)
    · intro h s hs
      exact h s (mem_given.mp hs).1
  have hfixed : MailText.Unbroken (ofString "1.0") ∧ MailText.Unbroken (ofString "text/plain; charset=utf-8") := by decide
  simp only [fields, List.forall_mem_append, List.forall_mem_map, List.forall_mem_cons, hgiven]
  constructor
  · intro h
    obtain ⟨⟨⟨hsender, hto, hsubject, -⟩, hreply⟩, hreferences⟩ := h
    exact ⟨hsender, hto, hsubject, hreply, hreferences⟩
  · intro h
    exact ⟨⟨⟨h.sender, h.recipient, h.subject, hfixed.1, hfixed.2, List.forall_mem_nil _⟩, h.inReplyTo⟩, h.references⟩

theorem rawText_wellFormed (h : options.WellFormed) : isWellFormed (rawText options) = true := by
  have hgiven : ∀ {value : Option JsString} (name : String), isWellFormed (ofString name) = true →
      (∀ s ∈ value, isWellFormed s = true) → ∀ s ∈ (given value).map (ofString name ++ ·), isWellFormed s = true := by
    intro value name hname hvalue s hs
    obtain ⟨t, ht, rfl⟩ := List.mem_map.mp hs
    exact isWellFormed_append hname (hvalue t (mem_given.mp ht).1)
  have hheaders : ∀ s ∈ headers options, isWellFormed s = true := by
    unfold headers
    simp only [List.forall_mem_append, List.forall_mem_cons]
    refine ⟨⟨⟨?_, ?_, ?_, by decide, by decide, List.forall_mem_nil _⟩, ?_⟩, ?_⟩
    · exact isWellFormed_append (by decide) h.sender
    · exact isWellFormed_append (by decide) h.recipient
    · exact isWellFormed_append (by decide) h.subject
    · exact hgiven _ (by decide) h.inReplyTo
    · exact hgiven _ (by decide) h.references
  exact isWellFormed_append (isWellFormed_append (isWellFormed_join (by decide) hheaders) (by decide)) h.body

/-! ## What is read of it -/

/-- The fields and the body are read just if no value has CRLF in it. -/
theorem raw_email_reads (h : options.WellFormed) :
    read (decodeBase64Url (buildRawEmail options)) = some (fields options, options.body) ↔ options.Unbroken := by
  rw [buildRawEmail, decode_encode (rawText_wellFormed h)]
  constructor
  · intro hread
    exact fields_unbroken.mp (read_unbroken hread)
  · intro hunbroken
    rw [rawText_eq]
    exact read_mail fields_plain (fields_unbroken.mpr hunbroken) _

def greeting : MailOptions :=
  { sender := ofString "me@example.com"
    recipient := ofString "you@example.com"
    subject := ofString "Grüße\n😀"
    body := ofString "Hallo\r\n\r\n.\r\n"
    inReplyTo := some (ofString "<1@example.com>")
    references := some [] }

theorem greeting_wellFormed : greeting.WellFormed :=
  ⟨by decide, by decide, by decide, by decide, by decide, by decide⟩

theorem raw_email_reads_greeting :
    read (decodeBase64Url (buildRawEmail greeting)) = some (fields greeting, greeting.body) ↔ greeting.Unbroken :=
  raw_email_reads greeting_wellFormed

/-- A subject taken from a mail, with a line of its own. -/
def injected : MailOptions := { greeting with subject := ofString "Re: hi\r\nBcc: eve@example.com" }

/-- A field is sent that was not asked for. -/
theorem a_subject_adds_a_field :
    injected.WellFormed ∧ read (decodeBase64Url (buildRawEmail injected)) ≠ some (fields injected, injected.body) ∧
      (read (decodeBase64Url (buildRawEmail injected))).any
        (·.1.contains (ofString "Bcc", ofString "eve@example.com")) = true := by
  have hwell : injected.WellFormed := ⟨by decide, by decide, by decide, by decide, by decide, by decide⟩
  have hbroken : ¬injected.Unbroken := fun h => absurd h.subject (by decide)
  rw [buildRawEmail, decode_encode (rawText_wellFormed hwell)]
  exact ⟨hwell, fun hread => hbroken (fields_unbroken.mp (read_unbroken hread)), by decide⟩

end FlowHelm.Channels.Gmail
