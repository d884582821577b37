/-
  FlowHelm.Channels.EmailFilter — which emails reach the agent
  (src/channels/gmail/filter.ts, and what `parseGmailMessage` of gmail-client.ts hands it).

  The sender rules read the whole From header, `Display Name <address>`, not the address in it.
  `new RegExp(pattern, 'i')` is a parameter, `none` where it throws.

  - `passed_iff`: what an email passes.
  - `addressOnly_iff`: when the display name changes no sender rule's outcome.
  - `AddressOnly.passed`: then it changes no email's fate, were all patterns anchored.
  - `display_name_decides`: a stranger who takes a contact's address as a name, and a contact
    with a name.
-/
import FlowHelm.Lib.Glob
import FlowHelm.Lib.JsCase
import FlowHelm.Lib.JsFormat
import FlowHelm.Lib.JsNumber

namespace FlowHelm.Channels.EmailFilter

open Js Glob

structure GmailMessage where
  headers : List (JsString × JsString)
  labelIds : List JsString

structure ParsedEmail where
  fromHeader : JsString
  subject : JsString
  labelIds : List JsString
  isStarred : Bool
  isImportant : Bool
  headers : List (JsString × JsString)

structure EmailFilterRules where
  starredOnly : Bool
  importantContacts : List JsString
  labels : List JsString
  excludeSenders : List JsString
  minImportance : Amount

structure FilterResult where
  passed : Bool
  reason : Option JsString
  importance : Amount

def automatedSenderPatterns : List JsString :=
  ["noreply@", "no-reply@", "no_reply@", "donotreply@", "do-not-reply@", "mailer-daemon@", "postmaster@", "bounce@",
    "bounces@", "notifications@", "notification@", "auto-confirm@", "automailer@"].map ofString

def asterisk : UInt16 := 0x2A

/-- What `.` of a regular expression takes: no line terminator. -/
def isDot (u : UInt16) : Bool := u ∉ [0x0A, 0x0D, 0x2028, 0x2029]

/-! ## Importance -/

/-- `score += points` where `b`. -/
def bump (points : Rat) (b : Bool) (score : Rat) : Rat := if b then toDouble (score + toDouble points) else score

def score (isStarred isImportant personal inbox subject : Bool) : Rat :=
  min (bump (5 / 100) subject (bump (10 / 100) inbox (bump (15 / 100) personal (bump (20 / 100) isImportant
    (bump (30 / 100) isStarred (toDouble (20 / 100))))))) 1

theorem score_amount (isStarred isImportant personal inbox subject : Bool) :
    |score isStarred isImportant personal inbox subject| < 10 ^ 21 := by
  cases isStarred <;> cases isImportant <;> cases personal <;> cases inbox <;> cases subject <;> decide +kernel

def computeImportance (email : ParsedEmail) : Amount :=
  ⟨_, score_amount email.isStarred email.isImportant (ofString "CATEGORY_PERSONAL" ∈ email.labelIds)
    (ofString "INBOX" ∈ email.labelIds ∧ ofString "CATEGORY_PROMOTIONS" ∉ email.labelIds ∧
      ofString "CATEGORY_SOCIAL" ∉ email.labelIds ∧ ofString "CATEGORY_UPDATES" ∉ email.labelIds)
    (0 < email.subject.length)⟩

/-! ## The filter -/

section

variable (m : CaseMapping) (regExp : JsString → Option (JsString → Bool))

def getHeader (headers : List (JsString × JsString)) (name : JsString) : JsString :=
  ((headers.find? fun h => m.toLowerCase h.1 = m.toLowerCase name).map (·.2)).getD []

def parseGmailMessage (msg : GmailMessage) : ParsedEmail where
  fromHeader := getHeader m msg.headers (ofString "From")
  subject := getHeader m msg.headers (ofString "Subject")
  labelIds := msg.labelIds
  isStarred := ofString "STARRED" ∈ msg.labelIds
  isImportant := ofString "IMPORTANT" ∈ msg.labelIds
  -- The last header of a name overwrites the others.
  headers := (msg.headers.map fun h => (m.toLowerCase h.1, h.2)).reverse

/-- `headers[name] ?? ''`. -/
def ParsedEmail.header (email : ParsedEmail) (name : String) : JsString := (email.headers.lookup (ofString name)).getD []

/-- The part of `isAutomatedEmail` that reads the headers. -/
def automatedHeader (email : ParsedEmail) : Option JsString :=
  let autoSubmitted := email.header "auto-submitted"
  let precedence := m.toLowerCase (email.header "precedence")
  if autoSubmitted ≠ [] ∧ autoSubmitted ≠ ofString "no" then some (ofString "Auto-Submitted: " ++ autoSubmitted)
  else if precedence = ofString "bulk" ∨ precedence = ofString "list" ∨ precedence = ofString "junk" then
    some (ofString "Precedence: " ++ precedence)
  else if email.header "x-auto-response-suppress" ≠ [] then some (ofString "X-Auto-Response-Suppress header present")
  else if email.header "list-unsubscribe" ≠ [] then some (ofString "List-Unsubscribe header present (mailing list)")
  else none

/-- The loop over `AUTOMATED_SENDER_PATTERNS`. -/
def automatedSender (sender : JsString) : Option JsString :=
  (automatedSenderPatterns.find? fun pattern => decide (pattern <:+: m.toLowerCase sender)).map
    (ofString "Automated sender pattern: " ++ ·)

def isAutomatedEmail (email : ParsedEmail) : Option JsString :=
  (automatedHeader m email).or (automatedSender m email.fromHeader)

/-- A pattern of `excludeSenders` on lower case text; one that is invalid is skipped. -/
def patternTest (pattern text : JsString) : Bool := (regExp pattern).any (· text)

def excludedBy (patterns : List JsString) (sender : JsString) : Option JsString :=
  patterns.find? fun pattern => patternTest regExp pattern (m.toLowerCase sender)

/-- One of `importantContacts`: with a star it is the regular expression `^…$`, each star `.*` in it. -/
def contactMatches (contact sender : JsString) : Bool :=
  if asterisk ∈ m.toLowerCase contact then globTest isDot asterisk (m.toLowerCase contact) (m.toLowerCase sender)
  else decide (m.toLowerCase contact <:+: m.toLowerCase sender)

def evaluateFilter (email : ParsedEmail) (rules : EmailFilterRules) : FilterResult :=
  let importance := computeImportance email
  match isAutomatedEmail m email with
  | some automatedReason => ⟨false, some (ofString "Automated email: " ++ automatedReason), importance⟩
  | none =>
    match excludedBy m regExp rules.excludeSenders email.fromHeader with
    | some pattern => ⟨false, some (ofString "Sender excluded by pattern: " ++ pattern), importance⟩
    | none =>
      if rules.labels ≠ [] ∧ ¬∃ label ∈ rules.labels, label ∈ email.labelIds then
        ⟨false, some (ofString "Missing required label (need one of: " ++ join (ofString ", ") rules.labels ++ ofString ")"),
          importance⟩
      else if rules.starredOnly && !email.isStarred then
        ⟨false, some (ofString "Not starred (starredOnly is enabled)"), importance⟩
      else if rules.importantContacts ≠ [] ∧ ¬∃ contact ∈ rules.importantContacts, contactMatches m contact email.fromHeader then
        ⟨false, some (ofString "Sender not in important contacts"), importance⟩
      else if importance.val < rules.minImportance.val then
        ⟨false, some (ofString "Importance " ++ ofString (toFixed 2 importance) ++ ofString " below threshold " ++
          ofString (toFixed 2 rules.minImportance)), importance⟩
      else ⟨true, none, importance⟩

end

/-! ## What passes -/

variable {m : CaseMapping} {regExp : JsString → Option (JsString → Bool)} {rules : EmailFilterRules}

theorem passed_iff (email : ParsedEmail) (rules : EmailFilterRules) : (evaluateFilter m regExp email rules).passed = true ↔
    isAutomatedEmail m email = none ∧
    (∀ pattern ∈ rules.excludeSenders, patternTest regExp pattern (m.toLowerCase email.fromHeader) = false) ∧
    (rules.labels = [] ∨ ∃ label ∈ rules.labels, label ∈ email.labelIds) ∧
    (rules.starredOnly = true → email.isStarred = true) ∧
    (rules.importantContacts = [] ∨ ∃ contact ∈ rules.importantContacts, contactMatches m contact email.fromHeader = true) ∧
    rules.minImportance.val ≤ (computeImportance email).val := by
  unfold evaluateFilter
  cases hautomated : isAutomatedEmail m email with
  | some reason => simp
  | none =>
    cases hexcluded : excludedBy m regExp rules.excludeSenders email.fromHeader with
    | some pattern =>
      have hmem := List.mem_of_find?_eq_some hexcluded
      have htest := List.find?_some hexcluded
      simp only [Bool.false_eq_true, true_and, false_iff]
      intro h
      rw [h.1 pattern hmem] at htest
      cases htest
    | none =>
      have hnone : ∀ pattern ∈ rules.excludeSenders, patternTest regExp pattern (m.toLowerCase email.fromHeader) = false := by
        simpa [excludedBy] using hexcluded
      simp only [true_and]
      split
      · rename_i hlabels
        simp [hlabels]
      · rename_i hlabels
        have hlabels' : rules.labels = [] ∨ ∃ label ∈ rules.labels, label ∈ email.labelIds := by tauto
        split
        · rename_i hstarred
          simp only [Bool.and_eq_true, Bool.not_eq_true'] at hstarred
          simp [hstarred]
        · rename_i hstarred
          have hstarred' : rules.starredOnly = true → email.isStarred = true := by simpa using hstarred
          split
          · rename_i hcontacts
            simp [hcontacts]
          · rename_i hcontacts
            have hcontacts' : rules.importantContacts = [] ∨
                ∃ contact ∈ rules.importantContacts, contactMatches m contact email.fromHeader = true := by tauto
            split
            · rename_i himportance
              simp [not_le.mpr himportance]
            · rename_i himportance
              exact iff_of_true rfl ⟨hnone, hlabels', hstarred', hcontacts', not_lt.mp himportance⟩

/-! ## Senders of one address -/

/-- What follows the display name. -/
def bracketed (address : JsString) : JsString := ofString " <" ++ address ++ ofString ">"

/-- The From headers that name an address, with any display name or none. -/
inductive Sender (address : JsString) : JsString → Prop
  | bare : Sender address address
  | named (name : JsString) : Sender address (name ++ bracketed address)

/-- The message with this From header in place of its own. -/
def GmailMessage.withFrom (m : CaseMapping) (msg : GmailMessage) (sender : JsString) : GmailMessage :=
  { msg with headers := (ofString "From", sender) ::
      msg.headers.filter fun h => m.toLowerCase h.1 ≠ m.toLowerCase (ofString "From") }

variable {msg : GmailMessage} {address sender name contact pattern : JsString}

theorem lower_from (m : CaseMapping) : m.toLowerCase (ofString "From") = ofString "from" := by
  rw [m.ascii _ (by decide)]
  decide

theorem lower_bracketed (m : CaseMapping) (name address : JsString) :
    m.toLowerCase (name ++ bracketed address) = m.toLowerCase name ++ bracketed (m.toLowerCase address) := by
  have hspace := m.breaks 0x20 (by decide) name (0x3C :: (address ++ [0x3E]))
  have hopen := m.breaks 0x3C (by decide) [] (address ++ [0x3E])
  have hclose := m.breaks 0x3E (by decide) address []
  simp only [m.lower_nil, List.nil_append] at hopen hclose
  rw [hopen, hclose] at hspace
  exact hspace

theorem lookup_filter_ne {l : List (JsString × JsString)} {k k' : JsString} (h : k ≠ k') :
    (l.filter fun e => e.1 ≠ k').lookup k = l.lookup k := by
  induction l with
  | nil => rfl
  | cons e l ih =>
    obtain ⟨name, value⟩ := e
    by_cases he : name = k'
    · have hne : (k == name) = false := by simpa [he] using h
      rw [List.filter_cons_of_neg (by simpa using he), ih, List.lookup_cons, hne]
    · rw [List.filter_cons_of_pos (by simpa using he), List.lookup_cons, List.lookup_cons, ih]

@[simp] theorem withFrom_from : (parseGmailMessage m (msg.withFrom m sender)).fromHeader = sender := by
  simp [parseGmailMessage, getHeader, GmailMessage.withFrom]

theorem withFrom_headers : (parseGmailMessage m (msg.withFrom m sender)).headers =
    ((parseGmailMessage m msg).headers.filter fun e => e.1 ≠ ofString "from") ++ [(ofString "from", sender)] := by
  simp only [parseGmailMessage, GmailMessage.withFrom, List.map_cons, List.reverse_cons, lower_from, List.filter_reverse,
    List.filter_map]
  rfl

theorem withFrom_header {key : String} (h : ofString key ≠ ofString "from") :
    (parseGmailMessage m (msg.withFrom m sender)).header key = (parseGmailMessage m msg).header key := by
  have hlast : (ofString key == ofString "from") = false := by simpa using h
  simp only [ParsedEmail.header, withFrom_headers, List.lookup_append, lookup_filter_ne h, List.lookup_cons, List.lookup_nil,
    hlast, Option.or_none]

/-- No rule on other headers reads the From header. -/
theorem withFrom_automatedHeader :
    automatedHeader m (parseGmailMessage m (msg.withFrom m sender)) = automatedHeader m (parseGmailMessage m msg) := by
  have hsubmitted : ofString "auto-submitted" ≠ ofString "from" := by decide
  have hprecedence : ofString "precedence" ≠ ofString "from" := by decide
  have hsuppress : ofString "x-auto-response-suppress" ≠ ofString "from" := by decide
  have hunsubscribe : ofString "list-unsubscribe" ≠ ofString "from" := by decide
  simp only [automatedHeader, withFrom_header hsubmitted, withFrom_header hprecedence, withFrom_header hsuppress,
    withFrom_header hunsubscribe]

/-! ## A rule on all senders -/

/-- The rule makes no difference between senders of the address. -/
def Alike (address : JsString) (rule : JsString → Bool) : Prop :=
  ∀ s s', Sender address s → Sender address s' → rule s = rule s'

theorem Alike.iff_of {rule : JsString → Bool} {b : Bool} (hsender : Sender address sender) (hrule : rule sender = b) :
    Alike address rule ↔ ∀ s, Sender address s → rule s = b := by
  constructor
  · intro h s hs
    rw [h s sender hs hsender, hrule]
  · intro h s s' hs hs'
    rw [h s hs, h s' hs']

theorem infix_sender (h : pattern <:+: m.toLowerCase address) (hsender : Sender address sender) :
    pattern <:+: m.toLowerCase sender := by
  cases hsender with
  | bare => exact h
  | named name =>
    rw [lower_bracketed, bracketed]
    exact h.trans ⟨m.toLowerCase name ++ ofString " <", ofString ">", by simp⟩

/-- A text that is looked for may be the name. -/
theorem infix_name (pattern address : JsString) :
    m.toLowerCase pattern <:+: m.toLowerCase (pattern ++ bracketed address) := by
  rw [lower_bracketed]
  exact (List.prefix_append _ _).isInfix

/-! ## The automated senders -/

theorem automated_isSome : (isAutomatedEmail m (parseGmailMessage m (msg.withFrom m sender))).isSome = true ↔
    (automatedHeader m (parseGmailMessage m msg)).isSome = true ∨
      ∃ pattern ∈ automatedSenderPatterns, pattern <:+: m.toLowerCase sender := by
  simp [isAutomatedEmail, withFrom_automatedHeader, automatedSender, Option.isSome_or, List.find?_isSome]

theorem automated_alike_iff :
    Alike address (fun s => (isAutomatedEmail m (parseGmailMessage m (msg.withFrom m s))).isSome) ↔
    (automatedHeader m (parseGmailMessage m msg)).isSome = true ∨
      ∃ pattern ∈ automatedSenderPatterns, pattern <:+: m.toLowerCase address := by
  have hmem : ofString "noreply@" ∈ automatedSenderPatterns := by decide
  have hlower : m.toLowerCase (ofString "noreply@") = ofString "noreply@" := by
    rw [m.ascii _ (by decide)]
    decide
  have hname : (isAutomatedEmail m (parseGmailMessage m
      (msg.withFrom m (ofString "noreply@" ++ bracketed address)))).isSome = true := by
    rw [automated_isSome]
    have hinfix := infix_name (m := m) (ofString "noreply@") address
    rw [hlower] at hinfix
    exact .inr ⟨_, hmem, hinfix⟩
  rw [Alike.iff_of (.named _) hname]
  constructor
  · intro h
    exact automated_isSome.mp (h address .bare)
  · intro h s hs
    rw [automated_isSome]
    rcases h with h | ⟨pattern, hpattern, hinfix⟩
    · exact .inl h
    · exact .inr ⟨pattern, hpattern, infix_sender hinfix hs⟩

/-! ## The contacts -/

theorem contactMatches_plain (h : asterisk ∉ m.toLowerCase contact) :
    contactMatches m contact sender = true ↔ m.toLowerCase contact <:+: m.toLowerCase sender := by
  simp [contactMatches, h]

theorem contactMatches_glob (h : asterisk ∈ m.toLowerCase contact) :
    contactMatches m contact sender = globTest isDot asterisk (m.toLowerCase contact) (m.toLowerCase sender) := by
  simp [contactMatches, h]

theorem plain_alike_iff (h : asterisk ∉ m.toLowerCase contact) :
    Alike address (contactMatches m contact) ↔ m.toLowerCase contact <:+: m.toLowerCase address := by
  rw [Alike.iff_of (.named contact) ((contactMatches_plain h).mpr (infix_name contact address))]
  constructor
  · intro hall
    exact (contactMatches_plain h).mp (hall address .bare)
  · intro hinfix s hs
    exact (contactMatches_plain h).mpr (infix_sender hinfix hs)

/-- A name that a contact's stars cannot take: more line terminators than the contact has. -/
def evading (contact : JsString) : JsString := List.replicate (contact.length + 1) 0x2028

theorem glob_evading (contact text : JsString) : globTest isDot asterisk contact (evading contact ++ text) = false := by
  rw [Bool.eq_false_iff]
  intro h
  have hcount := globTest_uncovered (by decide) h
  have hle : contact.countP (!isDot ·) ≤ contact.length := List.countP_le_length
  have hdot : isDot 0x2028 = false := by decide
  rw [List.countP_append, evading, List.countP_replicate] at hcount
  simp [hdot] at hcount
  omega

/-- What a glob says of the bare address and of whatever follows a display name. -/
def GlobMisses (m : CaseMapping) (contact address : JsString) : Prop :=
  globTest isDot asterisk (m.toLowerCase contact) (m.toLowerCase address) = false ∧
    ∀ q, q <:+ m.toLowerCase contact → globTest isDot asterisk q (bracketed (m.toLowerCase address)) = false

theorem glob_alike_iff (h : asterisk ∈ m.toLowerCase contact) :
    Alike address (contactMatches m contact) ↔ GlobMisses m contact address := by
  have hmiss : contactMatches m contact (evading (m.toLowerCase contact) ++ bracketed address) = false := by
    rw [contactMatches_glob h, lower_bracketed]
    have hlower : m.toLowerCase (evading (m.toLowerCase contact)) = evading (m.toLowerCase contact) := m.lower_separators _
    rw [hlower]
    exact glob_evading _ _
  rw [Alike.iff_of (.named _) hmiss]
  constructor
  · intro hall
    constructor
    · have hbare := hall address .bare
      rwa [contactMatches_glob h] at hbare
    · intro q hq
      obtain ⟨name, hname⟩ := hq
      -- The name is what the rest of the pattern leaves.
      have hnamed := hall _ (.named name)
      rw [contactMatches_glob h, lower_bracketed, m.lowered contact name ⟨q, hname⟩] at hnamed
      rw [Bool.eq_false_iff]
      intro htest
      have htake := globTest_append (by decide) htest name
      rw [hname, hnamed] at htake
      cases htake
  · intro hmisses s hs
    rw [contactMatches_glob h]
    cases hs with
    | bare => exact hmisses.1
    | named name =>
      rw [lower_bracketed, Bool.eq_false_iff]
      intro htest
      obtain ⟨q, hq, hrest⟩ := globTest_rest htest
      rw [hmisses.2 q hq] at hrest
      cases hrest

/-! ## The excluded senders -/

/-- A pattern bound to the address by `$` or by `^`: it takes nothing that ends, or begins, with a bracket. -/
def Anchored (regExp : JsString → Option (JsString → Bool)) (pattern : JsString) : Prop :=
  (∀ text, patternTest regExp pattern (text ++ ofString ">") = false) ∨
    ∀ text, patternTest regExp pattern (ofString "<" ++ text) = false

theorem lower_name_open : m.toLowerCase (ofString "<" ++ bracketed address) =
    ofString "<" ++ bracketed (m.toLowerCase address) := by
  rw [lower_bracketed, m.ascii (ofString "<") (by decide)]
  rfl

/-- A pattern with `$` takes no sender with a name. -/
theorem anchored_named (h : ∀ text, patternTest regExp pattern (text ++ ofString ">") = false) (name : JsString) :
    patternTest regExp pattern (m.toLowerCase (name ++ bracketed address)) = false := by
  rw [lower_bracketed, bracketed, ← List.append_assoc]
  exact h _

theorem anchored_miss (h : Anchored regExp pattern) (address : JsString) :
    patternTest regExp pattern (m.toLowerCase (ofString "<" ++ bracketed address)) = false := by
  rcases h with hend | hstart
  · exact anchored_named hend _
  · rw [lower_name_open]
    exact hstart _

theorem anchored_alike_iff (h : Anchored regExp pattern) :
    Alike address (fun s => patternTest regExp pattern (m.toLowerCase s)) ↔
      ∀ s, Sender address s → patternTest regExp pattern (m.toLowerCase s) = false :=
  Alike.iff_of (.named _) (anchored_miss h address)

/-- With `$`, it comes to the address alone. -/
theorem anchored_end_iff (h : ∀ text, patternTest regExp pattern (text ++ ofString ">") = false) :
    (∀ s, Sender address s → patternTest regExp pattern (m.toLowerCase s) = false) ↔
      patternTest regExp pattern (m.toLowerCase address) = false := by
  constructor
  · intro hall
    exact hall address .bare
  · intro hbare s hs
    cases hs with
    | bare => exact hbare
    | named name => exact anchored_named h name

/-! ## The sender rules -/

/-- No sender rule looks at the display name. -/
structure AddressOnly (m : CaseMapping) (regExp : JsString → Option (JsString → Bool)) (msg : GmailMessage)
    (rules : EmailFilterRules) (address : JsString) : Prop where
  automated : Alike address fun s => (isAutomatedEmail m (parseGmailMessage m (msg.withFrom m s))).isSome
  contacts : ∀ contact ∈ rules.importantContacts, Alike address (contactMatches m contact)
  excludes : ∀ pattern ∈ rules.excludeSenders, Anchored regExp pattern →
    Alike address fun s => patternTest regExp pattern (m.toLowerCase s)

/-- The address or another header settles each rule. -/
structure AddressDecides (m : CaseMapping) (regExp : JsString → Option (JsString → Bool)) (msg : GmailMessage)
    (rules : EmailFilterRules) (address : JsString) : Prop where
  automated : (automatedHeader m (parseGmailMessage m msg)).isSome = true ∨
    ∃ pattern ∈ automatedSenderPatterns, pattern <:+: m.toLowerCase address
  plain : ∀ contact ∈ rules.importantContacts, asterisk ∉ m.toLowerCase contact →
    m.toLowerCase contact <:+: m.toLowerCase address
  globs : ∀ contact ∈ rules.importantContacts, asterisk ∈ m.toLowerCase contact → GlobMisses m contact address
  excludes : ∀ pattern ∈ rules.excludeSenders, Anchored regExp pattern →
    ∀ s, Sender address s → patternTest regExp pattern (m.toLowerCase s) = false

theorem withFrom_importance (m : CaseMapping) (msg : GmailMessage) (s s' : JsString) :
    computeImportance (parseGmailMessage m (msg.withFrom m s)) = computeImportance (parseGmailMessage m (msg.withFrom m s')) := by
  have hsubject : m.toLowerCase (ofString "Subject") = ofString "subject" := by
    rw [m.ascii _ (by decide)]
    decide
  have hne : ofString "from" ≠ ofString "subject" := by decide
  simp only [computeImportance, parseGmailMessage, getHeader, GmailMessage.withFrom, List.find?_cons, lower_from, hsubject,
    hne, decide_false]

/-- Then nor does the filter, when every pattern is bound to the address. -/
theorem AddressOnly.passed {m : CaseMapping} {regExp : JsString → Option (JsString → Bool)} {msg : GmailMessage}
    {rules : EmailFilterRules} {address : JsString} (h : AddressOnly m regExp msg rules address)
    (hanchored : ∀ pattern ∈ rules.excludeSenders, Anchored regExp pattern) :
    Alike address fun s => (evaluateFilter m regExp (parseGmailMessage m (msg.withFrom m s)) rules).passed := by
  intro s s' hs hs'
  have hautomated := h.automated s s' hs hs'
  have hcontacts : ∀ contact ∈ rules.importantContacts, contactMatches m contact s = contactMatches m contact s' :=
    fun contact hmem => h.contacts contact hmem s s' hs hs'
  have hexcludes : ∀ pattern ∈ rules.excludeSenders,
      patternTest regExp pattern (m.toLowerCase s) = patternTest regExp pattern (m.toLowerCase s') :=
    fun pattern hmem => h.excludes pattern hmem (hanchored pattern hmem) s s' hs hs'
  rw [Bool.eq_iff_iff, passed_iff, passed_iff, withFrom_importance m msg s s']
  simp only [withFrom_from, ← Option.not_isSome_iff_eq_none, hautomated]
  simp +contextual only [hexcludes]
  have hany : (∃ contact ∈ rules.importantContacts, contactMatches m contact s = true) ↔
      ∃ contact ∈ rules.importantContacts, contactMatches m contact s' = true := by
    apply exists_congr
    intro contact
    apply and_congr_right
    intro hmem
    rw [hcontacts contact hmem]
  rw [hany]
  rfl

theorem addressOnly_iff (m : CaseMapping) (regExp : JsString → Option (JsString → Bool)) (msg : GmailMessage)
    (rules : EmailFilterRules) (address : JsString) :
    AddressOnly m regExp msg rules address ↔ AddressDecides m regExp msg rules address := by
  constructor
  · intro h
    exact {
      automated := automated_alike_iff.mp h.automated
      plain := fun contact hmem hplain => (plain_alike_iff hplain).mp (h.contacts contact hmem)
      globs := fun contact hmem hglob => (glob_alike_iff hglob).mp (h.contacts contact hmem)
      excludes := fun pattern hmem hanchored => (anchored_alike_iff hanchored).mp (h.excludes pattern hmem hanchored) }
  · intro h
    refine ⟨automated_alike_iff.mpr h.automated, ?_, ?_⟩
    · intro contact hmem
      by_cases hglob : asterisk ∈ m.toLowerCase contact
      · exact (glob_alike_iff hglob).mpr (h.globs contact hmem hglob)
      · exact (plain_alike_iff hglob).mpr (h.plain contact hmem hglob)
    · intro pattern hmem hanchored
      exact (anchored_alike_iff hanchored).mpr (h.excludes pattern hmem hanchored)

/-! ## A run -/

/-- An engine that knows one pattern. -/
def onePattern (pattern : JsString) : Option (JsString → Bool) :=
  if pattern = ofString "^eve@evil\\.com$" then some (· == ofString "eve@evil.com") else none

def contactRules (contacts : List JsString) : EmailFilterRules :=
  ⟨false, contacts, [], [ofString "^eve@evil\\.com$"], ⟨0, by norm_num⟩⟩

def passes (contact sender : String) : Bool :=
  (evaluateFilter .asciiOnly onePattern (parseGmailMessage .asciiOnly
    (GmailMessage.withFrom .asciiOnly ⟨[], []⟩ (ofString sender)))
    (contactRules [ofString contact])).passed

/-- A stranger passes by taking the contact's address for a name, or an excluded sender by taking
    any name; a contact with a name does not pass a glob. -/
theorem display_name_decides :
    passes "boss@company.com" "mallory@evil.com" = false ∧
    passes "boss@company.com" "boss@company.com <mallory@evil.com>" = true ∧
    passes "eve" "eve@evil.com" = false ∧ passes "eve" "Eve <eve@evil.com>" = true ∧
    passes "*@company.com" "boss@company.com" = true ∧ passes "*@company.com" "Boss <boss@company.com>" = false ∧
    ¬AddressOnly .asciiOnly onePattern ⟨[], []⟩ (contactRules [ofString "boss@company.com"]) (ofString "mallory@evil.com") := by
  refine ⟨by decide +kernel, by decide +kernel, by decide +kernel, by decide +kernel, by decide +kernel, by decide +kernel, ?_⟩
  intro h
  have halike := h.contacts (ofString "boss@company.com") (by decide) _ _ .bare (.named (ofString "boss@company.com"))
  revert halike
  decide

end FlowHelm.Channels.EmailFilter
