/-
  FlowHelm.Channels.SmtpData — a mail sent over SMTP (`SmtpClient.send` of
  src/channels/gmail/imap-client.ts) and what the server makes of its data.

  `send` writes a command when the reply before it has the expected code. The data are the
  message with the matches of `/^\.$/gm` doubled, and a line that is a dot alone. A match is
  a dot that stands alone between line ends, and U+2028 and U+2029 are line ends to it. The
  server reads lines by CRLF; it drops the dot in front of any line that is not its end.

  - `received_iff`: the message is received just if every line that starts with a dot has
    it doubled, and no other dot is.
  - `a_dot_is_lost`: a line with a dot in front.
-/
import FlowHelm.Lib.Buffer
import FlowHelm.Lib.CrlfLines

namespace FlowHelm.Channels.Smtp

open Js Buffer

def cr : UInt16 := 0x0D

def lf : UInt16 := 0x0A

def dot : UInt16 := 0x2E

/-! ## Sending -/

/-- A LineTerminator, what `^` and `$` look for under the flag m. -/
def isLineTerminator (u : UInt16) : Bool := u = 0x0A ∨ u = 0x0D ∨ u = 0x2028 ∨ u = 0x2029

/-- `s.replace(/^\.$/gm, '..')` where `start` says whether a line starts here. -/
def stuffFrom : Bool → JsString → JsString
  | _, [] => []
  | start, u :: rest =>
    if start ∧ u = dot ∧ rest.head?.all isLineTerminator then u :: u :: stuffFrom (isLineTerminator u) rest
    else u :: stuffFrom (isLineTerminator u) rest

def stuffed (rawMessage : JsString) : JsString := stuffFrom true rawMessage

structure SmtpClientOptions where
  emailAddress : JsString
  accessToken : JsString

def buildXOAuth2Token (email accessToken : JsString) : JsString :=
  toBase64 (fromUtf8 (ofString "user=" ++ email ++ ofString "\x01auth=Bearer " ++ accessToken ++ ofString "\x01\x01"))

/-- What is written behind DATA. -/
def dataCommand (rawMessage : JsString) : JsString := stuffed rawMessage ++ ofString "\r\n.\r\n"

/-- The commands, each with the code of the reply it needs. -/
def commands (options : SmtpClientOptions) (recipient rawMessage : JsString) : List (JsString × Nat) :=
  [(ofString "EHLO flowhelm\r\n", 250),
    (ofString "AUTH XOAUTH2 " ++ buildXOAuth2Token options.emailAddress options.accessToken ++ ofString "\r\n", 235),
    (ofString "MAIL FROM:<" ++ options.emailAddress ++ ofString ">\r\n", 250),
    (ofString "RCPT TO:<" ++ recipient ++ ofString ">\r\n", 250),
    (ofString "DATA\r\n", 354),
    (dataCommand rawMessage, 250),
    (ofString "QUIT\r\n", 221)]

/-- What is written as the replies come in, and whether all was. -/
def exchange : List (JsString × Nat) → List Nat → List JsString × Bool
  | [], _ => ([], true)
  | (command, _) :: _, [] => ([command], false)
  | (command, expectedCode) :: more, code :: codes =>
    if code = expectedCode then
      let rest := exchange more codes
      (command :: rest.1, rest.2)
    else ([command], false)

/-- `send` behind the greeting: its writes, and whether it returns normally. -/
def send (options : SmtpClientOptions) (recipient rawMessage : JsString) (codes : List Nat) : List JsString × Bool :=
  match codes with
  | [] => ([], false)
  | greeting :: codes => if greeting = 220 then exchange (commands options recipient rawMessage) codes else ([], false)

/-- Behind the reply 354 to DATA come the data. -/
example (options : SmtpClientOptions) (recipient rawMessage : JsString) :
    (send options recipient rawMessage [220, 250, 235, 250, 250, 354]).1.drop 4 = [ofString "DATA\r\n", dataCommand rawMessage] :=
    rfl

/-! ## Receiving -/

/-- The text a server reads from the bytes of the data. -/
def received (rawMessage : JsString) : Option JsString :=
  (Crlf.receive 0x0D 0x0A 0x2E (fromUtf8 (dataCommand rawMessage))).map toUtf8

def lines (s : JsString) : List JsString := Crlf.lines cr lf s

/-- CR and LF are in the message as CRLF alone. -/
def CrlfEnds (rawMessage : JsString) : Prop := ∀ line ∈ lines rawMessage, cr ∉ line ∧ lf ∉ line

instance (rawMessage : JsString) : Decidable (CrlfEnds rawMessage) :=
  inferInstanceAs (Decidable (∀ line ∈ lines rawMessage, cr ∉ line ∧ lf ∉ line))

/-- The unit is a dot between ends of lines, as `^` and `$` see them. -/
def Alone (start : Bool) (s : JsString) (i : Nat) : Prop :=
  s[i]? = some dot ∧ (if i = 0 then start = true else ∃ u, s[i - 1]? = some u ∧ isLineTerminator u = true) ∧
    ∀ u, s[i + 1]? = some u → isLineTerminator u = true

/-- A dot of the line is alone just if the line starts with it. -/
def StuffedRight (line : JsString) : Prop := ∀ i, Alone true line i ↔ i = 0 ∧ line.head? = some dot

/-! ## One line -/

variable {start : Bool} {u : UInt16} {s line rawMessage : JsString} {ls : List JsString}

theorem alone_succ {i : Nat} : Alone start (u :: s) (i + 1) ↔ Alone (isLineTerminator u) s i := by
  cases i with
  | zero => simp [Alone]
  | succ i => simp [Alone]

theorem alone_zero : Alone start (u :: s) 0 ↔ start = true ∧ u = dot ∧ s.head?.all isLineTerminator = true := by
  cases s with
  | nil => simp [Alone, and_comm]
  | cons v s => simp [Alone, and_left_comm]

theorem stuffFrom_alone (h : Alone start (u :: s) 0) : stuffFrom start (u :: s) = u :: u :: stuffFrom (isLineTerminator u) s := by
  rw [stuffFrom, if_pos (alone_zero.mp h)]

theorem stuffFrom_kept (h : ¬Alone start (u :: s) 0) : stuffFrom start (u :: s) = u :: stuffFrom (isLineTerminator u) s := by
  rw [stuffFrom, if_neg fun hmatch => h (alone_zero.mpr hmatch)]

theorem length_stuffFrom (start : Bool) (s : JsString) : s.length ≤ (stuffFrom start s).length := by
  induction s generalizing start with
  | nil => simp
  | cons u s ih =>
    have htail := ih (isLineTerminator u)
    by_cases h : Alone start (u :: s) 0
    · rw [stuffFrom_alone h]
      simp
      omega
    · rw [stuffFrom_kept h]
      simpa using htail

/-- Nothing is doubled where no dot is alone. -/
theorem stuffFrom_eq_self : stuffFrom start s = s ↔ ∀ i, ¬Alone start s i := by
  induction s generalizing start with
  | nil => simp [stuffFrom, Alone]
  | cons u s ih =>
    by_cases h : Alone start (u :: s) 0
    · rw [stuffFrom_alone h]
      refine iff_of_false ?_ fun hnone => hnone 0 h
      intro heq
      have hlength := congrArg List.length heq
      have hle := length_stuffFrom (isLineTerminator u) s
      simp at hlength
      omega
    · rw [stuffFrom_kept h, List.cons_inj_right, ih]
      constructor
      · intro hnone i
        cases i with
        | zero => exact h
        | succ i => exact mt alone_succ.mp (hnone i)
      · intro hnone i
        exact mt alone_succ.mpr (hnone (i + 1))

theorem stuffFrom_ne_dot (s : JsString) : stuffFrom false s ≠ dot :: s := by
  induction s with
  | nil => simp [stuffFrom]
  | cons u s ih =>
    rw [stuffFrom_kept (by simp [alone_zero])]
    intro heq
    obtain ⟨rfl, htail⟩ := List.cons.inj heq
    exact ih htail

theorem stuffedRight_cons :
    StuffedRight (u :: s) ↔ (Alone true (u :: s) 0 ↔ u = dot) ∧ ∀ i, ¬Alone (isLineTerminator u) s i := by
  constructor
  · intro h
    refine ⟨by simpa using h 0, fun i halone => ?_⟩
    have hzero := (h (i + 1)).mp (alone_succ.mpr halone)
    exact absurd hzero.1 (Nat.succ_ne_zero i)
  · intro h i
    cases i with
    | zero => simpa using h.1
    | succ i => exact iff_of_false (mt alone_succ.mp (h.2 i)) (by simp)

/-- A line is read as it was just if the dot in front of it is doubled, and no other. -/
theorem unstuff_stuffed : Crlf.unstuff dot (stuffed line) = line ↔ StuffedRight line := by
  cases line with
  | nil => simp [stuffed, stuffFrom, Crlf.unstuff, StuffedRight, Alone]
  | cons u s =>
    have hdot : isLineTerminator dot = false := by decide
    rw [stuffedRight_cons, stuffed]
    by_cases halone : Alone true (u :: s) 0
    · obtain ⟨-, rfl, -⟩ := alone_zero.mp halone
      rw [stuffFrom_alone halone, Crlf.unstuff, if_pos rfl, List.cons_inj_right, stuffFrom_eq_self]
      simp [halone]
    · rw [stuffFrom_kept halone, Crlf.unstuff]
      by_cases hu : u = dot
      · rw [if_pos hu, hu, hdot]
        refine iff_of_false (stuffFrom_ne_dot s) fun h => ?_
        exact halone (hu ▸ h.1.mpr rfl)
      · rw [if_neg hu, List.cons_inj_right, stuffFrom_eq_self]
        simp [halone, hu]

theorem mem_stuffFrom (h : u ∈ stuffFrom start s) : u ∈ s := by
  induction s generalizing start with
  | nil => exact h
  | cons v s ih =>
    by_cases halone : Alone start (v :: s) 0
    · rw [stuffFrom_alone halone] at h
      rcases List.mem_cons.mp h with rfl | h
      · exact List.mem_cons_self ..
      · rcases List.mem_cons.mp h with rfl | h
        · exact List.mem_cons_self ..
        · exact List.mem_cons_of_mem _ (ih h)
    · rw [stuffFrom_kept halone] at h
      rcases List.mem_cons.mp h with rfl | h
      · exact List.mem_cons_self ..
      · exact List.mem_cons_of_mem _ (ih h)

/-- No line looks like the end of the data. -/
theorem stuffed_ne_dot (line : JsString) : stuffed line ≠ [dot] := by
  cases line with
  | nil => simp [stuffed, stuffFrom]
  | cons u s =>
    unfold stuffed
    by_cases halone : Alone true (u :: s) 0
    · rw [stuffFrom_alone halone]
      simp
    · rw [stuffFrom_kept halone]
      intro heq
      obtain ⟨rfl, htail⟩ := List.cons.inj heq
      have hle := length_stuffFrom (isLineTerminator dot) s
      rw [htail] at hle
      obtain rfl := List.length_eq_zero_iff.mp (Nat.le_zero.mp hle)
      exact halone (alone_zero.mpr ⟨rfl, rfl, rfl⟩)

theorem dot_plain : isHighSurrogate dot = false ∧ isLowSurrogate dot = false := by decide

theorem isWellFormed_stuffFrom (h : isWellFormed s = true) : isWellFormed (stuffFrom start s) = true := by
  induction s using units_induction generalizing start with
  | nil => rfl
  | single u =>
    simp only [isWellFormed_singleton, Bool.and_eq_true, Bool.not_eq_true'] at h
    by_cases halone : Alone start [u] 0
    · rw [stuffFrom_alone halone, isWellFormed_plain h.1 h.2, isWellFormed_plain h.1 h.2]
      rfl
    · rw [stuffFrom_kept halone, isWellFormed_plain h.1 h.2]
      rfl
  | pair u v rest hhigh ih =>
    rw [isWellFormed_pair hhigh, Bool.and_eq_true] at h
    have hu : ¬Alone start (u :: v :: rest) 0 := by
      intro halone
      rw [(alone_zero.mp halone).2.1, dot_plain.1] at hhigh
      cases hhigh
    have hv : ¬Alone (isLineTerminator u) (v :: rest) 0 := by
      intro halone
      rw [(alone_zero.mp halone).2.1, dot_plain.2] at h
      cases h.1
    rw [stuffFrom_kept hu, stuffFrom_kept hv]
    rw [isWellFormed_pair hhigh, h.1, ih h.2, Bool.and_self]
  | cons u v rest hhigh ih =>
    rw [isWellFormed_cons hhigh, Bool.and_eq_true, Bool.not_eq_true'] at h
    have htail : isWellFormed (stuffFrom (isLineTerminator u) (v :: rest)) = true := ih h.2
    by_cases halone : Alone start (u :: v :: rest) 0
    · rw [stuffFrom_alone halone, isWellFormed_plain hhigh h.1, isWellFormed_plain hhigh h.1, htail]
    · rw [stuffFrom_kept halone, isWellFormed_plain hhigh h.1, htail]

theorem isWellFormed_unstuff (h : isWellFormed s = true) : isWellFormed (Crlf.unstuff dot s) = true := by
  cases s with
  | nil => rfl
  | cons u s =>
    rw [Crlf.unstuff]
    by_cases hu : u = dot
    · rw [if_pos hu]
      rwa [hu, isWellFormed_plain dot_plain.1 dot_plain.2] at h
    · rwa [if_neg hu]

theorem mem_of_unstuff (h : u ∈ Crlf.unstuff dot s) : u ∈ s := by
  cases s with
  | nil => exact h
  | cons v s =>
    rw [Crlf.unstuff] at h
    split at h
    · exact List.mem_cons_of_mem _ h
    · exact h

/-! ## All lines -/

/-- Lines, each with its end. -/
def ended (ls : List JsString) : JsString := ls.flatMap (· ++ [cr, lf])

theorem ended_lines (s : JsString) : ended (lines s) = s ++ [cr, lf] := by
  rw [ended, lines, ← Crlf.intercalate_ended Crlf.lines_ne_nil, Crlf.intercalate_lines]

theorem isWellFormed_ended : isWellFormed (ended ls) = true ↔ ∀ line ∈ ls, isWellFormed line = true := by
  induction ls with
  | nil => simp [ended]
  | cons line ls ih =>
    have hassoc : ended (line :: ls) = line ++ cr :: lf :: ended ls := by simp [ended]
    rw [hassoc, isWellFormed_append_plain (by decide) (by decide), isWellFormed_plain (by decide) (by decide),
      Bool.and_eq_true, ih,
      List.forall_mem_cons]

theorem isWellFormed_message (s : JsString) : isWellFormed s = true ↔ ∀ line ∈ lines s, isWellFormed line = true := by
  rw [← isWellFormed_ended, ended_lines, isWellFormed_append_plain (by decide) (by decide),
    show isWellFormed [lf] = true by decide, Bool.and_true]

theorem stuffFrom_append (start : Bool) (s t : JsString) :
    stuffFrom start (s ++ cr :: lf :: t) = stuffFrom start s ++ cr :: lf :: stuffed t := by
  induction s generalizing start with
  | nil => simp [stuffFrom, stuffed, cr, lf, dot, isLineTerminator]
  | cons u s ih =>
    have hzero : Alone start (u :: (s ++ cr :: lf :: t)) 0 ↔ Alone start (u :: s) 0 := by
      rw [alone_zero, alone_zero]
      cases s with
      | nil => simp [cr, isLineTerminator]
      | cons v s => simp
    rw [List.cons_append]
    by_cases halone : Alone start (u :: s) 0
    · rw [stuffFrom_alone halone, stuffFrom_alone (hzero.mpr halone), ih]
      simp
    · rw [stuffFrom_kept halone, stuffFrom_kept (mt hzero.mp halone), ih]
      simp

theorem stuffed_ended (ls : List JsString) (s : JsString) : stuffed (ended ls ++ s) = ended (ls.map stuffed) ++ stuffed s := by
  induction ls with
  | nil => rfl
  | cons line ls ih =>
    have hassoc : ended (line :: ls) ++ s = line ++ cr :: lf :: (ended ls ++ s) := by simp [ended]
    rw [hassoc, stuffed, stuffFrom_append, ih]
    simp [ended, stuffed]

/-- The data are the lines, each stuffed, and the dot. -/
theorem dataCommand_eq (rawMessage : JsString) :
    dataCommand rawMessage = ended ((lines rawMessage).map stuffed) ++ [dot, cr, lf] := by
  have hend : ofString "\r\n.\r\n" = [cr, lf] ++ [dot, cr, lf] := by decide
  have hstuffed : stuffed (rawMessage ++ [cr, lf]) = stuffed rawMessage ++ [cr, lf] := stuffFrom_append true rawMessage []
  rw [dataCommand, hend, ← List.append_assoc, ← hstuffed, ← ended_lines]
  have hlines := stuffed_ended (lines rawMessage) []
  rw [List.append_nil] at hlines
  rw [hlines]
  simp [stuffed, stuffFrom]

theorem fromUtf8_ended (ls : List JsString) (s : JsString) :
    fromUtf8 (ended ls ++ s) = (ls.map fromUtf8).flatMap (· ++ [0x0D, 0x0A]) ++ fromUtf8 s := by
  induction ls with
  | nil => rfl
  | cons line ls ih =>
    have hassoc : ended (line :: ls) ++ s = line ++ cr :: ([] ++ lf :: (ended ls ++ s)) := by simp [ended]
    rw [hassoc, fromUtf8_append (by decide), fromUtf8_append (by decide), ih]
    simp [cr, lf]

theorem fromUtf8_unstuff (s : JsString) : Crlf.unstuff 0x2E (fromUtf8 s) = fromUtf8 (Crlf.unstuff dot s) := by
  cases s with
  | nil => rfl
  | cons u s =>
    by_cases hu : u = dot
    · have hbytes : fromUtf8 ([] ++ dot :: s) = fromUtf8 [] ++ 0x2E :: fromUtf8 s := fromUtf8_append (by decide) [] s
      rw [List.nil_append] at hbytes
      rw [hu, hbytes]
      simp [Crlf.unstuff]
    · rw [Crlf.unstuff, if_neg hu]
      cases hbytes : fromUtf8 (u :: s) with
      | nil => rfl
      | cons b bytes =>
        rw [Crlf.unstuff, if_neg]
        rintro rfl
        obtain ⟨v, t, heq, hval⟩ := head_of_fromUtf8 (by decide) hbytes
        obtain ⟨rfl, rfl⟩ := List.cons.inj heq
        exact hu (UInt16.toNat_inj.mp hval)

theorem fromUtf8_ne_dot (h : s ≠ [dot]) : fromUtf8 s ≠ [0x2E] := by
  intro hbytes
  obtain ⟨u, t, rfl, hval⟩ := head_of_fromUtf8 (by decide) hbytes
  obtain rfl : u = dot := UInt16.toNat_inj.mp hval
  have happend : fromUtf8 ([] ++ dot :: t) = fromUtf8 [] ++ 0x2E :: fromUtf8 t := fromUtf8_append (by decide) [] t
  rw [List.nil_append, hbytes] at happend
  have hnil : fromUtf8 t = [] := (List.cons.inj happend).2.symm
  exact h (by rw [fromUtf8_eq_nil hnil])

/-- What the server makes of the data. -/
theorem receive_data (h : CrlfEnds rawMessage) :
    Crlf.receive 0x0D 0x0A 0x2E (fromUtf8 (dataCommand rawMessage)) =
      some (fromUtf8 (ended ((lines rawMessage).map fun line => Crlf.unstuff dot (stuffed line)))) := by
  have hunbroken : ∀ bytes ∈ ((lines rawMessage).map stuffed).map fromUtf8, Crlf.Unbroken 0x0D 0x0A bytes := by
    rw [List.map_map]
    intro bytes hbytes
    obtain ⟨line, hline, rfl⟩ := List.mem_map.mp hbytes
    apply Crlf.unbroken_of_not_mem
    intro hmem
    obtain ⟨u, hu, hval⟩ := mem_of_fromUtf8 (by decide) hmem
    obtain rfl : u = lf := UInt16.toNat_inj.mp hval
    exact (h line hline).2 (mem_stuffFrom hu)
  have hlines : Crlf.lines 0x0D 0x0A (fromUtf8 (dataCommand rawMessage)) =
      ((lines rawMessage).map stuffed).map fromUtf8 ++ [[0x2E], []] := by
    rw [dataCommand_eq, fromUtf8_ended, Crlf.lines_ended (by decide) hunbroken]
    rfl
  have hdots : ∀ bytes ∈ ((lines rawMessage).map stuffed).map fromUtf8, bytes ≠ [0x2E] := by
    rw [List.map_map]
    intro bytes hbytes
    obtain ⟨line, -, rfl⟩ := List.mem_map.mp hbytes
    exact fromUtf8_ne_dot (stuffed_ne_dot line)
  have hended := fromUtf8_ended ((lines rawMessage).map fun line => Crlf.unstuff dot (stuffed line)) []
  rw [List.append_nil] at hended
  rw [Crlf.receive_lines hdots hlines, hended]
  simp [fromUtf8_unstuff, List.flatMap_map]

theorem map_eq_self {f : JsString → JsString} : ls.map f = ls ↔ ∀ line ∈ ls, f line = line := by
  have hmap : ls.map f = ls.map id ↔ ∀ line ∈ ls, f line = id line := List.map_eq_map_iff
  rwa [List.map_id] at hmap

theorem lines_ended (h : ∀ line ∈ ls, lf ∉ line) : lines (ended ls) = ls ++ [[]] := by
  have hunbroken : ∀ line ∈ ls, Crlf.Unbroken cr lf line := fun line hline => Crlf.unbroken_of_not_mem (h line hline)
  have hlines := Crlf.lines_ended (by decide) hunbroken []
  rw [List.append_nil] at hlines
  rw [lines, ended, hlines]
  rfl

/-- The server has the message and a final CRLF just if the message is well formed and every
    line of it is stuffed right. -/
theorem received_iff {rawMessage : JsString} (h : CrlfEnds rawMessage) :
    received rawMessage = some (rawMessage ++ [cr, lf]) ↔
      isWellFormed rawMessage = true ∧ ∀ line ∈ lines rawMessage, StuffedRight line := by
  rw [received, receive_data h, Option.map_some, Option.some.injEq, ← ended_lines]
  constructor
  · intro hreceived
    have hlines : ∀ line ∈ lines rawMessage, isWellFormed line = true := by
      rw [← isWellFormed_ended, ← hreceived]
      exact isWellFormed_toUtf8 _
    have hwell : isWellFormed (ended ((lines rawMessage).map fun line => Crlf.unstuff dot (stuffed line))) = true := by
      rw [isWellFormed_ended, List.forall_mem_map]
      exact fun line hline => isWellFormed_unstuff (isWellFormed_stuffFrom (hlines line hline))
    rw [toUtf8_fromUtf8 hwell] at hreceived
    have hread : ∀ line ∈ lines rawMessage, Crlf.unstuff dot (stuffed line) = line := by
      have hends : lines (ended ((lines rawMessage).map fun line => Crlf.unstuff dot (stuffed line))) =
          lines (ended (lines rawMessage)) :=
        congrArg lines hreceived
      rw [lines_ended, lines_ended fun line hline => (h line hline).2, List.append_cancel_right_eq] at hends
      · exact map_eq_self.mp hends
      · rw [List.forall_mem_map]
        exact fun line hline hmem => (h line hline).2 (mem_stuffFrom (mem_of_unstuff hmem))
    exact ⟨(isWellFormed_message rawMessage).mpr hlines, fun line hline => unstuff_stuffed.mp (hread line hline)⟩
  · intro hright
    have hlines : ((lines rawMessage).map fun line => Crlf.unstuff dot (stuffed line)) = lines rawMessage :=
      map_eq_self.mpr fun line hline => unstuff_stuffed.mpr (hright.2 line hline)
    rw [hlines, toUtf8_fromUtf8 (isWellFormed_ended.mpr ((isWellFormed_message rawMessage).mp hright.1))]

/-! ## Two messages -/

/-- A reply as the adapter writes one. -/
def reply : JsString := ofString "Subject: Re: hi\r\n\r\n.\r\nbye."

theorem received_iff_reply : received reply = some (reply ++ [cr, lf]) ↔
    isWellFormed reply = true ∧ ∀ line ∈ lines reply, StuffedRight line :=
  received_iff (by decide)

/-- A message whose second line starts with a dot. -/
def dotted : JsString := ofString "see\r\n.gitignore"

/-- The dot is not there any more. -/
theorem a_dot_is_lost :
    CrlfEnds dotted ∧ received dotted ≠ some (dotted ++ [cr, lf]) ∧ received dotted = some (ofString "see\r\ngitignore\r\n") := by
  have hreceived : received dotted = some (ofString "see\r\ngitignore\r\n") := by decide
  exact ⟨by decide, by rw [hreceived]; decide, hreceived⟩

end FlowHelm.Channels.Smtp
