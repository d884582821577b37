/-
  FlowHelm.Channels.SplitMessage — a long message in chunks (`splitMessage` of
  src/channels/telegram/adapter.ts and of src/channels/whatsapp/adapter.ts, the same code
  twice).

  A round cuts at the last newline up to `maxLen`, else at the last space, else at
  `maxLen`; an index before the middle does not count. What is left is trimmed at its
  start. The loop runs on fuel: `none` is a loop that does not end within as many rounds as
  the text has units.

  - `splitMessage_split`: it ends, no chunk is too long or empty, and only white space
    between chunks is lost.
  - `splitMessage_wellFormed`: every chunk is well formed unless a hard split cuts a pair.
  - `hard_split_cuts`: a text with a pair across the limit.
-/
import FlowHelm.Lib.JsSlice

namespace FlowHelm.Channels

open Js

def newline : UInt16 := 0x0A

def space : UInt16 := 0x20

def defaultMaxLen : Nat := 4096

/-- An index that is not `splitIdx <= 0 || splitIdx < maxLen * 0.5`. -/
def lateEnough (maxLen : Nat) (splitIdx : Option Nat) : Option Nat := splitIdx.filter fun i => 0 < i ∧ maxLen ≤ 2 * i

/-- Where a newline or else a space is found; `none` is a hard split. -/
def foundIdx (maxLen : Nat) (remaining : JsString) : Option Nat :=
  (lateEnough maxLen (lastIndexOf newline remaining maxLen)).or (lateEnough maxLen (lastIndexOf space remaining maxLen))

def splitIdx (maxLen : Nat) (remaining : JsString) : Nat := (foundIdx maxLen remaining).getD maxLen

def chunkOf (maxLen : Nat) (remaining : JsString) : JsString := remaining.take (splitIdx maxLen remaining)

def restOf (maxLen : Nat) (remaining : JsString) : JsString := trimStart (remaining.drop (splitIdx maxLen remaining))

/-- `while (remaining.length > maxLen)`, and the last chunk. -/
def splitLoop (maxLen : Nat) (fuel : Nat) (remaining : JsString) : Option (List JsString) :=
  if remaining.length ≤ maxLen then some (if remaining = [] then [] else [remaining])
  else match fuel with
    | 0 => none
    | fuel + 1 => (splitLoop maxLen fuel (restOf maxLen remaining)).map (chunkOf maxLen remaining :: ·)

def splitText (text : JsString) (maxLen : Nat) : Option (List JsString) :=
  if text.length ≤ maxLen then some [text] else splitLoop maxLen text.length text

/-- Of the Telegram adapter. -/
def Telegram.splitMessage (text : JsString) (maxLen : Nat) : Option (List JsString) := splitText text maxLen

/-- Of the WhatsApp adapter. -/
def WhatsApp.splitMessage (text : JsString) (maxLen : Nat) : Option (List JsString) := splitText text maxLen

/-! ## One round -/

variable {maxLen fuel : Nat} {text remaining : JsString} {chunks : List JsString}

theorem lateEnough_spec {index : Option Nat} {i : Nat} (h : lateEnough maxLen index = some i) : index = some i ∧ 0 < i := by
  simp only [lateEnough, Option.filter_eq_some_iff, decide_eq_true_eq] at h
  exact ⟨h.1, h.2.1⟩

/-- An index that was found is that of white space. -/
theorem foundIdx_spec {i : Nat} (h : foundIdx maxLen remaining = some i) :
    0 < i ∧ i ≤ maxLen ∧ ∃ u, remaining[i]? = some u ∧ isWhiteUnit u = true := by
  rw [foundIdx, Option.or_eq_some_iff] at h
  rcases h with h | ⟨-, h⟩
  · obtain ⟨hindex, hpos⟩ := lateEnough_spec h
    obtain ⟨hle, hunit⟩ := lastIndexOf_spec hindex
    exact ⟨hpos, hle, newline, hunit, by decide⟩
  · obtain ⟨hindex, hpos⟩ := lateEnough_spec h
    obtain ⟨hle, hunit⟩ := lastIndexOf_spec hindex
    exact ⟨hpos, hle, space, hunit, by decide⟩

theorem splitIdx_bounds (hmax : 1 ≤ maxLen) (remaining : JsString) :
    0 < splitIdx maxLen remaining ∧ splitIdx maxLen remaining ≤ maxLen := by
  unfold splitIdx
  cases hfound : foundIdx maxLen remaining with
  | none => simp; omega
  | some i =>
    obtain ⟨hpos, hle, -⟩ := foundIdx_spec hfound
    exact ⟨hpos, hle⟩

theorem restOf_length (hmax : 1 ≤ maxLen) (hlong : maxLen < remaining.length) :
    (restOf maxLen remaining).length < remaining.length := by
  have hbounds := splitIdx_bounds hmax remaining
  have hle := trimStart_length_le (remaining.drop (splitIdx maxLen remaining))
  rw [List.length_drop] at hle
  unfold restOf
  omega

/-- A chunk, what is trimmed behind it, and the rest. -/
theorem remaining_eq (maxLen : Nat) (remaining : JsString) :
    remaining = chunkOf maxLen remaining ++ (remaining.drop (splitIdx maxLen remaining)).takeWhile isWhiteUnit ++
      restOf maxLen remaining := by
  unfold chunkOf restOf trimStart
  rw [List.append_assoc, List.takeWhile_append_dropWhile, List.take_append_drop]

/-! ## Nothing is lost -/

/-- The text is the chunks in order, with white space left out behind each. -/
inductive Pieces : List JsString → JsString → Prop
  | nil : Pieces [] []
  | cons {chunk white rest : JsString} {chunks : List JsString} :
      (∀ u ∈ white, isWhiteUnit u = true) → Pieces chunks rest → Pieces (chunk :: chunks) (chunk ++ white ++ rest)

theorem Pieces.kept (h : Pieces chunks text) : chunks.flatten.filter (!isWhiteUnit ·) = text.filter (!isWhiteUnit ·) := by
  induction h with
  | nil => rfl
  | @cons chunk white rest chunks hwhite hrest ih =>
    have hnone : white.filter (!isWhiteUnit ·) = [] := by
      apply List.filter_eq_nil_iff.mpr
      intro u hu
      simp [hwhite u hu]
    simp [hnone, ih]

theorem Pieces.whole (text : JsString) : Pieces [text] text := by
  have hparts : Pieces [text] (text ++ [] ++ []) := .cons (List.forall_mem_nil _) .nil
  simpa using hparts

/-- What the chunks of a text are. -/
structure Split (text : JsString) (maxLen : Nat) (chunks : List JsString) : Prop where
  bounded : ∀ chunk ∈ chunks, chunk.length ≤ maxLen
  nonempty : maxLen < text.length → ∀ chunk ∈ chunks, chunk ≠ []
  pieces : Pieces chunks text
  kept : chunks.flatten.filter (!isWhiteUnit ·) = text.filter (!isWhiteUnit ·)

/-- Enough fuel for the loop: every round takes a unit. -/
theorem splitLoop_spec (hmax : 1 ≤ maxLen) (hfuel : remaining.length ≤ fuel) :
    ∃ chunks, splitLoop maxLen fuel remaining = some chunks ∧
      (∀ chunk ∈ chunks, chunk.length ≤ maxLen ∧ chunk ≠ []) ∧ Pieces chunks remaining := by
  induction fuel generalizing remaining with
  | zero =>
    obtain rfl := List.length_eq_zero_iff.mp (Nat.le_zero.mp hfuel)
    exact ⟨[], by simp [splitLoop], by simp, .nil⟩
  | succ fuel ih =>
    rw [splitLoop]
    by_cases hlong : remaining.length ≤ maxLen
    · rw [if_pos hlong]
      by_cases hnil : remaining = []
      · exact ⟨[], by simp [hnil], by simp, hnil ▸ .nil⟩
      · exact ⟨[remaining], by simp [hnil], by simpa using ⟨hlong, hnil⟩, .whole remaining⟩
    · rw [if_neg hlong]
      have hlong : maxLen < remaining.length := Nat.lt_of_not_le hlong
      have hbounds := splitIdx_bounds hmax remaining
      have hrest := restOf_length hmax hlong
      obtain ⟨chunks, hchunks, hall, hpieces⟩ := ih (show (restOf maxLen remaining).length ≤ fuel by omega)
      refine ⟨chunkOf maxLen remaining :: chunks, by simp [hchunks], ?_, ?_⟩
      · intro chunk hmem
        rcases List.mem_cons.mp hmem with rfl | hmem
        · have hlength : (chunkOf maxLen remaining).length = splitIdx maxLen remaining := by
            rw [chunkOf, List.length_take]
            omega
          exact ⟨by omega, List.ne_nil_of_length_pos (by omega)⟩
        · exact hall chunk hmem
      · have hwhite : ∀ u ∈ (remaining.drop (splitIdx maxLen remaining)).takeWhile isWhiteUnit, isWhiteUnit u = true :=
          List.all_eq_true.mp List.all_takeWhile
        have hparts : Pieces (chunkOf maxLen remaining :: chunks) _ := .cons hwhite hpieces
        rwa [← remaining_eq] at hparts

theorem splitText_split (hmax : 1 ≤ maxLen) (text : JsString) :
    ∃ chunks, splitText text maxLen = some chunks ∧ Split text maxLen chunks := by
  unfold splitText
  by_cases hlong : text.length ≤ maxLen
  · exact ⟨[text], if_pos hlong, by simpa using hlong, fun h => absurd hlong (Nat.not_le_of_lt h), .whole text, by simp⟩
  · obtain ⟨chunks, hchunks, hall, hpieces⟩ := splitLoop_spec hmax (Nat.le_refl text.length)
    exact ⟨chunks, by rw [if_neg hlong, hchunks], fun chunk hmem => (hall chunk hmem).1, fun _ chunk hmem => (hall chunk hmem).2,
      hpieces, hpieces.kept⟩

/-- The loop ends, and the chunks are the text but for white space between them. -/
theorem splitMessage_split (text : JsString) {maxLen : Nat} (hmax : 1 ≤ maxLen) :
    (∃ chunks, Telegram.splitMessage text maxLen = some chunks ∧ Split text maxLen chunks) ∧
      (∃ chunks, WhatsApp.splitMessage text maxLen = some chunks ∧ Split text maxLen chunks) :=
  ⟨splitText_split hmax text, splitText_split hmax text⟩

theorem splitMessage_split_blanks :
    (∃ chunks, Telegram.splitMessage (ofString "ab \n  \n cd") 3 = some chunks ∧ Split (ofString "ab \n  \n cd") 3 chunks) ∧
      (∃ chunks, WhatsApp.splitMessage (ofString "ab \n  \n cd") 3 = some chunks ∧ Split (ofString "ab \n  \n cd") 3 chunks) :=
  splitMessage_split (ofString "ab \n  \n cd") (by decide)

example : Telegram.splitMessage (ofString "ab \n  \n cd") 3 = some [ofString "ab ", ofString "cd"] := by decide

/-! ## Pairs -/

/-- What the loop has left to split at some round. -/
inductive Remainder (maxLen : Nat) : JsString → JsString → Prop
  | here {text : JsString} : Remainder maxLen text text
  | next {text remaining : JsString} :
      maxLen < text.length → Remainder maxLen (restOf maxLen text) remaining → Remainder maxLen text remaining

/-- No hard split of the text stands between the halves of a pair. -/
def CutsNoPair (maxLen : Nat) (text : JsString) : Prop :=
  ∀ remaining, Remainder maxLen text remaining → maxLen < remaining.length → foundIdx maxLen remaining = none →
    endsHigh (remaining.take maxLen) = false

theorem CutsNoPair.rest (h : CutsNoPair maxLen remaining) (hlong : maxLen < remaining.length) :
    CutsNoPair maxLen (restOf maxLen remaining) :=
  fun later hlater => h later (.next hlong hlater)

/-- In front of white space no pair is cut. -/
theorem chunkOf_endsHigh (hwell : isWellFormed remaining = true) {i : Nat} (hfound : foundIdx maxLen remaining = some i) :
    endsHigh (chunkOf maxLen remaining) = false := by
  obtain ⟨-, -, u, hunit, hwhite⟩ := foundIdx_spec hfound
  obtain ⟨hlt, hget⟩ := List.getElem?_eq_some_iff.mp hunit
  have hsplit : remaining = remaining.take i ++ u :: remaining.drop (i + 1) := by
    rw [← hget, List.getElem_cons_drop, List.take_append_drop]
  rw [chunkOf, splitIdx, hfound, Option.getD_some]
  cases hend : endsHigh (remaining.take i) with
  | false => rfl
  | true =>
    rw [hsplit] at hwell
    exact absurd (isLow_of_endsHigh hwell hend) (by simp [(isWhiteUnit_plain hwhite).2])

/-- A round that cuts no pair leaves two well-formed texts. -/
theorem round_wellFormed (hwell : isWellFormed remaining = true)
    (hcut : foundIdx maxLen remaining = none → endsHigh (remaining.take maxLen) = false) :
    isWellFormed (chunkOf maxLen remaining) = true ∧ isWellFormed (restOf maxLen remaining) = true := by
  have hend : endsHigh (chunkOf maxLen remaining) = false := by
    cases hfound : foundIdx maxLen remaining with
    | none =>
      rw [chunkOf, splitIdx, hfound, Option.getD_none]
      exact hcut hfound
    | some i => exact chunkOf_endsHigh hwell hfound
  have hparts : isWellFormed (chunkOf maxLen remaining ++ remaining.drop (splitIdx maxLen remaining)) = true := by
    rwa [chunkOf, List.take_append_drop]
  exact (isWellFormed_cut hparts hend).imp_right isWellFormed_trimStart

theorem splitLoop_wellFormed (hwell : isWellFormed remaining = true) (hcut : CutsNoPair maxLen remaining)
    (hchunks : splitLoop maxLen fuel remaining = some chunks) : ∀ chunk ∈ chunks, isWellFormed chunk = true := by
  induction fuel generalizing remaining chunks with
  | zero =>
    rw [splitLoop, Option.ite_none_right_eq_some, Option.some.injEq] at hchunks
    obtain ⟨-, rfl⟩ := hchunks
    intro chunk hmem
    split at hmem
    · simp at hmem
    · rwa [List.mem_singleton.mp hmem]
  | succ fuel ih =>
    rw [splitLoop] at hchunks
    by_cases hlong : remaining.length ≤ maxLen
    · rw [if_pos hlong, Option.some.injEq] at hchunks
      subst hchunks
      intro chunk hmem
      split at hmem
      · simp at hmem
      · rwa [List.mem_singleton.mp hmem]
    · rw [if_neg hlong] at hchunks
      have hlong : maxLen < remaining.length := Nat.lt_of_not_le hlong
      obtain ⟨rest, hrest, rfl⟩ := Option.map_eq_some_iff.mp hchunks
      have hround := round_wellFormed hwell (hcut remaining .here hlong)
      intro chunk hmem
      rcases List.mem_cons.mp hmem with rfl | hmem
      · exact hround.1
      · exact ih hround.2 (hcut.rest hlong) hrest chunk hmem

/-- The chunk of every round is among those returned. -/
theorem chunkOf_mem {later : JsString} (hrem : Remainder maxLen remaining later) (hlater : maxLen < later.length)
    (hchunks : splitLoop maxLen fuel remaining = some chunks) : chunkOf maxLen later ∈ chunks := by
  induction hrem generalizing fuel chunks with
  | @here text =>
    cases fuel with
    | zero => rw [splitLoop, if_neg (Nat.not_le_of_lt hlater)] at hchunks; cases hchunks
    | succ fuel =>
      rw [splitLoop, if_neg (Nat.not_le_of_lt hlater)] at hchunks
      obtain ⟨rest, -, rfl⟩ := Option.map_eq_some_iff.mp hchunks
      exact List.mem_cons_self ..
  | @next text remaining hlong _ ih =>
    cases fuel with
    | zero => rw [splitLoop, if_neg (Nat.not_le_of_lt hlong)] at hchunks; cases hchunks
    | succ fuel =>
      rw [splitLoop, if_neg (Nat.not_le_of_lt hlong)] at hchunks
      obtain ⟨rest, hrest, rfl⟩ := Option.map_eq_some_iff.mp hchunks
      exact List.mem_cons_of_mem _ (ih hlater hrest)

theorem splitText_wellFormed (hmax : 1 ≤ maxLen) (hwell : isWellFormed text = true) :
    (∃ chunks, splitText text maxLen = some chunks ∧ ∀ chunk ∈ chunks, isWellFormed chunk = true) ↔ CutsNoPair maxLen text := by
  constructor
  · intro h later hrem hlater hfound
    obtain ⟨chunks, hchunks, hall⟩ := h
    have hmem : chunkOf maxLen later ∈ chunks := by
      rw [splitText] at hchunks
      split at hchunks
      · rename_i hshort
        cases hrem with
        | here => omega
        | next hlong => omega
      · exact chunkOf_mem hrem hlater hchunks
    have hchunk := hall _ hmem
    rw [chunkOf, splitIdx, hfound, Option.getD_none] at hchunk
    cases hend : endsHigh (later.take maxLen) with
    | false => rfl
    | true => rw [isWellFormed_endsHigh hend] at hchunk; cases hchunk
  · intro hcut
    obtain ⟨chunks, hchunks, -⟩ := splitText_split hmax text
    refine ⟨chunks, hchunks, ?_⟩
    rw [splitText] at hchunks
    split at hchunks
    · obtain rfl := Option.some.inj hchunks
      intro chunk hmem
      rwa [List.mem_singleton.mp hmem]
    · exact splitLoop_wellFormed hwell hcut hchunks

/-- The chunks of a well-formed text are well formed unless the loop comes to a hard split
    between the halves of a pair. -/
theorem splitMessage_wellFormed {text : JsString} {maxLen : Nat} (hmax : 2 ≤ maxLen) (hwell : isWellFormed text = true) :
    ((∃ chunks, Telegram.splitMessage text maxLen = some chunks ∧ ∀ chunk ∈ chunks, isWellFormed chunk = true) ↔
        CutsNoPair maxLen text) ∧
      ((∃ chunks, WhatsApp.splitMessage text maxLen = some chunks ∧ ∀ chunk ∈ chunks, isWellFormed chunk = true) ↔
        CutsNoPair maxLen text) :=
  ⟨splitText_wellFormed (by omega) hwell, splitText_wellFormed (by omega) hwell⟩

theorem splitMessage_wellFormed_smile :
    ((∃ chunks, Telegram.splitMessage (ofString "ab😀 cd") 4 = some chunks ∧ ∀ chunk ∈ chunks, isWellFormed chunk = true) ↔
        CutsNoPair 4 (ofString "ab😀 cd")) ∧
      ((∃ chunks, WhatsApp.splitMessage (ofString "ab😀 cd") 4 = some chunks ∧ ∀ chunk ∈ chunks, isWellFormed chunk = true) ↔
        CutsNoPair 4 (ofString "ab😀 cd")) :=
  splitMessage_wellFormed (by decide) (by decide)

/-- A word with a pair across the limit. -/
def longWord (maxLen : Nat) : JsString := List.replicate (maxLen - 1) 0x61 ++ [0xD83D, 0xDE00]

theorem longWord_wellFormed (maxLen : Nat) : isWellFormed (longWord maxLen) = true := by
  unfold longWord
  induction maxLen - 1 with
  | zero => decide
  | succ n ih =>
    rw [List.replicate_succ, List.cons_append, isWellFormed_plain (by decide) (by decide)]
    exact ih

theorem longWord_cut (hmax : 1 ≤ maxLen) : ¬CutsNoPair maxLen (longWord maxLen) := by
  intro hcut
  have hlength : maxLen < (longWord maxLen).length := by
    simp [longWord]
    omega
  have hnewline : newline ∉ longWord maxLen := by
    simp [longWord, newline]
  have hspace : space ∉ longWord maxLen := by
    simp [longWord, space]
  have hfound : foundIdx maxLen (longWord maxLen) = none := by
    simp [foundIdx, lateEnough, lastIndexOf_none hnewline, lastIndexOf_none hspace]
  have htake : (longWord maxLen).take maxLen = List.replicate (maxLen - 1) 0x61 ++ [0xD83D] := by
    rw [longWord, List.take_append, List.length_replicate, show maxLen - (maxLen - 1) = 1 by omega,
      List.take_of_length_le (by simp)]
    rfl
  have hend := hcut _ .here hlength hfound
  rw [htake, endsHigh, List.getLast?_concat] at hend
  exact absurd hend (by decide)

/-- The default limit cuts the pair behind 4095 letters. -/
theorem hard_split_cuts :
    isWellFormed (longWord defaultMaxLen) = true ∧
      (¬∃ chunks, Telegram.splitMessage (longWord defaultMaxLen) defaultMaxLen = some chunks ∧
        ∀ chunk ∈ chunks, isWellFormed chunk = true) ∧
      (¬∃ chunks, WhatsApp.splitMessage (longWord defaultMaxLen) defaultMaxLen = some chunks ∧
        ∀ chunk ∈ chunks, isWellFormed chunk = true) := by
  have hmax : 1 ≤ defaultMaxLen := by decide
  have hwell := longWord_wellFormed defaultMaxLen
  exact ⟨hwell, mt (splitText_wellFormed hmax hwell).mp (longWord_cut hmax), mt (splitText_wellFormed hmax hwell).mp
    (longWord_cut hmax)⟩

end FlowHelm.Channels
