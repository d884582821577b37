/-
  FlowHelm.Lib.Utf8 — UTF-8, decoded piece by piece.

  `decode` is the decoder of the Encoding Standard: a byte that no character goes on with
  ends what has been read as one U+FFFD and is then read as a first byte; so does the end
  of the input. `encode` is the encoding of a text. A text that arrives in pieces, each
  decoded by itself, keeps the characters no piece ends within, and a character some piece
  ends within becomes two or more U+FFFD.

  - `decode_encode`: in one piece nothing is lost.
  - `decode_pieces`: what each character becomes.
-/

namespace Utf8

/-- Between two characters, or within one: its value so far, the bytes it needs still, and
    the least and the greatest the next may be. -/
inductive State where
  | start
  | within (value needed lower upper : Nat)
  deriving DecidableEq, Repr

def replacement : Char := '\ufffd'

def first (b : Nat) : State × List Char :=
  if b < 0x80 then (.start, [Char.ofNat b])
  else if 0xC2 ≤ b ∧ b ≤ 0xDF then (.within (b % 32) 1 0x80 0xBF, [])
  else if 0xE0 ≤ b ∧ b ≤ 0xEF then
    (.within (b % 16) 2 (if b = 0xE0 then 0xA0 else 0x80) (if b = 0xED then 0x9F else 0xBF), [])
  else if 0xF0 ≤ b ∧ b ≤ 0xF4 then
    (.within (b % 8) 3 (if b = 0xF0 then 0x90 else 0x80) (if b = 0xF4 then 0x8F else 0xBF), [])
  else (.start, [replacement])

def step : State → Nat → State × List Char
  | .start, b => first b
  | .within value needed lower upper, b =>
    if lower ≤ b ∧ b ≤ upper then
      if needed = 1 then (.start, [Char.ofNat (value * 64 + b % 64)])
      else (.within (value * 64 + b % 64) (needed - 1) 0x80 0xBF, [])
    else ((first b).1, replacement :: (first b).2)

def decodeFrom : State → List UInt8 → List Char
  | .start, [] => []
  | .within .., [] => [replacement]
  | q, b :: bytes => (step q b.toNat).2 ++ decodeFrom (step q b.toNat).1 bytes

def decode (bytes : List UInt8) : List Char := decodeFrom .start bytes

def encodeChar (c : Char) : List UInt8 := String.utf8EncodeChar c

def encode (text : List Char) : List UInt8 := text.flatMap encodeChar

@[simp] theorem encode_nil : encode [] = [] := rfl

@[simp] theorem encode_cons (c : Char) (text : List Char) : encode (c :: text) = encodeChar c ++ encode text := rfl

@[simp] theorem encode_append (text more : List Char) : encode (text ++ more) = encode text ++ encode more :=
  List.flatMap_append

theorem decodeFrom_cons (q : State) (b : UInt8) (bytes : List UInt8) :
    decodeFrom q (b :: bytes) = (step q b.toNat).2 ++ decodeFrom (step q b.toNat).1 bytes := by
  cases q <;> rfl

/-! ## One character -/

theorem step_last {value lower upper b : Nat} (hl : lower ≤ b) (hu : b ≤ upper) :
    step (.within value 1 lower upper) b = (.start, [Char.ofNat (value * 64 + b % 64)]) := by
  simp only [step]
  rw [if_pos ⟨hl, hu⟩, if_pos trivial]

theorem step_more {value needed lower upper b : Nat} (hl : lower ≤ b) (hu : b ≤ upper) :
    step (.within value (needed + 2) lower upper) b = (.within (value * 64 + b % 64) (needed + 1) 0x80 0xBF, []) := by
  simp only [step]
  rw [if_pos ⟨hl, hu⟩, if_neg (by omega)]
  rfl

/-- A byte that goes on with a character. -/
def Trail (b : UInt8) : Prop := 0x80 ≤ b.toNat ∧ b.toNat ≤ 0xBF

/-- Bytes that take the decoder from `q` to the end of a character. -/
inductive Completes : State → List UInt8 → Char → Prop
  | last {value lower upper : Nat} {b : UInt8} {c : Char} : lower ≤ b.toNat → b.toNat ≤ upper → Trail b →
      Char.ofNat (value * 64 + b.toNat % 64) = c → Completes (.within value 1 lower upper) [b] c
  | more {value needed lower upper : Nat} {b : UInt8} {bytes : List UInt8} {c : Char} : lower ≤ b.toNat → b.toNat ≤ upper →
      Trail b → Completes (.within (value * 64 + b.toNat % 64) (needed + 1) 0x80 0xBF) bytes c →
      Completes (.within value (needed + 2) lower upper) (b :: bytes) c

theorem Completes.decode {q : State} {bytes : List UInt8} {c : Char} (h : Completes q bytes c) (rest : List UInt8) :
    decodeFrom q (bytes ++ rest) = c :: decode rest := by
  induction h with
  | last hl hu _ hc =>
    rw [List.singleton_append, decodeFrom_cons, step_last hl hu, hc]
    rfl
  | more hl hu _ _ ih =>
    rw [List.cons_append, decodeFrom_cons, step_more hl hu]
    exact ih

/-- Cut short, it is one U+FFFD. -/
theorem Completes.cut {q : State} {bytes : List UInt8} {c : Char} (h : Completes q bytes c) {p rest : List UInt8}
    (hp : bytes = p ++ rest) (hrest : rest ≠ []) : decodeFrom q p = [replacement] := by
  induction h generalizing p with
  | last =>
    cases p with
    | nil => rfl
    | cons b p =>
      have hnil := (List.append_eq_nil_iff.mp (List.cons.inj hp).2.symm).2
      exact (hrest hnil).elim
  | more hl hu _ _ ih =>
    cases p with
    | nil => rfl
    | cons b p =>
      obtain ⟨rfl, htail⟩ := List.cons.inj hp
      rw [decodeFrom_cons, step_more hl hu]
      exact ih htail

theorem Completes.trail {q : State} {bytes : List UInt8} {c : Char} (h : Completes q bytes c) : ∀ b ∈ bytes, Trail b := by
  induction h with
  | last _ _ ht _ =>
    intro b hb
    rw [List.mem_singleton.mp hb]
    exact ht
  | more _ _ ht _ ih =>
    intro b hb
    rcases List.mem_cons.mp hb with rfl | hb
    · exact ht
    · exact ih b hb

theorem toNat_byte {n : Nat} (h : n < 256) : (UInt8.ofNat n).toNat = n := by
  rw [UInt8.toNat_ofNat']
  omega

theorem trail_byte {n : Nat} (h : n < 64) : Trail (UInt8.ofNat (n + 0x80)) := by
  unfold Trail
  rw [toNat_byte (by omega)]
  omega

theorem first_two {b : Nat} (h : 0xC2 ≤ b) (h' : b ≤ 0xDF) : first b = (.within (b % 32) 1 0x80 0xBF, []) := by
  unfold first
  rw [if_neg (by omega), if_pos ⟨h, h'⟩]

theorem first_three {b : Nat} (h : 0xE0 ≤ b) (h' : b ≤ 0xEF) :
    first b = (.within (b % 16) 2 (if b = 0xE0 then 0xA0 else 0x80) (if b = 0xED then 0x9F else 0xBF), []) := by
  unfold first
  rw [if_neg (by omega), if_neg (by omega), if_pos ⟨h, h'⟩]

theorem first_four {b : Nat} (h : 0xF0 ≤ b) (h' : b ≤ 0xF4) :
    first b = (.within (b % 8) 3 (if b = 0xF0 then 0x90 else 0x80) (if b = 0xF4 then 0x8F else 0xBF), []) := by
  unfold first
  rw [if_neg (by omega), if_neg (by omega), if_neg (by omega), if_pos ⟨h, h'⟩]

theorem toNat_valid (c : Char) : c.toNat < 0xD800 ∨ (0xDFFF < c.toNat ∧ c.toNat < 0x110000) := c.valid

/-- A byte of a character after the first. -/
theorem completes_last {value lower upper n : Nat} {c : Char} (hn : n < 64) (hl : lower ≤ n + 0x80) (hu : n + 0x80 ≤ upper)
    (hc : value * 64 + n = c.toNat) : Completes (.within value 1 lower upper) [UInt8.ofNat (n + 0x80)] c := by
  refine .last (by rwa [toNat_byte (by omega)]) (by rwa [toNat_byte (by omega)]) (trail_byte hn) ?_
  rw [toNat_byte (by omega), show (n + 0x80) % 64 = n by omega, hc, Char.ofNat_toNat]

theorem completes_more {value needed lower upper n : Nat} {bytes : List UInt8} {c : Char} (hn : n < 64)
    (hl : lower ≤ n + 0x80) (hu : n + 0x80 ≤ upper)
    (h : Completes (.within (value * 64 + n) (needed + 1) 0x80 0xBF) bytes c) :
    Completes (.within value (needed + 2) lower upper) (UInt8.ofNat (n + 0x80) :: bytes) c := by
  refine .more (by rwa [toNat_byte (by omega)]) (by rwa [toNat_byte (by omega)]) (trail_byte hn) ?_
  rw [toNat_byte (by omega), show (n + 0x80) % 64 = n by omega]
  exact h

/-- A character is one byte below 0x80, or a first byte and what completes it. -/
theorem encodeChar_cases (c : Char) :
    (∃ b : UInt8, encodeChar c = [b] ∧ b.toNat = c.toNat ∧ c.toNat < 0x80) ∨
      ∃ b bytes q, encodeChar c = b :: bytes ∧ first b.toNat = (q, []) ∧ Completes q bytes c := by
  have hv : c.val.toNat = c.toNat := rfl
  have hvalid := toNat_valid c
  unfold encodeChar String.utf8EncodeChar
  simp only [hv]
  by_cases h1 : c.toNat ≤ 0x7f
  · rw [if_pos h1]
    exact Or.inl ⟨_, rfl, toNat_byte (by omega), by omega⟩
  · rw [if_neg h1]
    refine Or.inr ?_
    by_cases h2 : c.toNat ≤ 0x7ff
    · rw [if_pos h2]
      refine ⟨_, _, .within (c.toNat / 64) 1 0x80 0xBF, rfl, ?_, ?_⟩
      · rw [toNat_byte (by omega), first_two (by omega) (by omega)]
        congr 2
        omega
      · exact completes_last (by omega) (by omega) (by omega) (by omega)
    · rw [if_neg h2]
      by_cases h3 : c.toNat ≤ 0xffff
      · rw [if_pos h3]
        refine ⟨_, _, .within (c.toNat / 4096) 2 (if c.toNat / 4096 = 0 then 0xA0 else 0x80)
          (if c.toNat / 4096 = 0xD then 0x9F else 0xBF), rfl, ?_, ?_⟩
        · rw [toNat_byte (by omega), first_three (by omega) (by omega)]
          congr 2
          · omega
          · simp only [show c.toNat / 4096 % 16 + 0xe0 = 0xE0 ↔ c.toNat / 4096 = 0 by omega]
          · simp only [show c.toNat / 4096 % 16 + 0xe0 = 0xED ↔ c.toNat / 4096 = 0xD by omega]
        · refine completes_more (by omega) ?_ ?_ (completes_last (by omega) (by omega) (by omega) (by omega))
          · split <;> omega
          · split <;> omega
      · rw [if_neg h3]
        refine ⟨_, _, .within (c.toNat / 262144) 3 (if c.toNat / 262144 = 0 then 0x90 else 0x80)
          (if c.toNat / 262144 = 4 then 0x8F else 0xBF), rfl, ?_, ?_⟩
        · rw [toNat_byte (by omega), first_four (by omega) (by omega)]
          congr 2
          · omega
          · simp only [show c.toNat / 262144 % 8 + 0xf0 = 0xF0 ↔ c.toNat / 262144 = 0 by omega]
          · simp only [show c.toNat / 262144 % 8 + 0xf0 = 0xF4 ↔ c.toNat / 262144 = 4 by omega]
        · refine completes_more (by omega) ?_ ?_ (completes_more (by omega) (by omega) (by omega)
            (completes_last (by omega) (by omega) (by omega) (by omega)))
          · split <;> omega
          · split <;> omega

theorem encodeChar_ne_nil (c : Char) : encodeChar c ≠ [] := by
  rcases encodeChar_cases c with ⟨b, hb, -⟩ | ⟨b, bytes, q, hb, -⟩
  · rw [hb]
    exact List.cons_ne_nil _ _
  · rw [hb]
    exact List.cons_ne_nil _ _

theorem decode_encodeChar (c : Char) (rest : List UInt8) : decode (encodeChar c ++ rest) = c :: decode rest := by
  unfold decode
  rcases encodeChar_cases c with ⟨b, hb, hc, hlt⟩ | ⟨b, bytes, q, hb, hfirst, hbytes⟩
  · rw [hb, List.singleton_append, decodeFrom_cons]
    simp only [step, first]
    rw [if_pos (by omega), hc, Char.ofNat_toNat]
    rfl
  · rw [hb, List.cons_append, decodeFrom_cons]
    simp only [step, hfirst]
    exact hbytes.decode rest

/-- A text in one piece. -/
theorem decode_encode (text : List Char) : decode (encode text) = text := by
  induction text with
  | nil => rfl
  | cons c text ih => rw [encode_cons, decode_encodeChar, ih]

theorem decode_cut {c : Char} {p q : List UInt8} (h : encodeChar c = p ++ q) (hp : p ≠ []) (hq : q ≠ []) :
    decode p = [replacement] := by
  obtain ⟨a, p, rfl⟩ := List.exists_cons_of_ne_nil hp
  rcases encodeChar_cases c with ⟨b, hb, -⟩ | ⟨b, bytes, q', hb, hfirst, hbytes⟩
  · rw [hb] at h
    have hnil := (List.append_eq_nil_iff.mp (List.cons.inj h).2.symm).2
    exact (hq hnil).elim
  · rw [hb] at h
    obtain ⟨rfl, htail⟩ := List.cons.inj h
    unfold decode
    rw [decodeFrom_cons]
    simp only [step, hfirst]
    exact hbytes.cut htail hq

theorem encodeChar_trail {c : Char} {p q : List UInt8} (h : encodeChar c = p ++ q) (hp : p ≠ []) : ∀ b ∈ q, Trail b := by
  obtain ⟨a, p, rfl⟩ := List.exists_cons_of_ne_nil hp
  intro x hx
  rcases encodeChar_cases c with ⟨b, hb, -⟩ | ⟨b, bytes, q', hb, -, hbytes⟩
  · rw [hb] at h
    have hnil := (List.append_eq_nil_iff.mp (List.cons.inj h).2.symm).2
    rw [hnil] at hx
    cases hx
  · rw [hb] at h
    refine hbytes.trail x ?_
    rw [(List.cons.inj h).2]
    exact List.mem_append_right p hx

/-- What no character begins with is read as one U+FFFD a byte. -/
theorem decode_trail {q : List UInt8} (h : ∀ b ∈ q, Trail b) (rest : List UInt8) :
    decode (q ++ rest) = List.replicate q.length replacement ++ decode rest := by
  induction q with
  | nil => rfl
  | cons b q ih =>
    have hb := h b (.head _)
    unfold Trail at hb
    have hfirst : first b.toNat = (.start, [replacement]) := by
      unfold first
      rw [if_neg (by omega), if_neg (by omega), if_neg (by omega), if_neg (by omega)]
    have hrest := ih fun x hx => h x (.tail _ hx)
    unfold decode at *
    rw [List.cons_append, decodeFrom_cons]
    simp only [step, hfirst]
    rw [hrest]
    rfl

/-! ## Pieces -/

/-- Where the pieces end. -/
def ends (offset : Nat) : List (List UInt8) → List Nat
  | [] => []
  | piece :: pieces => (offset + piece.length) :: ends (offset + piece.length) pieces

/-- A piece ends within the character at `offset`. -/
def Torn (pieces : List (List UInt8)) (offset : Nat) (c : Char) : Prop :=
  ∃ n ∈ ends 0 pieces, offset < n ∧ n < offset + (encodeChar c).length

/-- What has become of a character. -/
def Became (torn : Prop) (c : Char) (block : List Char) : Prop :=
  (¬torn ∧ block = [c]) ∨ (torn ∧ ∃ n, 2 ≤ n ∧ block = List.replicate n replacement)

theorem le_ends {pieces : List (List UInt8)} {offset n : Nat} (h : n ∈ ends offset pieces) : offset ≤ n := by
  induction pieces generalizing offset with
  | nil => cases h
  | cons piece pieces ih =>
    rcases List.mem_cons.mp h with rfl | h
    · omega
    · have hle := ih h
      omega

/-- An end past the first piece's. -/
theorem mem_ends {piece : List UInt8} {pieces : List (List UInt8)} {offset n : Nat} (h : offset + piece.length < n) :
    n ∈ ends offset (piece :: pieces) ↔ n ∈ ends (offset + piece.length) pieces := by
  show n ∈ (offset + piece.length) :: ends (offset + piece.length) pieces ↔ _
  rw [List.mem_cons]
  constructor
  · intro hn
    rcases hn with rfl | hn
    · omega
    · exact hn
  · exact Or.inr

/-- Of the pieces the first `n` bytes come out as `block`, and `rest` is left. -/
structure Splits (pieces : List (List UInt8)) (offset n : Nat) (block : List Char) (rest : List (List UInt8)) : Prop where
  decode : pieces.flatMap decode = block ++ rest.flatMap decode
  ends : ∀ k, offset + n < k → (k ∈ ends offset pieces ↔ k ∈ ends (offset + n) rest)

theorem Splits.here {x a : List UInt8} {block : List Char} (h : Utf8.decode (x ++ a) = block ++ Utf8.decode a)
    (pieces : List (List UInt8)) (offset : Nat) : Splits ((x ++ a) :: pieces) offset x.length block (a :: pieces) := by
  refine ⟨?_, fun k _ => ?_⟩
  · rw [List.flatMap_cons, List.flatMap_cons, h, List.append_assoc]
  · show k ∈ (offset + (x ++ a).length) :: Utf8.ends (offset + (x ++ a).length) pieces ↔
      k ∈ (offset + x.length + a.length) :: Utf8.ends (offset + x.length + a.length) pieces
    rw [List.length_append, Nat.add_assoc]

theorem Splits.later {x : List UInt8} {block more : List Char} {pieces rest : List (List UInt8)} {offset n : Nat}
    (h : Utf8.decode x = block) (hs : Splits pieces (offset + x.length) n more rest) :
    Splits (x :: pieces) offset (x.length + n) (block ++ more) rest := by
  refine ⟨?_, fun k hk => ?_⟩
  · rw [List.flatMap_cons, h, hs.decode, List.append_assoc]
  · rw [mem_ends (by omega), hs.ends k (by omega), Nat.add_assoc]

/-- A piece ends before `e` does, or has all of it. -/
theorem piece_cases {x e ys bytes : List UInt8} (h : x ++ ys = e ++ bytes) :
    (∃ a, a ≠ [] ∧ e = x ++ a ∧ ys = a ++ bytes) ∨ ∃ a, x = e ++ a ∧ bytes = a ++ ys := by
  rcases List.append_eq_append_iff.mp h with ⟨a, he, hys⟩ | ⟨a, hx, hbytes⟩
  · by_cases ha : a = []
    · subst ha
      rw [List.append_nil] at he
      exact Or.inr ⟨[], by rw [he, List.append_nil], hys.symm⟩
    · exact Or.inl ⟨a, ha, he, hys⟩
  · exact Or.inr ⟨a, hx, hbytes⟩

/-- The pieces go on within a character: `q` is the rest of it. -/
theorem splits_within {c : Char} {p q bytes : List UInt8} {pieces : List (List UInt8)} (offset : Nat)
    (hc : encodeChar c = p ++ q) (hp : p ≠ []) (hq : q ≠ []) (h : pieces.flatten = q ++ bytes) :
    ∃ rest, rest.flatten = bytes ∧ Splits pieces offset q.length (List.replicate q.length replacement) rest := by
  induction pieces generalizing p q offset with
  | nil => exact (hq (List.append_eq_nil_iff.mp h.symm).1).elim
  | cons x pieces ih =>
    have htrail := encodeChar_trail hc hp
    rcases piece_cases h with ⟨a, ha, rfl, hrest⟩ | ⟨a, rfl, hbytes⟩
    · have hc' : encodeChar c = (p ++ x) ++ a := by rw [hc, List.append_assoc]
      obtain ⟨rest, hflat, hs⟩ := ih (offset + x.length) hc' (by simp [hp]) ha hrest
      have hx := decode_trail (q := x) (fun b hb => htrail b (List.mem_append_left a hb)) []
      rw [List.append_nil] at hx
      refine ⟨rest, hflat, ?_⟩
      rw [List.length_append, ← List.replicate_append_replicate]
      exact hs.later (hx.trans (List.append_nil _))
    · exact ⟨a :: pieces, hbytes.symm, Splits.here (decode_trail htrail a) pieces offset⟩

/-- The first character of the pieces, and the pieces of what follows. -/
theorem splits_first {c : Char} {bytes : List UInt8} {pieces : List (List UInt8)} (offset : Nat)
    (h : pieces.flatten = encodeChar c ++ bytes) :
    ∃ block rest, rest.flatten = bytes ∧ Splits pieces offset (encodeChar c).length block rest ∧
      Became (∃ n ∈ ends offset pieces, offset < n ∧ n < offset + (encodeChar c).length) c block := by
  induction pieces with
  | nil => exact (encodeChar_ne_nil c (List.append_eq_nil_iff.mp h.symm).1).elim
  | cons x pieces ih =>
    rcases piece_cases h with ⟨a, ha, hc, hrest⟩ | ⟨a, rfl, hbytes⟩
    · by_cases hx : x = []
      · -- an empty piece
        subst hx
        obtain ⟨block, rest, hflat, hs, hbecame⟩ := ih h
        have hs' : Splits ([] :: pieces) offset (0 + (encodeChar c).length) ([] ++ block) rest := Splits.later rfl hs
        rw [Nat.zero_add] at hs'
        refine ⟨block, rest, hflat, hs', ?_⟩
        have hiff : (∃ n ∈ ends offset ([] :: pieces), offset < n ∧ n < offset + (encodeChar c).length) ↔
            ∃ n ∈ ends offset pieces, offset < n ∧ n < offset + (encodeChar c).length := by
          refine exists_congr fun n => and_congr_left fun hn => ?_
          exact mem_ends hn.1
        unfold Became
        rw [hiff]
        exact hbecame
      · have hpos := List.length_pos_iff.mpr hx
        have hpos' := List.length_pos_iff.mpr ha
        obtain ⟨rest, hflat, hs⟩ := splits_within (offset + x.length) hc hx ha hrest
        have hs' := hs.later (decode_cut hc hx ha)
        rw [← List.length_append, ← hc] at hs'
        refine ⟨_, rest, hflat, hs', Or.inr ⟨⟨offset + x.length, .head _, by omega, ?_⟩, a.length + 1, by omega, rfl⟩⟩
        rw [hc, List.length_append]
        omega
    · refine ⟨[c], a :: pieces, hbytes.symm, Splits.here (decode_encodeChar c a) pieces offset, Or.inl ⟨?_, rfl⟩⟩
      intro htorn
      obtain ⟨n, hn, _, hlt⟩ := htorn
      rcases List.mem_cons.mp hn with rfl | hn
      · rw [List.length_append] at hlt
        omega
      · have hle := le_ends hn
        rw [List.length_append] at hle
        omega

theorem decode_pieces_at {text : List Char} {pieces : List (List UInt8)} (offset : Nat) (h : pieces.flatten = encode text) :
    ∃ blocks : List (Char × List Char), blocks.map Prod.fst = text ∧ pieces.flatMap decode = blocks.flatMap Prod.snd ∧
      ∀ a x b, blocks = a ++ x :: b → Became (∃ n ∈ ends offset pieces, offset + (encode (a.map Prod.fst)).length < n ∧
        n < offset + (encode (a.map Prod.fst)).length + (encodeChar x.1).length) x.1 x.2 := by
  induction text generalizing pieces offset with
  | nil =>
    refine ⟨[], rfl, ?_, fun a x b hb => ?_⟩
    · have hnil : ∀ piece ∈ pieces, piece = [] := List.flatten_eq_nil_iff.mp h
      rw [List.flatMap_nil, List.flatMap_eq_nil_iff]
      intro piece hpiece
      rw [hnil piece hpiece]
      rfl
    · exact absurd hb (by simp)
  | cons c text ih =>
    rw [encode_cons] at h
    obtain ⟨block, rest, hflat, hs, hbecame⟩ := splits_first offset h
    obtain ⟨blocks, htext, hdecode, hall⟩ := ih (offset + (encodeChar c).length) hflat
    refine ⟨(c, block) :: blocks, by rw [List.map_cons, htext], ?_, fun a x b hb => ?_⟩
    · rw [hs.decode, hdecode]
      rfl
    · cases a with
      | nil =>
        obtain ⟨rfl, -⟩ := List.cons.inj hb
        exact hbecame
      | cons y a =>
        obtain ⟨rfl, htail⟩ := List.cons.inj hb
        have hx := hall a x b htail
        have hlength : (encode (((c, block) :: a).map Prod.fst)).length =
            (encodeChar c).length + (encode (a.map Prod.fst)).length := by
          rw [List.map_cons, encode_cons, List.length_append]
        have hiff : (∃ n ∈ ends (offset + (encodeChar c).length) rest,
            offset + (encodeChar c).length + (encode (a.map Prod.fst)).length < n ∧
              n < offset + (encodeChar c).length + (encode (a.map Prod.fst)).length + (encodeChar x.1).length) ↔
            ∃ n ∈ ends offset pieces, offset + (encode (((c, block) :: a).map Prod.fst)).length < n ∧
              n < offset + (encode (((c, block) :: a).map Prod.fst)).length + (encodeChar x.1).length := by
          rw [hlength, ← Nat.add_assoc]
          refine exists_congr fun n => ?_
          constructor
          · intro hn
            exact ⟨(hs.ends n (by omega)).mpr hn.1, hn.2⟩
          · intro hn
            exact ⟨(hs.ends n (by omega)).mp hn.1, hn.2⟩
        unfold Became at hx ⊢
        rw [← hiff]
        exact hx

/-- A text in pieces. -/
theorem decode_pieces {text : List Char} {pieces : List (List UInt8)} (h : pieces.flatten = encode text) :
    ∃ blocks : List (Char × List Char), blocks.map Prod.fst = text ∧ pieces.flatMap decode = blocks.flatMap Prod.snd ∧
      ∀ a x b, blocks = a ++ x :: b → Became (Torn pieces (encode (a.map Prod.fst)).length x.1) x.1 x.2 := by
  have hblocks := decode_pieces_at 0 h
  simp only [Nat.zero_add] at hblocks
  exact hblocks

end Utf8
