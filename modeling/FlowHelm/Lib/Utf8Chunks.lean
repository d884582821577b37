/-
  FlowHelm.Lib.Utf8Chunks — a stream decoded chunk by chunk: what is ASCII stays where it is.

  Whatever a decoder makes of the other bytes, and wherever the chunks end, a byte of ASCII
  becomes its character, and no other bytes do. So the lines are the same, and so is what
  stands in front of them in ASCII.

  - `decode_ascii`: a byte of ASCII cuts what is decoded.
  - `Decoded.cut` / `Decoded.cut_text`: so it does in chunks, seen from either side.
  - `Decoded.lines`: line by line.
  - `Decoded.starts`: what a text starts with in ASCII does not depend on the chunks.
-/
import Mathlib.Data.List.Forall2
import FlowHelm.Lib.CrlfLines
import FlowHelm.Lib.Utf8

namespace Utf8

/-! ## The decoder's states -/

/-- A value that is still to take `needed - 1` bytes lands on a character beyond ASCII. -/
def Lands (needed value : Nat) : Prop :=
  (needed = 1 ∧ 0x80 ≤ value ∧ (value < 0xD800 ∨ (0xDFFF < value ∧ value < 0x110000))) ∨
    (needed = 2 ∧ 2 ≤ value ∧ (value < 0x360 ∨ (0x37F < value ∧ value < 0x4400))) ∨
      (needed = 3 ∧ 0x10 ≤ value ∧ value < 0x110)

/-- A state the decoder comes to. -/
def Sound : State → Prop
  | .start => True
  | .within value needed lower upper => 0x80 ≤ lower ∧ ∀ b, lower ≤ b → b ≤ upper → Lands needed (value * 64 + b % 64)

theorem sound_start : Sound .start := trivial

theorem sound_more {value needed : Nat} (h : Lands (needed + 2) value) : Sound (.within value (needed + 1) 0x80 0xBF) := by
  refine ⟨Nat.le_refl _, fun b hl hu => ?_⟩
  unfold Lands at *
  omega

theorem first_ascii {b : Nat} (h : b < 0x80) : first b = (.start, [Char.ofNat b]) := by rw [first, if_pos h]

theorem sound_first (b : Nat) : Sound (first b).1 ∧ (0x80 ≤ b → ∀ c ∈ (first b).2, 0x80 ≤ c.toNat) := by
  have hreplacement : 0x80 ≤ replacement.toNat := by decide
  unfold first
  split
  · exact ⟨trivial, fun h => by omega⟩
  · split
    · refine ⟨⟨Nat.le_refl _, fun b' hl hu => ?_⟩, by simp⟩
      unfold Lands
      omega
    · split
      · refine ⟨⟨by split <;> omega, fun b' hl hu => ?_⟩, by simp⟩
        unfold Lands
        split at hl <;> split at hu <;> omega
      · split
        · refine ⟨⟨by split <;> omega, fun b' hl hu => ?_⟩, by simp⟩
          unfold Lands
          split at hl <;> split at hu <;> omega
        · exact ⟨trivial, by simpa using fun _ => hreplacement⟩

theorem sound_step {q : State} (hq : Sound q) (b : Nat) :
    Sound (step q b).1 ∧ (0x80 ≤ b → ∀ c ∈ (step q b).2, 0x80 ≤ c.toNat) := by
  cases q with
  | start => exact sound_first b
  | within value needed lower upper =>
    obtain ⟨hfirst, hbeyond⟩ := sound_first b
    simp only [step]
    split
    · rename_i hin
      have hlands := hq.2 b hin.1 hin.2
      split
      · rename_i hone
        refine ⟨trivial, fun _ c hc => ?_⟩
        rw [List.mem_singleton.mp hc]
        unfold Lands at hlands
        have hvalid : (value * 64 + b % 64).isValidChar := by
          show _ ∨ _
          omega
        have hval : (Char.ofNat (value * 64 + b % 64)).toNat = value * 64 + b % 64 := by
          rw [Char.ofNat, dif_pos hvalid]
          rfl
        omega
      · rename_i hmore
        refine ⟨?_, by simp⟩
        obtain ⟨n, rfl⟩ : ∃ n, needed = n + 2 := ⟨needed - 2, by unfold Lands at hlands; omega⟩
        exact sound_more hlands
    · refine ⟨hfirst, fun hb => ?_⟩
      simp only [List.forall_mem_cons]
      exact ⟨by decide, hbeyond hb⟩

/-- A byte of ASCII ends what was read before it. -/
theorem step_ascii {q : State} (hq : Sound q) {b : Nat} (hb : b < 0x80) :
    step q b = (.start, decodeFrom q [] ++ [Char.ofNat b]) := by
  cases q with
  | start => rw [step, first_ascii hb]; rfl
  | within value needed lower upper =>
    have hlower := hq.1
    rw [step, if_neg (by omega), first_ascii hb]
    rfl

/-! ## One chunk -/

variable {b : UInt8} {a c bytes : List UInt8} {ch : Char} {x y t text : List Char}

theorem decodeFrom_ascii {q : State} (hq : Sound q) (hb : b.toNat < 0x80) (a c : List UInt8) :
    decodeFrom q (a ++ b :: c) = decodeFrom q a ++ Char.ofNat b.toNat :: decode c := by
  induction a generalizing q with
  | nil =>
    rw [List.nil_append, decodeFrom_cons, step_ascii hq hb, List.append_assoc]
    rfl
  | cons d a ih => rw [List.cons_append, decodeFrom_cons, decodeFrom_cons, ih (sound_step hq _).1, List.append_assoc]

theorem decode_ascii (hb : b.toNat < 0x80) (a c : List UInt8) :
    decode (a ++ b :: c) = decode a ++ Char.ofNat b.toNat :: decode c :=
  decodeFrom_ascii sound_start hb a c

theorem toNat_ofNat_ascii {n : Nat} (h : n < 0x80) : (Char.ofNat n).toNat = n := by
  have hvalid : n.isValidChar := .inl (by omega)
  rw [Char.ofNat, dif_pos hvalid]
  rfl

theorem pending_beyond {q : State} : ∀ d ∈ decodeFrom q [], 0x80 ≤ d.toNat := by
  cases q with
  | start => simp [decodeFrom]
  | within => simpa [decodeFrom] using by decide

/-- What stands in front of a character of ASCII is not reached by one that is beyond. -/
theorem append_eq_append_beyond {p more : List Char} (hp : ∀ d ∈ p, 0x80 ≤ d.toNat) (hch : ch.toNat < 0x80)
    (h : p ++ more = x ++ ch :: y) : ∃ z, x = p ++ z ∧ more = z ++ ch :: y := by
  rcases List.append_eq_append_iff.mp h with ⟨z, hx, hmore⟩ | ⟨z, hp', hy⟩
  · exact ⟨z, hx, hmore⟩
  · cases z with
    | nil => exact ⟨[], by simpa using hp'.symm, by simpa using hy.symm⟩
    | cons d z =>
      obtain ⟨rfl, -⟩ := List.cons.inj hy
      have hbeyond := hp ch (by rw [hp']; simp)
      omega

theorem of_decodeFrom_ascii {q : State} (hq : Sound q) (hch : ch.toNat < 0x80) (h : decodeFrom q bytes = x ++ ch :: y) :
    ∃ a b c, bytes = a ++ b :: c ∧ b.toNat = ch.toNat ∧ decodeFrom q a = x ∧ decode c = y := by
  induction bytes generalizing q x with
  | nil =>
    have hbeyond := pending_beyond ch (h ▸ List.mem_append_right x (List.mem_cons_self ..))
    omega
  | cons b bytes ih =>
    rw [decodeFrom_cons] at h
    by_cases hb : b.toNat < 0x80
    · rw [step_ascii hq hb, List.append_assoc] at h
      obtain ⟨z, rfl, hmore⟩ := append_eq_append_beyond pending_beyond hch h
      cases z with
      | nil =>
        obtain ⟨rfl, hy⟩ := List.cons.inj hmore
        exact ⟨[], b, bytes, rfl, (toNat_ofNat_ascii hb).symm, by simp, hy⟩
      | cons d z =>
        obtain ⟨rfl, htail⟩ := List.cons.inj hmore
        obtain ⟨a, b', c, rfl, hval, ha, hc⟩ := ih sound_start htail
        refine ⟨b :: a, b', c, rfl, hval, ?_, hc⟩
        rw [decodeFrom_cons, step_ascii hq hb, ha, List.append_assoc]
        rfl
    · obtain ⟨hsound, hbeyond⟩ := sound_step hq b.toNat
      obtain ⟨z, rfl, hmore⟩ := append_eq_append_beyond (hbeyond (by omega)) hch h
      obtain ⟨a, b', c, rfl, hval, ha, hc⟩ := ih hsound hmore
      exact ⟨b :: a, b', c, rfl, hval, by rw [decodeFrom_cons, ha], hc⟩

/-- At the start again, the decoder has emitted something. -/
theorem step_emits {q : State} {n : Nat} (h : (step q n).1 = .start) : (step q n).2 ≠ [] := by
  have hfirst : ∀ n, (first n).1 = .start → (first n).2 ≠ [] := by
    intro n
    unfold first
    repeat' split
    all_goals simp
  cases q with
  | start => exact hfirst n h
  | within value needed lower upper =>
    simp only [step] at h ⊢
    repeat' split
    all_goals simp_all

theorem decodeFrom_eq_nil {q : State} (h : decodeFrom q bytes = []) : q = .start ∧ bytes = [] := by
  induction bytes generalizing q with
  | nil =>
    cases q with
    | start => exact ⟨rfl, rfl⟩
    | within => cases h
  | cons b bytes ih =>
    rw [decodeFrom_cons, List.append_eq_nil_iff] at h
    exact absurd h.1 (step_emits (ih h.2).1)

/-! ## Chunks -/

/-- The text of the bytes, decoded in some chunks. -/
def Decoded (bytes : List UInt8) (text : List Char) : Prop :=
  ∃ chunks : List (List UInt8), chunks.flatten = bytes ∧ chunks.flatMap decode = text

theorem Decoded.nil : Decoded [] [] := ⟨[], rfl, rfl⟩

theorem Decoded.chunk (bytes : List UInt8) : Decoded bytes (decode bytes) := ⟨[bytes], by simp, by simp⟩

theorem Decoded.append (h : Decoded a x) (h' : Decoded c y) : Decoded (a ++ c) (x ++ y) := by
  obtain ⟨chunks, rfl, rfl⟩ := h
  obtain ⟨more, rfl, rfl⟩ := h'
  exact ⟨chunks ++ more, by simp, by simp⟩

theorem Decoded.eq_nil_iff (h : Decoded bytes text) : bytes = [] ↔ text = [] := by
  obtain ⟨chunks, rfl, rfl⟩ := h
  rw [List.flatten_eq_nil_iff, List.flatMap_eq_nil_iff]
  refine forall₂_congr fun chunk _ => ?_
  constructor
  · rintro rfl
    rfl
  · exact fun hnil => (decodeFrom_eq_nil hnil).2

theorem Decoded.cut (h : Decoded (a ++ b :: c) text) (hb : b.toNat < 0x80) :
    ∃ x y, text = x ++ Char.ofNat b.toNat :: y ∧ Decoded a x ∧ Decoded c y := by
  obtain ⟨chunks, hbytes, rfl⟩ := h
  induction chunks generalizing a with
  | nil => simp at hbytes
  | cons chunk chunks ih =>
    rw [List.flatten_cons] at hbytes
    rcases List.append_eq_append_iff.mp hbytes with ⟨z, ha, hmore⟩ | ⟨z, hchunk, hc⟩
    · obtain ⟨x, y, heq, hx, hy⟩ := ih hmore
      refine ⟨decode chunk ++ x, y, by simp [heq], ?_, hy⟩
      rw [ha]
      exact (Decoded.chunk chunk).append hx
    · cases z with
      | nil =>
        obtain ⟨x, y, heq, hx, hy⟩ := ih (show chunks.flatten = [] ++ b :: c by simpa using hc.symm)
        refine ⟨decode chunk ++ x, y, by simp [heq], ?_, hy⟩
        have happend := (Decoded.chunk chunk).append hx
        rw [List.append_nil] at hchunk happend
        rwa [← hchunk]
      | cons d z =>
        obtain ⟨rfl, rfl⟩ := List.cons.inj hc
        refine ⟨decode a, decode z ++ chunks.flatMap decode, ?_, .chunk a, (Decoded.chunk z).append ⟨chunks, rfl, rfl⟩⟩
        rw [List.flatMap_cons, hchunk, decode_ascii hb]
        simp

theorem Decoded.cut_text (h : Decoded bytes (x ++ ch :: y)) (hch : ch.toNat < 0x80) :
    ∃ a b c, bytes = a ++ b :: c ∧ b.toNat = ch.toNat ∧ Decoded a x ∧ Decoded c y := by
  obtain ⟨chunks, rfl, htext⟩ := h
  induction chunks generalizing x with
  | nil => simp at htext
  | cons chunk chunks ih =>
    rw [List.flatMap_cons] at htext
    rcases List.append_eq_append_iff.mp htext with ⟨z, hx, hmore⟩ | ⟨z, hchunk, hy⟩
    · obtain ⟨a, b, c, heq, hval, ha, hc⟩ := ih hmore
      refine ⟨chunk ++ a, b, c, by simp [heq], hval, ?_, hc⟩
      rw [hx]
      exact (Decoded.chunk chunk).append ha
    · cases z with
      | nil =>
        obtain ⟨a, b, c, heq, hval, ha, hc⟩ := ih (show chunks.flatMap decode = [] ++ ch :: y by simpa using hy.symm)
        refine ⟨chunk ++ a, b, c, by simp [heq], hval, ?_, hc⟩
        have happend := (Decoded.chunk chunk).append ha
        rw [List.append_nil] at hchunk happend
        rwa [← hchunk]
      | cons d z =>
        obtain ⟨rfl, rfl⟩ := List.cons.inj hy
        obtain ⟨a, b, c, rfl, hval, ha, hc⟩ := of_decodeFrom_ascii sound_start hch hchunk
        exact ⟨a, b, c ++ chunks.flatten, by simp, hval, ha ▸ .chunk a, (hc ▸ Decoded.chunk c).append ⟨chunks, rfl, rfl⟩⟩

/-! ## What does not depend on the chunks -/

/-- What the text starts with in ASCII. -/
theorem Decoded.starts {p : List Char} (hp : ∀ ch ∈ p, ch.toNat < 0x80) (h : Decoded bytes (p ++ x)) (h' : Decoded bytes text) :
    ∃ y, text = p ++ y := by
  induction p generalizing bytes text with
  | nil => exact ⟨text, rfl⟩
  | cons ch p ih =>
    obtain ⟨hch, hp⟩ := List.forall_mem_cons.mp hp
    obtain ⟨a, b, c, rfl, hval, ha, hc⟩ := Decoded.cut_text (show Decoded bytes ([] ++ ch :: (p ++ x)) from h) hch
    obtain rfl := ha.eq_nil_iff.mpr rfl
    obtain ⟨z, y, rfl, hz, hy⟩ := h'.cut (by omega)
    obtain rfl := hz.eq_nil_iff.mp rfl
    obtain ⟨more, rfl⟩ := ih hp hc hy
    exact ⟨more, by rw [hval, Char.ofNat_toNat]; rfl⟩

/-- CRLF within the bytes is CRLF within the text. -/
theorem Decoded.unbroken (h : Decoded bytes text) : Crlf.Unbroken 0x0D 0x0A bytes ↔ Crlf.Unbroken '\r' '\n' text := by
  refine not_congr ⟨?_, ?_⟩
  · rintro ⟨p, q, rfl⟩
    have hbytes : p ++ [0x0D, 0x0A] ++ q = p ++ 0x0D :: ([] ++ 0x0A :: q) := by simp
    rw [hbytes] at h
    obtain ⟨x, y, rfl, -, hy⟩ := h.cut (by decide)
    obtain ⟨z, w, rfl, hz, -⟩ := hy.cut (by decide)
    obtain rfl := hz.eq_nil_iff.mp rfl
    exact ⟨x, w, by simp⟩
  · rintro ⟨p, q, rfl⟩
    have htext : p ++ ['\r', '\n'] ++ q = p ++ '\r' :: ([] ++ '\n' :: q) := by simp
    rw [htext] at h
    obtain ⟨a, b, c, rfl, hb, -, hc⟩ := h.cut_text (by decide)
    obtain ⟨d, e, f, rfl, he, hd, -⟩ := hc.cut_text (by decide)
    obtain rfl := hd.eq_nil_iff.mpr rfl
    obtain rfl : b = 0x0D := UInt8.toNat_inj.mp hb
    obtain rfl : e = 0x0A := UInt8.toNat_inj.mp he
    exact ⟨a, f, by simp⟩

theorem Decoded.lines (h : Decoded bytes text) :
    List.Forall₂ Decoded (Crlf.lines 0x0D 0x0A bytes) (Crlf.lines '\r' '\n' text) := by
  -- By the bytes' length: a text with CRLF in it is cut there.
  induction hn : bytes.length using Nat.strongRecOn generalizing bytes text with
  | ind n ih =>
    by_cases hunbroken : Crlf.Unbroken 0x0D 0x0A bytes
    · rw [Crlf.lines_unbroken hunbroken, Crlf.lines_unbroken (h.unbroken.mp hunbroken)]
      exact .cons h .nil
    · obtain ⟨p, q, rfl⟩ := Classical.not_not.mp hunbroken
      have hbytes : p ++ [0x0D, 0x0A] ++ q = p ++ 0x0D :: ([] ++ 0x0A :: q) := by simp
      rw [hbytes] at h
      obtain ⟨x, y, rfl, hp, hy⟩ := h.cut (by decide)
      obtain ⟨z, w, rfl, hz, hq⟩ := hy.cut (by decide)
      obtain rfl := hz.eq_nil_iff.mp rfl
      simp only [List.length_append, List.length_cons, List.length_nil] at hn
      rw [hbytes]
      show List.Forall₂ Decoded (Crlf.lines 0x0D 0x0A (p ++ 0x0D :: 0x0A :: q)) (Crlf.lines '\r' '\n' (x ++ '\r' :: '\n' :: w))
      rw [Crlf.lines_append (by decide), Crlf.lines_append (by decide)]
      exact List.rel_append (ih p.length (by omega) hp rfl) (ih q.length (by omega) hq rfl)

theorem Decoded.complete (h : Decoded bytes text) :
    List.Forall₂ Decoded (Crlf.complete 0x0D 0x0A bytes) (Crlf.complete '\r' '\n' text) ∧
      Decoded (Crlf.unfinished 0x0D 0x0A bytes) (Crlf.unfinished '\r' '\n' text) := by
  have hlines := List.forall₂_reverse_iff.mpr h.lines
  rw [Crlf.lines_eq, Crlf.lines_eq, List.reverse_concat, List.reverse_concat] at hlines
  cases hlines with
  | cons hlast hinit => exact ⟨List.forall₂_reverse_iff.mp hinit, hlast⟩

/-- Whole lines in one chunk are decoded line by line. -/
theorem lines_decode (bytes : List UInt8) :
    Crlf.lines '\r' '\n' (decode bytes) = (Crlf.lines 0x0D 0x0A bytes).map decode := by
  induction hn : bytes.length using Nat.strongRecOn generalizing bytes with
  | ind n ih =>
    by_cases hunbroken : Crlf.Unbroken 0x0D 0x0A bytes
    · rw [Crlf.lines_unbroken hunbroken, Crlf.lines_unbroken ((Decoded.chunk bytes).unbroken.mp hunbroken)]
      rfl
    · obtain ⟨p, q, rfl⟩ := Classical.not_not.mp hunbroken
      have hbytes : p ++ [0x0D, 0x0A] ++ q = p ++ 0x0D :: ([] ++ 0x0A :: q) := by simp
      simp only [List.length_append, List.length_cons, List.length_nil] at hn
      rw [hbytes, decode_ascii (by decide), decode_ascii (by decide)]
      show Crlf.lines '\r' '\n' (decode p ++ '\r' :: '\n' :: decode q) =
        (Crlf.lines 0x0D 0x0A (p ++ 0x0D :: 0x0A :: q)).map decode
      rw [Crlf.lines_append (by decide), Crlf.lines_append (by decide), List.map_append, ih p.length (by omega) p rfl,
        ih q.length (by omega) q rfl]

theorem complete_decode (bytes : List UInt8) :
    Crlf.complete '\r' '\n' (decode bytes) = (Crlf.complete 0x0D 0x0A bytes).map decode ∧
      Crlf.unfinished '\r' '\n' (decode bytes) = decode (Crlf.unfinished 0x0D 0x0A bytes) := by
  have hlines := lines_decode bytes
  rw [Crlf.lines_eq, Crlf.lines_eq, List.map_append, List.map_singleton] at hlines
  exact ⟨List.append_inj_left' hlines rfl, by simpa using List.append_inj_right' hlines rfl⟩

end Utf8
