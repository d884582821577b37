/-
  FlowHelm.Lib.QrReader — reading a QR symbol of version 1 to 4, level M, as ISO/IEC 18004 has
  it. Nothing in the symbol is damaged: no error is corrected.

  A module is at its row and column. The format information is that beside the top left finder.

  - `read`: the bytes a symbol holds.
  - `zigzag_nodup`: no module comes twice.
  - `Intact`: what is prescribed apart from the data, which the reader does not look at but for the
    format: finders, timing, alignment, the dark module, and the format information twice.
-/
import Mathlib.Data.Int.Range
import Mathlib.Data.List.Nodup
import Mathlib.Data.List.ProdSigma
import FlowHelm.Lib.BitString

namespace Qr

structure Symbol where
  size : Nat
  dark : Int × Int → Bool

/-! ## Tables -/

/-- The data codewords of a version, in blocks of one length. -/
structure Layout where
  blocks : Nat
  perBlock : Nat

def layout : Nat → Option Layout
  | 1 => some ⟨1, 16⟩
  | 2 => some ⟨1, 28⟩
  | 3 => some ⟨1, 44⟩
  | 4 => some ⟨2, 32⟩
  | _ => none

def sizeOf (version : Nat) : Nat := 17 + 4 * version

/-- Finders with their separators and the format information, timing, and the alignment pattern. -/
def isFunction (version : Nat) (p : Int × Int) : Bool :=
  let size : Int := sizeOf version
  (p.1 ≤ 8 && p.2 ≤ 8) || (p.1 ≤ 8 && size - 8 ≤ p.2) || (size - 8 ≤ p.1 && p.2 ≤ 8) || p.1 == 6 || p.2 == 6 ||
    (2 ≤ version && size - 9 ≤ p.1 && p.1 ≤ size - 5 && size - 9 ≤ p.2 && p.2 ≤ size - 5)

/-- The condition of a mask, for row `i` and column `j`. -/
def condition : Nat → Int → Int → Bool
  | 0, i, j => (i + j) % 2 == 0
  | 1, i, _ => i % 2 == 0
  | 2, _, j => j % 3 == 0
  | 3, i, j => (i + j) % 3 == 0
  | 4, i, j => (i / 2 + j / 3) % 2 == 0
  | 5, i, j => i * j % 2 + i * j % 3 == 0
  | 6, i, j => (i * j % 2 + i * j % 3) % 2 == 0
  | _, i, j => ((i + j) % 2 + i * j % 3) % 2 == 0

/-! ## Format information -/

/-- From bit 14 down to bit 0. -/
def formatModules : List (Int × Int) :=
  [(8, 0), (8, 1), (8, 2), (8, 3), (8, 4), (8, 5), (8, 7), (8, 8), (7, 8), (5, 8), (4, 8), (3, 8), (2, 8), (1, 8), (0, 8)]

/-- The remainder of the (15, 5) code, by x¹⁰ + x⁸ + x⁵ + x⁴ + x² + x + 1. -/
def remainder (data : Nat) : Nat :=
  (List.range 10).foldl (fun rem _ => (rem <<< 1) ^^^ ((rem >>> 9) * 0x537)) data

/-- The level and the mask, of a word of the code. -/
def format? (bits : Nat) : Option (Nat × Nat) :=
  let word := bits ^^^ 0x5412
  let data := word >>> 10
  if word = data <<< 10 ||| remainder data then some (data / 8, data % 8) else none

/-! ## Data modules -/

/-- Column pairs from the right, upward first; column 6 is in none. -/
def zigzag (size : Nat) : List (Int × Int) :=
  ((List.range ((size - 1) / 2)) ×ˢ (List.range size) ×ˢ (List.range 2)).map fun x =>
    let right := if size - 1 - 2 * x.1 ≤ 6 then size - 2 - 2 * x.1 else size - 1 - 2 * x.1
    (if x.1 % 2 = 0 then ((size - 1 - x.2.1 : Nat) : Int) else (x.2.1 : Int), (right : Int) - x.2.2)

def dataModules (version : Nat) : List (Int × Int) := (zigzag (sizeOf version)).filter fun p => !isFunction version p

theorem zigzag_nodup (size : Nat) : (zigzag size).Nodup := by
  refine List.Nodup.map_on ?_ (List.nodup_range.product (List.nodup_range.product List.nodup_range))
  rintro ⟨k, i, j⟩ hx ⟨k', i', j'⟩ hy heq
  simp only [List.mem_product, List.mem_range] at hx hy
  simp only [Prod.mk.injEq] at heq ⊢
  obtain ⟨hk, hi, hj⟩ := hx
  obtain ⟨hk', hi', hj'⟩ := hy
  obtain ⟨hrow, hcol⟩ := heq
  -- the column gives the pair and the side, the row then the turn
  have hpair : k = k' ∧ j = j' := by
    split at hcol <;> split at hcol <;> omega
  obtain ⟨rfl, rfl⟩ := hpair
  refine ⟨rfl, ?_, rfl⟩
  split at hrow <;> omega

/-! ## Reading -/

/-- The data, block after block. -/
def deinterleave (l : Layout) (codewords : List UInt8) : List UInt8 :=
  (List.range l.blocks).flatMap fun block => (List.range l.perBlock).map fun i => codewords.getD (i * l.blocks + block) 0

/-- Byte mode, the count in eight bits, and so many bytes. -/
def parse (data : List UInt8) : Option (List UInt8) :=
  let bits := Bits.ofBytes data
  let count := Bits.toNat ((bits.drop 4).take 8)
  let message := (bits.drop 12).take (8 * count)
  if Bits.toNat (bits.take 4) = 4 ∧ message.length = 8 * count then some (Bits.toBytes message) else none

def read (s : Symbol) : Option (List UInt8) := do
  let version := (s.size - 17) / 4
  let l ← layout version
  let (level, mask) ← format? (Bits.toNat (formatModules.map s.dark))
  if s.size ≠ sizeOf version ∨ level ≠ 0 then none
  else
    let bits := (dataModules version).map fun p => s.dark p ^^ condition mask p.1 p.2
    parse (deinterleave l (Bits.toBytes bits))

/-! ## Apart from the data -/

/-- In rings: 0 is the module, 1 the eight around it. -/
def distance (p q : Int × Int) : Nat := max (p.1 - q.1).natAbs (p.2 - q.2).natAbs

def finderCentres (size : Int) : List (Int × Int) := [(3, 3), (3, size - 4), (size - 4, 3)]

/-- The format information under the top right finder and beside the bottom left one, from bit 14
    down to bit 0. -/
def mirrorModules (size : Int) : List (Int × Int) :=
  [(size - 1, 8), (size - 2, 8), (size - 3, 8), (size - 4, 8), (size - 5, 8), (size - 6, 8), (size - 7, 8), (8, size - 8),
    (8, size - 7), (8, size - 6), (8, size - 5), (8, size - 4), (8, size - 3), (8, size - 2), (8, size - 1)]

structure Patterns (s : Symbol) : Prop where
  /-- The fourth ring is the separator. -/
  finders : ∀ centre ∈ finderCentres s.size, ∀ p : Int × Int, 0 ≤ p.1 ∧ p.1 < s.size → 0 ≤ p.2 ∧ p.2 < s.size →
    distance p centre ≤ 4 → s.dark p = (distance p centre != 2 && distance p centre != 4)
  timing : ∀ i : Int, 8 ≤ i → i < s.size - 8 → s.dark (6, i) = (i % 2 == 0) ∧ s.dark (i, 6) = (i % 2 == 0)
  alignment : 25 ≤ s.size → ∀ p, distance p ((s.size : Int) - 7, s.size - 7) ≤ 2 →
    s.dark p = (distance p ((s.size : Int) - 7, s.size - 7) != 1)

structure Intact (s : Symbol) (format : Nat) : Prop extends Patterns s where
  darkModule : s.dark ((s.size : Int) - 8, 8) = true
  formatInfo : formatModules.map s.dark = Bits.ofNat 15 format
  mirrored : (mirrorModules s.size).map s.dark = Bits.ofNat 15 format

end Qr
