/-
  FlowHelm.AuthBridge.QrMatrix — qr.ts: the modules of a QR symbol.

  A matrix is a function of row and column; every access is inside it. The first of the masks
  with the least penalty is taken.

  - `pickMask_eq`: what comes out is the base matrix under one of the eight masks.
-/
import Mathlib.Algebra.GroupWithZero.Nat
import FlowHelm.AuthBridge.QrData
import FlowHelm.Lib.Filling

namespace FlowHelm.AuthBridge

open Js Qr

/-! ## Module placement -/

/-- `none` is not yet placed. -/
structure Draft where
  matrix : Int × Int → Option Bool
  reserved : Int × Int → Bool

namespace Draft

def empty : Draft := ⟨fun _ => none, fun _ => false⟩

def place (d : Draft) (p : Int × Int) (dark : Bool) : Draft :=
  ⟨Function.update d.matrix p (some dark), Function.update d.reserved p true⟩

def reserve (d : Draft) (p : Int × Int) : Draft :=
  if d.reserved p then d else { d with reserved := Function.update d.reserved p true }

/-- The outer border and the inner 3x3. -/
def finderDark (r c : Int) : Bool :=
  (0 ≤ r && r ≤ 6 && 0 ≤ c && c ≤ 6) && (r == 0 || r == 6 || c == 0 || c == 6 || (2 ≤ r && r ≤ 4 && 2 ≤ c && c ≤ 4))

def placeFinder (size row col : Int) (d : Draft) : Draft :=
  (Int.range (-1) 8).foldl (fun d r => (Int.range (-1) 8).foldl (fun d c =>
    let mr := row + r
    let mc := col + c
    if mr < 0 ∨ size ≤ mr ∨ mc < 0 ∨ size ≤ mc then d else d.place (mr, mc) (finderDark r c)) d) d

def placeTiming (size : Int) (d : Draft) : Draft :=
  (Int.range 8 (size - 8)).foldl (fun d i =>
    let dark := i % 2 == 0
    let d := if d.matrix (6, i) = none then d.place (6, i) dark else d
    if d.matrix (i, 6) = none then d.place (i, 6) dark else d) d

def placeAlignmentAt (row col : Int) (d : Draft) : Draft :=
  (Int.range (-2) 3).foldl (fun d r => (Int.range (-2) 3).foldl (fun d c =>
    d.place (row + r, col + c) (r.natAbs == 2 || c.natAbs == 2 || (r == 0 && c == 0))) d) d

def placeAlignment (alignPos : List Int) (d : Draft) : Draft :=
  alignPos.foldl (fun d row => alignPos.foldl (fun d col =>
    if d.reserved (row, col) then d else d.placeAlignmentAt row col) d) d

def reserveFormat (size : Int) (d : Draft) : Draft :=
  let d := (Int.range 0 9).foldl (fun d i => (d.reserve (8, i)).reserve (i, 8)) d
  let d := (Int.range 0 8).foldl (fun d i => d.reserve (8, size - 1 - i)) d
  (Int.range 0 8).foldl (fun d i => d.reserve (size - 1 - i, 8)) d

end Draft

/-- All function patterns. -/
def functionPatterns (v : Version) : Draft :=
  let size : Int := v.size
  let d := Draft.empty.placeFinder size 0 0
  let d := d.placeFinder size 0 (size - 7)
  let d := d.placeFinder size (size - 7) 0
  let d := d.placeTiming size
  let d := d.placeAlignment v.alignmentPositions
  let d := d.place (size - 8, 8) true
  d.reserveFormat size

/-- The values of `col` that a strip is placed at, where so many columns are left. -/
def strips : Nat → List Nat
  | 0 => []
  | 7 => strips 6
  | 1 => [0]
  | cols + 2 => (cols + 1) :: strips cols

/-- The modules the strips go through, reserved or not. -/
def visits (size : Nat) : List (Int × Int) :=
  (strips size).flatMap fun col =>
    let stripIndex := if 7 ≤ col then (size - 1 - col) / 2 else (size - 2 - col) / 2
    let goingUp := stripIndex % 2 == 0
    (List.range size).flatMap fun i =>
      let row := if goingUp then size - 1 - i else i
      [0, -1].filterMap fun dc : Int =>
        let c := (col : Int) + dc
        if c < 0 ∨ (size : Int) ≤ c then none else some ((row : Int), c)

/-- The matrix and `bitIdx`, after one module. -/
def placeBit (reserved : Int × Int → Bool) (bits : List Bool) (s : (Int × Int → Option Bool) × Nat) (p : Int × Int) :
    (Int × Int → Option Bool) × Nat :=
  if reserved p then s
  else Filling.write (fun bitIdx => some (if bitIdx < bits.length then bits.getD bitIdx false else false)) s p

def buildMatrix (codewords : List UInt8) (v : Version) : Int × Int → Bool :=
  let d := functionPatterns v
  let bits := codewords.flatMap fun cw => Bits.ofNat 8 cw.toNat
  let placed := (visits v.size).foldl (placeBit d.reserved bits) (d.matrix, 0)
  fun p => placed.1 p == some true

/-! ## Masking -/

/-- MASK_FUNCTIONS. -/
def maskFunction : Nat → Int → Int → Bool
  | 0, r, c => (r + c) % 2 == 0
  | 1, r, _ => r % 2 == 0
  | 2, _, c => c % 3 == 0
  | 3, r, c => (r + c) % 3 == 0
  | 4, r, c => (r / 2 + c / 3) % 2 == 0
  | 5, r, c => r * c % 2 + r * c % 3 == 0
  | 6, r, c => (r * c % 2 + r * c % 3) % 2 == 0
  | _, r, c => ((r + c) % 2 + r * c % 3) % 2 == 0

def mark (reserved : Int × Int → Bool) (p : Int × Int) : Int × Int → Bool := Function.update reserved p true

def markFinder (size row col : Int) (reserved : Int × Int → Bool) : Int × Int → Bool :=
  (Int.range (-1) 8).foldl (fun reserved r => (Int.range (-1) 8).foldl (fun reserved c =>
    let mr := row + r
    let mc := col + c
    if 0 ≤ mr ∧ mr < size ∧ 0 ≤ mc ∧ mc < size then mark reserved (mr, mc) else reserved) reserved) reserved

def overlapsFinder (size row col : Int) : Bool :=
  [(0, 0), (0, size - 7), (size - 7, 0)].any fun f : Int × Int =>
    f.1 - 1 ≤ row && row ≤ f.1 + 7 && f.2 - 1 ≤ col && col ≤ f.2 + 7

def markAlignmentAt (row col : Int) (reserved : Int × Int → Bool) : Int × Int → Bool :=
  (Int.range (-2) 3).foldl (fun reserved r => (Int.range (-2) 3).foldl (fun reserved c =>
    mark reserved (row + r, col + c)) reserved) reserved

def markAlignment (size : Int) (alignPos : List Int) (reserved : Int × Int → Bool) : Int × Int → Bool :=
  alignPos.foldl (fun reserved row => alignPos.foldl (fun reserved col =>
    if overlapsFinder size row col then reserved else markAlignmentAt row col reserved) reserved) reserved

def buildReservedMask (v : Version) : Int × Int → Bool :=
  let size : Int := v.size
  let reserved := markFinder size 0 0 fun _ => false
  let reserved := markFinder size 0 (size - 7) reserved
  let reserved := markFinder size (size - 7) 0 reserved
  let reserved := (Int.range 8 (size - 8)).foldl (fun reserved i => mark (mark reserved (6, i)) (i, 6)) reserved
  let reserved := markAlignment size v.alignmentPositions reserved
  let reserved := mark reserved (size - 8, 8)
  let reserved := (Int.range 0 9).foldl (fun reserved i => mark (mark reserved (8, i)) (i, 8)) reserved
  (Int.range 0 8).foldl (fun reserved i => mark (mark reserved (8, size - 1 - i)) (size - 1 - i, 8)) reserved

def applyMask (matrix reservedMask : Int × Int → Bool) (maskIdx : Nat) : Int × Int → Bool := fun p =>
  if !reservedMask p && maskFunction maskIdx p.1 p.2 then !matrix p else matrix p

/-! ## Format information -/

/-- FORMAT_BITS. -/
def formatBits : Nat → Nat
  | 0 => 0x5412
  | 1 => 0x5125
  | 2 => 0x5e7c
  | 3 => 0x5b4b
  | 4 => 0x45f9
  | 5 => 0x40ce
  | 6 => 0x4f97
  | _ => 0x4aa0

def writeFormatInfo (size : Int) (matrix : Int × Int → Bool) (maskIdx : Nat) : Int × Int → Bool :=
  (List.range 15).foldl (fun matrix (i : Nat) =>
    let bit := (formatBits maskIdx).testBit (14 - i)
    let matrix :=
      if i < 8 then Function.update matrix (8, if i < 6 then (i : Int) else i + 1) bit
      else Function.update matrix (if i = 8 then 7 else 14 - (i : Int), 8) bit
    if i < 8 then Function.update matrix (size - 1 - i, 8) bit else Function.update matrix (8, size - 15 + i) bit) matrix

/-! ## Penalty scoring -/

/-- Rule 1, along one row or column. -/
def runPenalty (size : Nat) (line : Nat → Bool) : Nat :=
  let ended (score runLen : Nat) : Nat := if 5 ≤ runLen then score + (runLen - 2) else score
  let t := (List.range' 1 (size - 1)).foldl (fun (t : Nat × Nat) k =>
    if line k = line (k - 1) then (t.1, t.2 + 1) else (ended t.1 t.2, 1)) (0, 1)
  ended t.1 t.2

def pattern1 : List Bool := [true, false, true, true, true, false, true, false, false, false, false]

def pattern2 : List Bool := [false, false, false, false, true, false, true, true, true, false, true]

/-- Rule 3, along one row or column. -/
def finderPenalty (size : Nat) (line : Nat → Bool) : Nat :=
  ((List.range (size - 10)).map fun c =>
    let window := (List.range 11).map fun k => line (c + k)
    if window = pattern1 ∨ window = pattern2 then 40 else 0).sum

/-- The distance of the share of dark modules from a half, in steps of five per cent. -/
def proportionPenalty (darkCount total : Nat) : Nat :=
  let prev5 := darkCount * 100 / total / 5 * 5
  let next5 := prev5 + 5
  min (((prev5 : Int) - 50).natAbs / 5) (((next5 : Int) - 50).natAbs / 5) * 10

def penaltyScore (size : Nat) (matrix : Int × Int → Bool) : Nat :=
  let cell (r c : Nat) : Bool := matrix (r, c)
  let lines := List.range size
  let rule1 := (lines.map fun r => runPenalty size (cell r)).sum + (lines.map fun c => runPenalty size (cell · c)).sum
  let rule2 := ((List.range (size - 1) ×ˢ List.range (size - 1)).map fun p =>
    let value := cell p.1 p.2
    if value = cell p.1 (p.2 + 1) ∧ value = cell (p.1 + 1) p.2 ∧ value = cell (p.1 + 1) (p.2 + 1) then 3 else 0).sum
  let rule3 := (lines.map fun r => finderPenalty size (cell r)).sum + (lines.map fun c => finderPenalty size (cell · c)).sum
  let darkCount := (lines ×ˢ lines).countP fun p => cell p.1 p.2
  rule1 + rule2 + rule3 + proportionPenalty darkCount (size * size)

/-! ## Public API -/

/-- TextEncoder. -/
def encodeText (text : JsString) : List UInt8 := Utf8.encode (toWellFormed text)

/-- The symbol under one mask. -/
def masked (v : Version) (baseMatrix : Int × Int → Bool) (m : Nat) : Int × Int → Bool :=
  writeFormatInfo v.size (applyMask baseMatrix (buildReservedMask v) m) m

/-- `bestScore` and `bestMatrix`; no score is Infinity. -/
def pickMask (v : Version) (baseMatrix : Int × Int → Bool) : Option Nat × (Int × Int → Bool) :=
  (List.range 8).foldl (fun best m =>
    let score := penaltyScore v.size (masked v baseMatrix m)
    if best.1.all (score < ·) then (some score, masked v baseMatrix m) else best) (none, baseMatrix)

theorem pickMask_eq (v : Version) (baseMatrix : Int × Int → Bool) :
    ∃ m < 8, (pickMask v baseMatrix).2 = masked v baseMatrix m := by
  unfold pickMask
  rw [List.range_succ_eq_map, List.foldl_cons]
  refine List.foldlRecOn (motive := fun best : Option Nat × (Int × Int → Bool) => ∃ m < 8, best.2 = masked v baseMatrix m) _ _
    ⟨0, by omega, rfl⟩ fun best hbest m hm => ?_
  dsimp only
  split
  · obtain ⟨k, hk, rfl⟩ := List.mem_map.mp hm
    exact ⟨k + 1, by have := List.mem_range.mp hk; omega, rfl⟩
  · exact hbest

/-- `none` throws. -/
def generateQRMatrix (text : JsString) : Option Symbol := do
  let data := encodeText text
  let v ← selectVersion data.length
  let dataBytes := encodeData data v
  let codewords := buildCodewords dataBytes v
  some ⟨v.size, (pickMask v (buildMatrix codewords v)).2⟩

end FlowHelm.AuthBridge
