/-
  FlowHelm.AuthBridge.QrText — qr.ts: a symbol as half-block characters (`renderQRText`).

  A character shows two modules, one above the other, and the first line starts with the row above
  the symbol. So a symbol of odd size ends with a line whose two rows are both outside it, one of
  even size with a line whose lower row is.

  - `decodeText_renderQRText`: what a reader of the characters has, row by row.
  - `renderQRText_invertible`: without its quiet zone, it is the symbol.
-/
import FlowHelm.Lib.JsWords

namespace FlowHelm.AuthBridge

open Js

structure SquareMatrix where
  rows : List (List Bool)
  square : ∀ row ∈ rows, row.length = rows.length

namespace SquareMatrix

variable (m : SquareMatrix)

def size : Nat := m.rows.length

/-- A module, light outside the matrix. -/
def mod (r c : Int) : Bool :=
  if r < 0 ∨ m.size ≤ r ∨ c < 0 ∨ m.size ≤ c then false else (m.rows.getD r.toNat []).getD c.toNat false

end SquareMatrix

def newline : UInt16 := 0x0A

def fullBlock : UInt16 := 0x2588

def upperHalf : UInt16 := 0x2580

def lowerHalf : UInt16 := 0x2584

def space : UInt16 := 0x20

def halfBlock (top bottom : Bool) : UInt16 :=
  if top && bottom then fullBlock else if top && !bottom then upperHalf else if !top && bottom then lowerHalf else space

/-- `for (let r = -1; r < size + 1; r += 2)`. -/
def rowPairs (size : Nat) : List Int := (List.range ((size + 3) / 2)).map fun k : Nat => 2 * (k : Int) - 1

/-- `for (let c = -1; c < size + 1; c++)`. -/
def columns (size : Nat) : List Int := (List.range (size + 2)).map fun k : Nat => (k : Int) - 1

def renderLine (m : SquareMatrix) (r : Int) : JsString := (columns m.size).map fun c => halfBlock (m.mod r c) (m.mod (r + 1) c)

def renderQRText (m : SquareMatrix) : JsString := join [newline] ((rowPairs m.size).map (renderLine m))

/-! ## Reading the characters -/

/-- The upper and the lower module of a character. -/
def halves (u : UInt16) : Bool × Bool :=
  (u == fullBlock || u == upperHalf, u == fullBlock || u == lowerHalf)

/-- The two rows of a line. -/
def decodeLine (line : JsString) : List (List Bool) := [line.map fun u => (halves u).1, line.map fun u => (halves u).2]

def decodeText (text : JsString) : List (List Bool) := (text.splitOn newline).flatMap decodeLine

/-- One module on each side: the width tells how large what is inside is. -/
def removeQuietZone (modules : List (List Bool)) : List (List Bool) :=
  let size := (modules.headD []).length - 2
  ((modules.drop 1).take size).map fun row => (row.drop 1).take size

/-! ## The round trip -/

theorem halves_halfBlock (top bottom : Bool) : halves (halfBlock top bottom) = (top, bottom) := by
  cases top <;> cases bottom <;> decide

theorem halfBlock_ne_newline (top bottom : Bool) : halfBlock top bottom ≠ newline := by
  cases top <;> cases bottom <;> decide

theorem splitOn_join {lines : List JsString} (hne : lines ≠ []) (h : ∀ line ∈ lines, newline ∉ line) :
    (join [newline] lines).splitOn newline = lines := by
  rw [join_intercalate]
  exact List.splitOn_intercalate newline h hne

theorem newline_not_mem_renderLine (m : SquareMatrix) (r : Int) : newline ∉ renderLine m r := by
  intro h
  obtain ⟨c, -, hc⟩ := List.mem_map.mp h
  exact halfBlock_ne_newline _ _ hc

/-- Row `i` of what is read, `i - 1` of the matrix. -/
def framedRow (m : SquareMatrix) (i : Nat) : List Bool := (columns m.size).map fun c => m.mod ((i : Int) - 1) c

theorem decodeLine_renderLine (m : SquareMatrix) (k : Nat) :
    decodeLine (renderLine m (2 * (k : Int) - 1)) = [framedRow m (2 * k), framedRow m (2 * k + 1)] := by
  have htop : 2 * (k : Int) - 1 = ((2 * k : Nat) : Int) - 1 := by omega
  have hbottom : ((2 * k : Nat) : Int) - 1 + 1 = ((2 * k + 1 : Nat) : Int) - 1 := by omega
  simp only [decodeLine, renderLine, framedRow, List.map_map, Function.comp_def, halves_halfBlock, htop, hbottom]

theorem flatMap_pairs {α : Type} (f : Nat → α) (n : Nat) :
    ((List.range n).flatMap fun k => [f (2 * k), f (2 * k + 1)]) = (List.range (2 * n)).map f := by
  induction n with
  | zero => rfl
  | succ n ih =>
    rw [List.range_succ, List.flatMap_append, ih, Nat.mul_succ, List.range_succ, List.range_succ]
    simp

theorem decodeText_renderQRText (m : SquareMatrix) :
    decodeText (renderQRText m) = (List.range (2 * ((m.size + 3) / 2))).map (framedRow m) := by
  have hne : (rowPairs m.size).map (renderLine m) ≠ [] := by
    simp only [rowPairs, ne_eq, List.map_eq_nil_iff, List.range_eq_nil]
    omega
  have hlines : ∀ line ∈ (rowPairs m.size).map (renderLine m), newline ∉ line := by
    intro line h
    obtain ⟨r, -, rfl⟩ := List.mem_map.mp h
    exact newline_not_mem_renderLine m r
  rw [decodeText, renderQRText, splitOn_join hne hlines, rowPairs, List.map_map, List.flatMap_map, ← flatMap_pairs]
  simp only [Function.comp_apply, decodeLine_renderLine]

/-- The columns of the matrix, without the one on each side. -/
theorem inner_framedRow (m : SquareMatrix) {i : Nat} (h : i < m.size) :
    ((framedRow m (i + 1)).drop 1).take m.size = m.rows.getD i [] := by
  have hrow : m.rows.getD i [] ∈ m.rows := by
    rw [← List.getElem_eq_getD (h := h) []]
    exact List.getElem_mem h
  have hlength : (m.rows.getD i []).length = m.size := m.square _ hrow
  refine List.ext_getElem ?_ fun j hj hj' => ?_
  · rw [hlength]
    simp [framedRow, columns]
  · have hsize : j < m.size := hlength ▸ hj'
    have hin : ¬(((i + 1 : Nat) : Int) - 1 < 0 ∨ (m.size : Int) ≤ ((i + 1 : Nat) : Int) - 1 ∨
        ((1 + j : Nat) : Int) - 1 < 0 ∨ (m.size : Int) ≤ ((1 + j : Nat) : Int) - 1) := by omega
    have hi : (((i + 1 : Nat) : Int) - 1).toNat = i := by omega
    have hj : (((1 + j : Nat) : Int) - 1).toNat = j := by omega
    simp only [framedRow, columns, List.getElem_take, List.getElem_drop, List.getElem_map, List.getElem_range,
      SquareMatrix.mod, if_neg hin, hi, hj]
    exact (List.getElem_eq_getD _).symm

/-- Read two rows a line, without its quiet zone, the text of a matrix is the matrix. -/
theorem renderQRText_invertible (m : SquareMatrix) : removeQuietZone (decodeText (renderQRText m)) = m.rows := by
  have hwidth : (((List.range (2 * ((m.size + 3) / 2))).map (framedRow m)).headD []).length - 2 = m.size := by
    obtain ⟨n, hn⟩ : ∃ n, 2 * ((m.size + 3) / 2) = n + 1 := ⟨2 * ((m.size + 3) / 2) - 1, by omega⟩
    rw [hn, List.range_succ_eq_map]
    simp [framedRow, columns]
  rw [decodeText_renderQRText, removeQuietZone, hwidth]
  have hsize : m.size < 2 * ((m.size + 3) / 2) := by omega
  refine List.ext_getElem ?_ fun i hi hi' => ?_
  · simp only [List.length_map, List.length_take, List.length_drop, List.length_range]
    show min m.size _ = m.size
    omega
  · simp only [List.getElem_map, List.getElem_take, List.getElem_drop, List.getElem_range, Nat.add_comm 1 i]
    rw [inner_framedRow m hi']
    exact (List.getElem_eq_getD _).symm

example : (renderQRText ⟨[[true]], by decide⟩).map (·.toNat) = [0x20, 0x2584, 0x20, 0x0A, 0x20, 0x20, 0x20] := by decide

end FlowHelm.AuthBridge
