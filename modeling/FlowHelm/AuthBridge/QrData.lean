/-
  FlowHelm.AuthBridge.QrData — qr.ts: the text's bytes as the data codewords of a QR symbol, with
  their error correction.

  Numbers that are bytes are UInt8, and bits Bools. A text is encoded as TextEncoder does it: a
  surrogate without its other half becomes U+FFFD.

  - `parse_encodeData`: the bytes are read back from the data codewords.
  - `deinterleave_buildCodewords`: and those from the codewords.
-/
import Mathlib.Algebra.Group.Nat.Defs
import FlowHelm.Lib.QrReader
import FlowHelm.Lib.Utf16
import FlowHelm.Lib.Utf8

namespace FlowHelm.AuthBridge

open Js Qr

/-! ## GF(2^8) -/

def gfPoly : Nat := 0x11d

structure GfTables where
  exp : Array UInt8
  log : Array UInt8

def gfTables : GfTables :=
  let built := (List.range 255).foldl (fun (t : GfTables × Nat) i =>
    let shifted := t.2 <<< 1
    (⟨t.1.exp.setIfInBounds i (UInt8.ofNat t.2), t.1.log.setIfInBounds t.2 (UInt8.ofNat i)⟩,
      if 256 ≤ shifted then shifted ^^^ gfPoly else shifted)) (⟨Array.replicate 256 0, Array.replicate 256 0⟩, 1)
  { built.1 with exp := built.1.exp.setIfInBounds 255 (built.1.exp.getD 0 0) }

def gfExp (i : Nat) : UInt8 := gfTables.exp.getD i 0

def gfLog (a : UInt8) : Nat := (gfTables.log.getD a.toNat 0).toNat

def gfMul (a b : UInt8) : UInt8 := if a = 0 ∨ b = 0 then 0 else gfExp ((gfLog a + gfLog b) % 255)

def polyMul (a b : List UInt8) : List UInt8 :=
  (List.range a.length).foldl (fun result i =>
    (List.range b.length).foldl (fun result j => result.modify (i + j) (· ^^^ gfMul (a.getD i 0) (b.getD j 0))) result)
    (List.replicate (a.length + b.length - 1) 0)

def rsEncode (data : List UInt8) (ecCount : Nat) : List UInt8 :=
  let gen := (List.range ecCount).foldl (fun gen i => polyMul gen [1, gfExp i]) [1]
  let msg := (List.range data.length).foldl (fun msg i =>
    let coeff := msg.getD i 0
    if coeff ≠ 0 then (List.range gen.length).foldl (fun msg j => msg.modify (i + j) (· ^^^ gfMul (gen.getD j 0) coeff)) msg
    else msg) (data ++ List.replicate ecCount 0)
  msg.drop data.length

/-! ## Versions -/

inductive Version where
  | v1
  | v2
  | v3
  | v4
  deriving DecidableEq, Repr

namespace Version

def number : Version → Nat
  | v1 => 1
  | v2 => 2
  | v3 => 3
  | v4 => 4

structure Info where
  ecPerBlock : Nat
  blocks : Nat
  dataCW : Nat

/-- VERSION_TABLE. -/
def info : Version → Info
  | v1 => ⟨10, 1, 16⟩
  | v2 => ⟨16, 1, 28⟩
  | v3 => ⟨26, 1, 44⟩
  | v4 => ⟨18, 2, 64⟩

/-- BYTE_CAPACITY. -/
def byteCapacity : Version → Nat
  | v1 => 14
  | v2 => 26
  | v3 => 42
  | v4 => 62

def size (v : Version) : Nat := 17 + v.number * 4

def charCountBits (v : Version) : Nat := if v.number ≤ 9 then 8 else 16

def alignmentPositions : Version → List Int
  | v1 => []
  | v2 => [6, 18]
  | v3 => [6, 22]
  | v4 => [6, 26]

end Version

/-- `none` throws. -/
def selectVersion (dataLength : Nat) : Option Version := [.v1, .v2, .v3, .v4].find? fun v : Version => dataLength ≤ v.byteCapacity

/-! ## Data -/

/-- `while (bits.length % 8 !== 0) bits.push(0)`. -/
def padToByte (bits : List Bool) : List Bool := if bits.length % 8 ≠ 0 then padToByte (bits ++ [false]) else bits
termination_by (8 - bits.length % 8) % 8
decreasing_by
  rw [List.length_append, List.length_singleton]
  omega

/-- 0xEC and 0x11 in turn. -/
def padByte (padIdx : Nat) : Nat := if padIdx % 2 = 0 then 0xec else 0x11

/-- `while (bits.length < totalDataBits)`. -/
def padBytes (totalDataBits padIdx : Nat) (bits : List Bool) : List Bool :=
  if bits.length < totalDataBits then
    padBytes totalDataBits (padIdx + 1) (bits ++ Bits.ofNat 8 (padByte padIdx))
  else bits
termination_by totalDataBits - bits.length
decreasing_by
  rw [List.length_append, Bits.length_ofNat]
  omega

def encodeData (data : List UInt8) (v : Version) : List UInt8 :=
  let bits := Bits.ofNat 4 0b0100 ++ Bits.ofNat v.charCountBits data.length ++ data.flatMap fun byte => Bits.ofNat 8 byte.toNat
  let totalDataBits := v.info.dataCW * 8
  let bits := bits ++ Bits.ofNat (min 4 (totalDataBits - bits.length)) 0
  Bits.toBytes (padBytes totalDataBits 0 (padToByte bits))

/-! ## Blocks -/

def dataBlocks (dataBytes : List UInt8) (v : Version) : List (List UInt8) :=
  let dataCWPerBlock := v.info.dataCW / v.info.blocks
  let shortBlocks := v.info.blocks - v.info.dataCW % v.info.blocks
  ((List.range v.info.blocks).foldl (fun (t : Nat × List (List UInt8)) b =>
    let blockLen := dataCWPerBlock + if shortBlocks ≤ b then 1 else 0
    (t.1 + blockLen, t.2 ++ [(dataBytes.drop t.1).take blockLen])) (0, [])).2

/-- The first of every block, the second of every block, and so on. -/
def interleave (len : Nat) (blocks : List (List UInt8)) : List UInt8 :=
  (List.range len).flatMap fun i => blocks.filterMap (·[i]?)

def buildCodewords (dataBytes : List UInt8) (v : Version) : List UInt8 :=
  let blocks := dataBlocks dataBytes v
  let ecBlocks := blocks.map (rsEncode · v.info.ecPerBlock)
  interleave ((blocks.map List.length).foldr max 0) blocks ++ interleave v.info.ecPerBlock ecBlocks

theorem length_rsEncode (data : List UInt8) (ecCount : Nat) : (rsEncode data ecCount).length = ecCount := by
  unfold rsEncode
  dsimp only
  generalize (List.range ecCount).foldl (fun gen i => polyMul gen [1, gfExp i]) [1] = gen
  -- the division changes entries of `msg` in place
  have hlength : ∀ msg : List UInt8, msg.length = data.length + ecCount →
      ((List.range data.length).foldl (fun msg i =>
        if msg.getD i 0 ≠ 0 then (List.range gen.length).foldl (fun msg' j =>
          msg'.modify (i + j) (· ^^^ gfMul (gen.getD j 0) (msg.getD i 0))) msg
        else msg) msg).length = data.length + ecCount := by
    intro msg hmsg
    refine List.foldlRecOn (motive := fun msg : List UInt8 => msg.length = data.length + ecCount) _ _ hmsg fun msg hmsg i _ => ?_
    split
    · refine List.foldlRecOn (motive := fun msg : List UInt8 => msg.length = data.length + ecCount) _ _ hmsg
        fun msg' hmsg' j _ => ?_
      rw [List.length_modify, hmsg']
    · exact hmsg
  have hdivided := hlength (data ++ List.replicate ecCount 0) (by rw [List.length_append, List.length_replicate])
  rw [List.length_drop, hdivided, Nat.add_sub_cancel_left]

theorem length_interleave {len : Nat} {blocks : List (List UInt8)} (h : ∀ block ∈ blocks, block.length = len) :
    (interleave len blocks).length = len * blocks.length := by
  have hrow : ∀ i < len, (blocks.filterMap (·[i]?)).length = blocks.length := by
    intro i hi
    induction blocks with
    | nil => rfl
    | cons block blocks ih =>
      have hblock := h block (.head _)
      rw [List.filterMap_cons, List.getElem?_eq_getElem (by omega)]
      dsimp only
      rw [List.length_cons, List.length_cons, ih fun b hb => h b (.tail _ hb)]
  rw [interleave, List.length_flatMap, List.map_congr_left fun i hi => hrow i (List.mem_range.mp hi)]
  simp

/-! ## The data read back -/

theorem padToByte_spec (bits : List Bool) :
    (∃ zeros, padToByte bits = bits ++ zeros) ∧ (padToByte bits).length = bits.length + (8 - bits.length % 8) % 8 := by
  fun_induction padToByte bits with
  | case1 bits hodd ih =>
    obtain ⟨⟨zeros, hzeros⟩, hlength⟩ := ih
    refine ⟨⟨false :: zeros, by rw [hzeros, List.append_assoc, List.singleton_append]⟩, ?_⟩
    rw [hlength, List.length_append, List.length_singleton]
    omega
  | case2 bits heven => exact ⟨⟨[], (List.append_nil bits).symm⟩, by omega⟩

theorem padBytes_spec {totalDataBits : Nat} (htotal : totalDataBits % 8 = 0) (padIdx : Nat) {bits : List Bool}
    (h : bits.length % 8 = 0)
    (hle : bits.length ≤ totalDataBits) :
    (∃ pad, padBytes totalDataBits padIdx bits = bits ++ pad) ∧ (padBytes totalDataBits padIdx bits).length = totalDataBits := by
  fun_induction padBytes totalDataBits padIdx bits with
  | case1 padIdx bits hlt ih =>
    have hlength : (bits ++ Bits.ofNat 8 (padByte padIdx)).length = bits.length + 8 := by
      rw [List.length_append, Bits.length_ofNat]
    obtain ⟨⟨pad, hpad⟩, hfull⟩ := ih (by omega) (by omega)
    exact ⟨⟨Bits.ofNat 8 (padByte padIdx) ++ pad, by rw [hpad, List.append_assoc]⟩, hfull⟩
  | case2 padIdx bits hge => exact ⟨⟨[], (List.append_nil bits).symm⟩, by omega⟩

theorem fits {dataLength : Nat} {v : Version} (h : selectVersion dataLength = some v) : dataLength ≤ v.byteCapacity := by
  simpa using List.find?_some h

theorem selectVersion_some {dataLength : Nat} (h : dataLength ≤ 62) : ∃ v, selectVersion dataLength = some v := by
  unfold selectVersion
  rw [← Option.isSome_iff_exists, List.find?_isSome]
  exact ⟨.v4, by simp, decide_eq_true h⟩

/-- What a version holds besides the mode and the count. -/
theorem byteCapacity_eq (v : Version) : v.byteCapacity + 2 = v.info.dataCW ∧ v.charCountBits = 8 ∧ v.byteCapacity < 2 ^ 8 := by
  cases v <;> decide

/-- The bits of the data codewords: the message, and what fills it up. -/
theorem encodeData_bits {data : List UInt8} {v : Version} (h : data.length ≤ v.byteCapacity) :
    (∃ more, Bits.ofBytes (encodeData data v) = Bits.ofNat 4 4 ++ Bits.ofNat 8 data.length ++ Bits.ofBytes data ++ more) ∧
      (encodeData data v).length = v.info.dataCW := by
  obtain ⟨hcapacity, hcount, -⟩ := byteCapacity_eq v
  unfold encodeData
  rw [hcount, show (data.flatMap fun byte => Bits.ofNat 8 byte.toNat) = Bits.ofBytes data from rfl]
  dsimp only
  have hmessage : (Bits.ofNat 4 4 ++ Bits.ofNat 8 data.length ++ Bits.ofBytes data).length = 12 + 8 * data.length := by
    rw [List.length_append, List.length_append, Bits.length_ofNat, Bits.length_ofNat, Bits.length_ofBytes]
  generalize Bits.ofNat 4 4 ++ Bits.ofNat 8 data.length ++ Bits.ofBytes data = message at hmessage ⊢
  have hterminated : (message ++ Bits.ofNat (min 4 (v.info.dataCW * 8 - message.length)) 0).length = 16 + 8 * data.length := by
    rw [List.length_append, Bits.length_ofNat]
    omega
  generalize Bits.ofNat (min 4 (v.info.dataCW * 8 - message.length)) 0 = terminator at hterminated ⊢
  obtain ⟨⟨zeros, hzeros⟩, hpadded⟩ := padToByte_spec (message ++ terminator)
  have hfits : (padToByte (message ++ terminator)).length % 8 = 0 ∧
      (padToByte (message ++ terminator)).length ≤ v.info.dataCW * 8 := by
    omega
  obtain ⟨⟨pad, hpad⟩, hfull⟩ := padBytes_spec (show v.info.dataCW * 8 % 8 = 0 by omega) 0 hfits.1 hfits.2
  constructor
  · refine ⟨terminator ++ zeros ++ pad, ?_⟩
    rw [Bits.ofBytes_toBytes (by omega), hpad, hzeros, List.append_assoc, List.append_assoc, List.append_assoc]
  · rw [Bits.length_toBytes (by omega), hfull]
    omega

theorem parse_encodeData {data : List UInt8} {v : Version} (h : data.length ≤ v.byteCapacity) :
    Qr.parse (encodeData data v) = some data := by
  obtain ⟨-, -, hsmall⟩ := byteCapacity_eq v
  obtain ⟨⟨more, hbits⟩, -⟩ := encodeData_bits h
  have hmode : (Bits.ofBytes (encodeData data v)).take 4 = Bits.ofNat 4 4 := by
    rw [hbits, List.append_assoc, List.append_assoc]
    exact List.take_left' (Bits.length_ofNat ..)
  have hcount : ((Bits.ofBytes (encodeData data v)).drop 4).take 8 = Bits.ofNat 8 data.length := by
    rw [hbits, List.append_assoc, List.append_assoc, List.drop_left' (Bits.length_ofNat ..)]
    exact List.take_left' (Bits.length_ofNat ..)
  have hmessage : ((Bits.ofBytes (encodeData data v)).drop 12).take (8 * data.length) = Bits.ofBytes data := by
    rw [hbits, List.append_assoc, List.drop_left' (by rw [List.length_append, Bits.length_ofNat, Bits.length_ofNat])]
    exact List.take_left' (Bits.length_ofBytes data)
  have hlength : Bits.toNat (Bits.ofNat 8 data.length) = data.length := by
    rw [Bits.toNat_ofNat, Nat.mod_eq_of_lt (by omega)]
  unfold Qr.parse
  dsimp only
  rw [hcount, hlength, hmessage, hmode, if_pos ⟨by decide, Bits.length_ofBytes data⟩, Bits.toBytes_ofBytes]

/-! ## The blocks read back -/

theorem row_le {i n : Nat} (width : Nat) (hi : i < n) : i * width + width ≤ n * width := by
  rw [← Nat.succ_mul]
  exact Nat.mul_le_mul_right width hi

/-- Where every row has the same length, the entry of a row. -/
theorem getElem?_rows {f : Nat → List UInt8} {n width i j : Nat} (hf : ∀ i < n, (f i).length = width) (hi : i < n)
    (hj : j < width) :
    ((List.range n).flatMap f)[i * width + j]? = (f i)[j]? := by
  induction n with
  | zero => omega
  | succ n ih =>
    have hlength : ((List.range n).flatMap f).length = n * width := by
      rw [List.length_flatMap, List.map_congr_left fun i hi => hf i (by have := List.mem_range.mp hi; omega)]
      simp
    rw [List.range_succ, List.flatMap_append, List.flatMap_singleton]
    by_cases hlast : i = n
    · rw [hlast, List.getElem?_append_right (by omega), hlength, Nat.add_sub_cancel_left]
    · have hrow := row_le width (show i < n by omega)
      rw [List.getElem?_append_left (by omega)]
      exact ih (fun i hi => hf i (by omega)) (by omega)

/-- Blocks that are all of one length. -/
def evenBlocks (blocks per : Nat) (dataBytes : List UInt8) : List (List UInt8) :=
  (List.range blocks).map fun b => (dataBytes.drop (b * per)).take per

theorem length_block {dataBytes : List UInt8} {blocks per b : Nat} (h : dataBytes.length = blocks * per) (hb : b < blocks) :
    ((dataBytes.drop (b * per)).take per).length = per := by
  have hrow := row_le per hb
  rw [List.length_take, List.length_drop]
  omega

/-- The entry of a block. -/
theorem getElem?_block {dataBytes : List UInt8} {blocks per b i : Nat} (h : dataBytes.length = blocks * per) (hb : b < blocks)
    (hi : i < per) :
    ((dataBytes.drop (b * per)).take per)[i]? = some (dataBytes.getD (b * per + i) 0) := by
  have hrow := row_le per hb
  rw [List.getElem?_take_of_lt hi, List.getElem?_drop, List.getD_eq_getElem?_getD, List.getElem?_eq_getElem (by omega),
    Option.getD_some]

/-- The blocks, one after another. -/
theorem flatMap_blocks (dataBytes : List UInt8) (per n : Nat) :
    ((List.range n).flatMap fun b => (dataBytes.drop (b * per)).take per) = dataBytes.take (n * per) := by
  induction n with
  | zero => simp
  | succ n ih => rw [List.range_succ, List.flatMap_append, List.flatMap_singleton, ih, Nat.add_mul, Nat.one_mul, List.take_add]

theorem interleave_evenBlocks {dataBytes : List UInt8} {blocks per : Nat} (h : dataBytes.length = blocks * per) :
    interleave per (evenBlocks blocks per dataBytes) =
      (List.range per).flatMap fun i => (List.range blocks).map fun b => dataBytes.getD (b * per + i) 0 := by
  refine List.flatMap_congr fun i hi => ?_
  rw [evenBlocks, List.filterMap_map, ← List.filterMap_eq_map]
  exact List.filterMap_congr fun b hb => getElem?_block h (List.mem_range.mp hb) (List.mem_range.mp hi)

/-- Codewords that are interleaved out of blocks of one length. -/
theorem deinterleave_interleave {l : Qr.Layout} {dataBytes : List UInt8} (h : dataBytes.length = l.blocks * l.perBlock)
    (rest : List UInt8) : Qr.deinterleave l (interleave l.perBlock (evenBlocks l.blocks l.perBlock dataBytes) ++ rest) =
    dataBytes := by
  have hblock : ∀ b < l.blocks,
      ((List.range l.perBlock).map fun i =>
        (interleave l.perBlock (evenBlocks l.blocks l.perBlock dataBytes) ++ rest).getD (i * l.blocks + b) 0) =
        (dataBytes.drop (b * l.perBlock)).take l.perBlock := by
    intro b hb
    have hlength := length_block h hb
    refine List.ext_getElem? fun i => ?_
    by_cases hi : i < l.perBlock
    · have hentry := getElem?_rows (f := fun i => (List.range l.blocks).map fun b => dataBytes.getD (b * l.perBlock + i) 0)
        (n := l.perBlock) (fun i _ => by rw [List.length_map, List.length_range]) hi hb
      rw [← interleave_evenBlocks h, List.getElem?_map, List.getElem?_range hb, Option.map_some] at hentry
      obtain ⟨hlt, -⟩ := List.getElem?_eq_some_iff.mp hentry
      rw [List.getElem?_map, List.getElem?_range hi, Option.map_some, List.getD_eq_getElem?_getD, List.getElem?_append_left hlt,
        hentry, Option.getD_some, getElem?_block h hb hi]
    · rw [List.getElem?_eq_none (by rw [List.length_map, List.length_range]; omega), List.getElem?_eq_none (by omega)]
  unfold Qr.deinterleave
  rw [List.flatMap_congr fun b hb => hblock b (List.mem_range.mp hb), flatMap_blocks, ← h, List.take_length]

theorem map_length_evenBlocks {dataBytes : List UInt8} {blocks per : Nat} (h : dataBytes.length = blocks * per) :
    (evenBlocks blocks per dataBytes).map List.length = (List.range blocks).map fun _ => per := by
  rw [evenBlocks, List.map_map]
  exact List.map_congr_left fun b hb => length_block h (List.mem_range.mp hb)

theorem dataBlocks_eq (dataBytes : List UInt8) (v : Version) :
    dataBlocks dataBytes v = evenBlocks v.info.blocks (v.info.dataCW / v.info.blocks) dataBytes := by
  cases v <;> rfl

theorem blocks_fill (v : Version) : v.info.dataCW = v.info.blocks * (v.info.dataCW / v.info.blocks) := by
  cases v <;> rfl

theorem buildCodewords_eq {dataBytes : List UInt8} {v : Version} (h : dataBytes.length = v.info.dataCW) :
    buildCodewords dataBytes v =
      interleave (v.info.dataCW / v.info.blocks) (evenBlocks v.info.blocks (v.info.dataCW / v.info.blocks) dataBytes) ++
        interleave v.info.ecPerBlock ((dataBlocks dataBytes v).map (rsEncode · v.info.ecPerBlock)) := by
  have hmax : (((evenBlocks v.info.blocks (v.info.dataCW / v.info.blocks) dataBytes).map List.length).foldr max 0) =
      v.info.dataCW / v.info.blocks := by
    rw [map_length_evenBlocks (h.trans (blocks_fill v))]
    cases v <;> rfl
  unfold buildCodewords
  dsimp only
  rw [dataBlocks_eq, hmax]

theorem deinterleave_buildCodewords {dataBytes : List UInt8} {v : Version} (h : dataBytes.length = v.info.dataCW)
    (rest : List UInt8) :
    ∃ l, Qr.layout v.number = some l ∧ Qr.deinterleave l (buildCodewords dataBytes v ++ rest) = dataBytes := by
  have hlayout : Qr.layout v.number = some ⟨v.info.blocks, v.info.dataCW / v.info.blocks⟩ := by
    cases v <;> rfl
  refine ⟨_, hlayout, ?_⟩
  rw [buildCodewords_eq h, List.append_assoc]
  exact deinterleave_interleave (h.trans (blocks_fill v)) _

theorem length_buildCodewords {dataBytes : List UInt8} {v : Version} (h : dataBytes.length = v.info.dataCW) :
    (buildCodewords dataBytes v).length = v.info.dataCW + v.info.ecPerBlock * v.info.blocks := by
  have hdata : ∀ block ∈ evenBlocks v.info.blocks (v.info.dataCW / v.info.blocks) dataBytes,
      block.length = v.info.dataCW / v.info.blocks := by
    intro block hblock
    obtain ⟨b, hb, rfl⟩ := List.mem_map.mp hblock
    exact length_block (h.trans (blocks_fill v)) (List.mem_range.mp hb)
  have hec : ∀ block ∈ (dataBlocks dataBytes v).map (rsEncode · v.info.ecPerBlock), block.length = v.info.ecPerBlock := by
    intro block hblock
    obtain ⟨data, -, rfl⟩ := List.mem_map.mp hblock
    exact length_rsEncode data _
  rw [buildCodewords_eq h, List.length_append, length_interleave hdata, length_interleave hec, dataBlocks_eq,
    List.length_map, evenBlocks,
    List.length_map, List.length_range, Nat.mul_comm, ← blocks_fill]

end FlowHelm.AuthBridge
