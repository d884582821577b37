/-
  FlowHelm.AuthBridge.QrErrorCorrection — the Reed-Solomon code of qr.ts over GF(2^8).

  The tables are the powers of x and their logarithms, so `gfMul` is the multiplication of the
  field. A word is added to another in place, times a factor, by `xorAt`: `polyMul` does it for
  every coefficient, and a step of the division does it with the generator, which is zero at
  x^0, ..., x^(ecCount-1). So the division changes no value there, and what it leaves behind the
  zeros is what the data needs to be zero.

  - `ofByte_gfMul`: the multiplication.
  - `valueAt_polyMul` / `valueAt_generator`: the polynomials.
  - `Divided.step` / `divided`: a step of the division, and all of them.
  - `rsEncode_roots`: the values of a codeword.
  - `codewords_apart`: how far two codewords are from each other.
-/
import FlowHelm.AuthBridge.QrData
import FlowHelm.Lib.ByteField
import FlowHelm.Lib.ReedSolomon

namespace FlowHelm.AuthBridge

open ByteField ReedSolomon

/-! ## Tables -/

def tableStep (t : GfTables × Nat) (i : Nat) : GfTables × Nat :=
  let shifted := t.2 <<< 1
  (⟨t.1.exp.setIfInBounds i (UInt8.ofNat t.2), t.1.log.setIfInBounds t.2 (UInt8.ofNat i)⟩,
    if 256 ≤ shifted then shifted ^^^ gfPoly else shifted)

/-- The first `n` entries. -/
structure TablesTo (n : Nat) (t : GfTables × Nat) : Prop where
  val : t.2 = power n
  expSize : t.1.exp.size = 256
  logSize : t.1.log.size = 256
  exp : ∀ i < n, t.1.exp.getD i 0 = UInt8.ofNat (power i)
  log : ∀ i < n, t.1.log.getD (power i) 0 = UInt8.ofNat i

theorem TablesTo.step {n : Nat} {t : GfTables × Nat} (h : TablesTo n t) (hn : n < 255) : TablesTo (n + 1) (tableStep t n) where
  val := by
    rw [power_succ, ← h.val]
    simp only [tableStep, double, Nat.shiftLeft_eq, gfPoly, Nat.pow_one, Nat.mul_comm]
  expSize := by simp [tableStep, h.expSize]
  logSize := by simp [tableStep, h.logSize]
  exp i hi := by
    have hsize := h.expSize
    simp only [tableStep, Array.getD_eq_getD_getElem?, Array.getElem?_setIfInBounds]
    by_cases hlast : n = i
    · subst hlast
      simp [hsize, h.val, show n < 256 by omega]
    · simpa [hlast] using h.exp i (by omega)
  log i hi := by
    have hsize := h.logSize
    simp only [tableStep, Array.getD_eq_getD_getElem?, Array.getElem?_setIfInBounds, h.val]
    by_cases hlast : n = i
    · subst hlast
      simp [hsize, power_lt n]
    · have hne : power n ≠ power i := fun heq => hlast (power_injOn hn (show i < 255 by omega) heq)
      simpa [hne] using h.log i (by omega)

def built (n : Nat) : GfTables × Nat := (List.range n).foldl tableStep (⟨Array.replicate 256 0, Array.replicate 256 0⟩, 1)

theorem tablesTo {n : Nat} (hn : n ≤ 255) : TablesTo n (built n) := by
  induction n with
  | zero => exact ⟨rfl, Array.size_replicate, Array.size_replicate, nofun, nofun⟩
  | succ n ih =>
    rw [built, List.range_succ, List.foldl_append]
    exact (ih (by omega)).step (by omega)

theorem gfTables_eq : gfTables = ⟨(built 255).1.exp.setIfInBounds 255 ((built 255).1.exp.getD 0 0), (built 255).1.log⟩ := by
  unfold gfTables built tableStep
  rfl

theorem gfExp_eq {i : Nat} (h : i < 255) : gfExp i = UInt8.ofNat (power i) := by
  have hne : ¬ 255 = i := by omega
  rw [← (tablesTo (le_refl 255)).exp i h, gfExp, gfTables_eq, Array.getD_eq_getD_getElem?,
    Array.getElem?_setIfInBounds, if_neg hne,
    Array.getD_eq_getD_getElem?]

theorem gfLog_power {i : Nat} (h : i < 255) : gfLog (UInt8.ofNat (power i)) = i := by
  have hbyte : i < UInt8.size := Nat.lt_trans h (by decide)
  rw [gfLog, gfTables_eq, UInt8.toNat_ofNat_of_lt' (power_lt i), (tablesTo (le_refl 255)).log i h, UInt8.toNat_ofNat_of_lt' hbyte]

theorem ofByte_gfExp {i : Nat} (h : i < 255) : ofByte (gfExp i) = root ^ i := by
  rw [gfExp_eq h, ofByte, UInt8.toNat_ofNat_of_lt' (power_lt i), ofBits_power]

theorem root_pow_gfLog {a : UInt8} (h : a ≠ 0) : root ^ gfLog a = ofByte a := by
  obtain ⟨i, hi, hpower⟩ := exists_power h
  have ha : a = UInt8.ofNat (power i) := by rw [hpower, UInt8.ofNat_toNat]
  rw [ha, gfLog_power hi, ← gfExp_eq hi, ofByte_gfExp hi]

theorem ofByte_gfMul (a b : UInt8) : ofByte (gfMul a b) = ofByte a * ofByte b := by
  unfold gfMul
  split
  case isTrue hzero =>
    obtain rfl | rfl := hzero <;> simp
  case isFalse hne =>
    obtain ⟨ha, hb⟩ := not_or.mp hne
    rw [ofByte_gfExp (Nat.mod_lt _ (by decide)), root_pow_mod, pow_add, root_pow_gfLog ha, root_pow_gfLog hb]

theorem gfMul_comm (a b : UInt8) : gfMul a b = gfMul b a := by
  apply ofByte_injective
  rw [ofByte_gfMul, ofByte_gfMul, mul_comm]

@[simp] theorem gfMul_one (a : UInt8) : gfMul a 1 = a := by
  apply ofByte_injective
  simp [ofByte_gfMul]

/-! ## Words -/

/-- The value of a word of bytes at `x`. -/
noncomputable def valueAt (x : GF256) (word : List UInt8) : GF256 := evalAt x (word.map ofByte)

@[simp] theorem valueAt_nil (x : GF256) : valueAt x [] = 0 := rfl

@[simp] theorem valueAt_zeros (x : GF256) (n : Nat) : valueAt x (List.replicate n 0) = 0 := by simp [valueAt]

theorem valueAt_append (x : GF256) (u v : List UInt8) : valueAt x (u ++ v) = valueAt x u * x ^ v.length + valueAt x v := by
  simp [valueAt, evalAt_append]

theorem valueAt_concat (x : GF256) (u : List UInt8) (d : UInt8) : valueAt x (u ++ [d]) = valueAt x u * x + ofByte d := by
  simp [valueAt, evalAt_concat]

theorem valueAt_modify (x : GF256) (d : UInt8) {word : List UInt8} {k : Nat} (hk : k < word.length) :
    valueAt x (word.modify k (· ^^^ d)) = valueAt x word + ofByte d * x ^ (word.length - 1 - k) := by
  have hmap : (word.modify k (· ^^^ d)).map ofByte = (word.map ofByte).modify k (· + ofByte d) := by
    refine List.ext_getElem (by simp) fun i _ _ => ?_
    simp only [List.getElem_map, List.getElem_modify, apply_ite ofByte, ofByte_xor]
  unfold valueAt
  rw [hmap, evalAt_modify x (ofByte d) (by simpa using hk), List.length_map]

theorem valueAt_map_gfMul (x : GF256) (c : UInt8) (word : List UInt8) :
    valueAt x (word.map (gfMul c)) = ofByte c * valueAt x word := by
  induction word using List.reverseRecOn with
  | nil => simp
  | append_singleton word d ih =>
    rw [List.map_append, List.map_singleton, valueAt_concat, valueAt_concat, ih, ofByte_gfMul]
    ring

/-! ## One word added to another -/

/-- `word[offset + j] ^= f(j)` for every j below `n`. -/
def xorAt (offset n : Nat) (f : Nat → UInt8) (word : List UInt8) : List UInt8 :=
  (List.range n).foldl (fun word j => word.modify (offset + j) (· ^^^ f j)) word

theorem xorAt_succ (offset n : Nat) (f : Nat → UInt8) (word : List UInt8) :
    xorAt offset (n + 1) f word = (xorAt offset n f word).modify (offset + n) (· ^^^ f n) := by
  simp [xorAt, List.range_succ]

theorem getD_modify_of_ne {i k : Nat} (h : i ≠ k) (f : UInt8 → UInt8) (word : List UInt8) :
    (word.modify i f).getD k 0 = word.getD k 0 := by
  simp [List.getD_eq_getElem?_getD, h]

@[simp] theorem length_xorAt (offset n : Nat) (f : Nat → UInt8) (word : List UInt8) :
    (xorAt offset n f word).length = word.length := by
  induction n with
  | zero => rfl
  | succ n ih => rw [xorAt_succ, List.length_modify, ih]

theorem getD_xorAt_of_lt {offset k : Nat} (hk : k < offset) (n : Nat) (f : Nat → UInt8) (word : List UInt8) :
    (xorAt offset n f word).getD k 0 = word.getD k 0 := by
  induction n with
  | zero => rfl
  | succ n ih =>
    have hne : offset + n ≠ k := by omega
    rw [xorAt_succ, getD_modify_of_ne hne, ih]

theorem getD_xorAt_self {offset n : Nat} (f : Nat → UInt8) {word : List UInt8} (hn : 0 < n) (hoffset : offset < word.length) :
    (xorAt offset n f word).getD offset 0 = word.getD offset 0 ^^^ f 0 := by
  induction n with
  | zero => omega
  | succ n ih =>
    by_cases hfirst : n = 0
    · subst hfirst
      simp [xorAt, hoffset]
    · have hne : offset + n ≠ offset := by omega
      rw [xorAt_succ, getD_modify_of_ne hne, ih (by omega)]

theorem valueAt_xorAt (x : GF256) {offset n : Nat} (f : Nat → UInt8) {word : List UInt8} (h : offset + n ≤ word.length) :
    valueAt x (xorAt offset n f word) = valueAt x word + valueAt x ((List.range n).map f) * x ^ (word.length - offset - n) := by
  induction n with
  | zero => simp [xorAt]
  | succ n ih =>
    have hlt : offset + n < (xorAt offset n f word).length := by
      rw [length_xorAt]
      omega
    rw [xorAt_succ, valueAt_modify x (f n) hlt, ih (by omega), List.range_succ, List.map_append, List.map_singleton,
      valueAt_concat,
      length_xorAt, show word.length - 1 - (offset + n) = word.length - offset - (n + 1) by omega,
      show word.length - offset - n = word.length - offset - (n + 1) + 1 by omega, pow_succ]
    ring

theorem map_range_getD (g : UInt8 → UInt8) (word : List UInt8) :
    (List.range word.length).map (fun j => g (word.getD j 0)) = word.map g := by
  refine List.ext_getElem (by simp) fun j hj _ => ?_
  have hlt : j < word.length := by simpa using hj
  simp [hlt]

/-! ## Products -/

theorem polyMul_eq (a b : List UInt8) : polyMul a b =
    (List.range a.length).foldl (fun result i => xorAt i b.length (fun j => gfMul (a.getD i 0) (b.getD j 0)) result)
      (List.replicate (a.length + b.length - 1) 0) := rfl

/-- After the first `n` coefficients of `a`. -/
theorem product_first (x : GF256) (a : List UInt8) {b : List UInt8} (hb : b ≠ []) {n : Nat} (hn : n ≤ a.length) :
    let r := (List.range n).foldl (fun result i => xorAt i b.length (fun j => gfMul (a.getD i 0) (b.getD j 0)) result)
      (List.replicate (a.length + b.length - 1) 0)
    r.length = a.length + b.length - 1 ∧ valueAt x r = valueAt x (a.take n) * valueAt x b * x ^ (a.length - n) := by
  have hpos : 0 < b.length := List.length_pos_iff.mpr hb
  induction n with
  | zero => simp
  | succ n ih =>
    obtain ⟨hlength, hvalue⟩ := ih (by omega)
    have hfits : n + b.length ≤ a.length + b.length - 1 := by omega
    intro r
    unfold r
    rw [List.range_succ, List.foldl_append, List.foldl_cons, List.foldl_nil]
    refine ⟨by rw [length_xorAt, hlength], ?_⟩
    rw [valueAt_xorAt x _ (by rwa [hlength]), hvalue, hlength, map_range_getD (gfMul (a.getD n 0)), valueAt_map_gfMul,
      List.take_succ_eq_append_getElem hn, valueAt_concat, List.getD_eq_getElem a 0 hn,
      show a.length + b.length - 1 - n - b.length = a.length - (n + 1) by omega,
      show a.length - n = a.length - (n + 1) + 1 by omega, pow_succ]
    ring

theorem length_polyMul (a : List UInt8) {b : List UInt8} (hb : b ≠ []) : (polyMul a b).length = a.length + b.length - 1 :=
  (product_first 0 a hb (le_refl _)).1

theorem valueAt_polyMul (x : GF256) (a : List UInt8) {b : List UInt8} (hb : b ≠ []) :
    valueAt x (polyMul a b) = valueAt x a * valueAt x b := by
  have hvalue := (product_first x a hb (le_refl _)).2
  rwa [Nat.sub_self, pow_zero, mul_one, List.take_length] at hvalue

/-- The highest coefficient. -/
theorem getD_polyMul_zero {a b : List UInt8} (ha : a ≠ []) (hb : b ≠ []) :
    (polyMul a b).getD 0 0 = gfMul (a.getD 0 0) (b.getD 0 0) := by
  have hpos : 0 < b.length := List.length_pos_iff.mpr hb
  obtain ⟨n, hn⟩ := Nat.exists_eq_succ_of_ne_zero (List.length_pos_iff.mpr ha).ne'
  rw [polyMul_eq, hn, List.range_succ_eq_map, List.foldl_cons, List.foldl_map]
  refine List.foldlRecOn (motive := fun r : List UInt8 => r.getD 0 0 = gfMul (a.getD 0 0) (b.getD 0 0)) _ _ ?_ fun r hr i _ => ?_
  · rw [getD_xorAt_self _ hpos (by simp; omega)]
    simp
  · rw [getD_xorAt_of_lt (Nat.succ_pos i), hr]

/-! ## The generator -/

def generator (ecCount : Nat) : List UInt8 := (List.range ecCount).foldl (fun gen i => polyMul gen [1, gfExp i]) [1]

theorem generator_succ (n : Nat) : generator (n + 1) = polyMul (generator n) [1, gfExp n] := by
  simp [generator, List.range_succ]

theorem length_generator (ecCount : Nat) : (generator ecCount).length = ecCount + 1 := by
  induction ecCount with
  | zero => rfl
  | succ n ih => rw [generator_succ, length_polyMul _ (by simp), ih]; rfl

theorem generator_ne_nil (ecCount : Nat) : generator ecCount ≠ [] := by
  rw [← List.length_pos_iff, length_generator]
  omega

theorem getD_generator_zero (ecCount : Nat) : (generator ecCount).getD 0 0 = 1 := by
  induction ecCount with
  | zero => rfl
  | succ n ih =>
    rw [generator_succ, getD_polyMul_zero (generator_ne_nil n) (by simp), ih]
    simp

theorem valueAt_generator (x : GF256) {ecCount : Nat} (h : ecCount ≤ 255) :
    valueAt x (generator ecCount) = ∏ i ∈ Finset.range ecCount, (x + root ^ i) := by
  induction ecCount with
  | zero => simp [generator, valueAt, evalAt]
  | succ n ih =>
    have hfactor : valueAt x [1, gfExp n] = x + root ^ n := by simp [valueAt, evalAt, ofByte_gfExp (show n < 255 by omega)]
    rw [generator_succ, valueAt_polyMul x _ (by simp), ih (by omega), hfactor, Finset.prod_range_succ]

theorem generator_root {ecCount i : Nat} (h : ecCount ≤ 255) (hi : i < ecCount) : valueAt (root ^ i) (generator ecCount) = 0 := by
  rw [valueAt_generator _ h]
  exact Finset.prod_eq_zero (Finset.mem_range.mpr hi) (add_self _)

/-! ## The division -/

def divideStep (gen msg : List UInt8) (i : Nat) : List UInt8 :=
  let coeff := msg.getD i 0
  if coeff ≠ 0 then xorAt i gen.length (fun j => gfMul (gen.getD j 0) coeff) msg else msg

theorem rsEncode_eq (data : List UInt8) (ecCount : Nat) : rsEncode data ecCount =
    ((List.range data.length).foldl (divideStep (generator ecCount)) (data ++ List.replicate ecCount 0)).drop data.length := rfl

/-- The first `n` coefficients are gone, and no root of the generator saw it. -/
structure Divided (gen msg : List UInt8) (n : Nat) (left : List UInt8) : Prop where
  length : left.length = msg.length
  gone : ∀ k < n, left.getD k 0 = 0
  same : ∀ x, valueAt x gen = 0 → valueAt x left = valueAt x msg

theorem Divided.step {gen msg left : List UInt8} {n : Nat} (h : Divided gen msg n left) (hgen : gen ≠ [])
    (hmonic : gen.getD 0 0 = 1)
    (hfits : n + gen.length ≤ msg.length) : Divided gen msg (n + 1) (divideStep gen left n) := by
  have hpos : 0 < gen.length := List.length_pos_iff.mpr hgen
  have hlength := h.length
  unfold divideStep
  dsimp only
  split
  case isFalse hzero =>
    refine ⟨hlength, fun k hk => ?_, h.same⟩
    obtain rfl | hlt : k = n ∨ k < n := by omega
    · exact not_not.mp hzero
    · exact h.gone k hlt
  case isTrue hne =>
    refine ⟨by rw [length_xorAt, hlength], fun k hk => ?_, fun x hx => ?_⟩
    · obtain rfl | hlt : k = n ∨ k < n := by omega
      · rw [getD_xorAt_self _ hpos (by omega), hmonic, gfMul_comm, gfMul_one, UInt8.xor_self]
      · rw [getD_xorAt_of_lt hlt, h.gone k hlt]
    · have hrow : ((List.range gen.length).map fun j => gfMul (gen.getD j 0) (left.getD n 0)) =
          gen.map (gfMul (left.getD n 0)) := by
        simp only [gfMul_comm _ (left.getD n 0)]
        exact map_range_getD (gfMul (left.getD n 0)) gen
      rw [valueAt_xorAt x _ (by rwa [hlength]), hrow, valueAt_map_gfMul, hx, mul_zero, zero_mul, add_zero, h.same x hx]

theorem divided {gen msg : List UInt8} (hgen : gen ≠ []) (hmonic : gen.getD 0 0 = 1) {n : Nat}
    (hfits : n + gen.length ≤ msg.length + 1) : Divided gen msg n ((List.range n).foldl (divideStep gen) msg) := by
  induction n with
  | zero => exact ⟨rfl, nofun, fun _ _ => rfl⟩
  | succ n ih =>
    rw [List.range_succ, List.foldl_append]
    exact (ih (by omega)).step hgen hmonic (by omega)

/-- At a root of the generator the remainder is the data, shifted. -/
theorem valueAt_rsEncode {x : GF256} (data : List UInt8) {ecCount : Nat} (hx : valueAt x (generator ecCount) = 0) :
    valueAt x (rsEncode data ecCount) = valueAt x data * x ^ ecCount := by
  have hfits : data.length + (generator ecCount).length ≤ (data ++ List.replicate ecCount 0).length + 1 := by
    simp [length_generator]
    omega
  have hdivided := divided (generator_ne_nil ecCount) (getD_generator_zero ecCount) hfits
  rw [rsEncode_eq]
  generalize (List.range data.length).foldl (divideStep (generator ecCount)) (data ++ List.replicate ecCount 0) =
    left at hdivided ⊢
  have hlength := hdivided.length
  rw [List.length_append, List.length_replicate] at hlength
  have hzeros : left.take data.length = List.replicate data.length 0 := by
    refine List.ext_getElem (by simp; omega) fun k hk _ => ?_
    have hk' : k < data.length := by simp at hk; omega
    have hgone := hdivided.gone k hk'
    rw [List.getD_eq_getElem _ _ (by omega)] at hgone
    simpa using hgone
  have hvalue := hdivided.same x hx
  rw [← List.take_append_drop data.length left, hzeros, valueAt_append, valueAt_append] at hvalue
  simpa using hvalue

theorem valueAt_codeword (data : List UInt8) {ecCount i : Nat} (h : ecCount ≤ 255) (hi : i < ecCount) :
    valueAt (root ^ i) (data ++ rsEncode data ecCount) = 0 := by
  rw [valueAt_append, length_rsEncode, valueAt_rsEncode data (generator_root h hi), add_self]

/-! ## Codewords -/

/-- Every codeword has the roots x^0, ..., x^(ecCount-1). -/
theorem rsEncode_roots (data : List UInt8) (ecCount : Nat) (hfits : data.length + ecCount ≤ 255) :
    ∀ i < ecCount, evalAt (root ^ i) ((data ++ rsEncode data ecCount).map ofByte) = 0 := by
  intro i hi
  exact valueAt_codeword data (by omega) hi

theorem three_bytes_have_roots :
    [0x40, 0x00, 0xff].length + 10 ≤ 255 ∧
      ∀ i < 10, evalAt (root ^ i) (([0x40, 0x00, 0xff] ++ rsEncode [0x40, 0x00, 0xff] 10).map ofByte) = 0 :=
  ⟨by decide, rsEncode_roots [0x40, 0x00, 0xff] 10 (by decide)⟩

/-! ## Distances -/

theorem codeword_distance {data other : List UInt8} {ecCount : Nat} (hlength : data.length = other.length)
    (hfits : data.length + ecCount ≤ 255) (hne : data ≠ other) :
    ecCount < distance (data ++ rsEncode data ecCount) (other ++ rsEncode other ecCount) := by
  have hwords : data ++ rsEncode data ecCount ≠ other ++ rsEncode other ecCount :=
    fun heq => hne (List.append_inj_left heq hlength)
  classical
  rw [← distance_map ofByte_injective]
  apply codes_apart (x := root)
  · refine root_pow_injOn.mono fun i hi => ?_
    simp only [List.length_map, List.length_append, length_rsEncode, Set.mem_Iio] at hi ⊢
    omega
  · simp [length_rsEncode, hlength]
  · intro i hi
    exact valueAt_codeword data (by omega) hi
  · intro i hi
    exact valueAt_codeword other (by omega) hi
  · exact fun heq => hwords (List.map_injective_iff.mpr ofByte_injective heq)

/-- Two blocks of data differ in more than `ecCount` bytes of their codewords, and no word is
    within half as many of both. -/
theorem codewords_apart (ecCount : Nat) (data other : List UInt8) (hlength : data.length = other.length)
    (hfits : data.length + ecCount ≤ 255) (hne : data ≠ other) :
    ecCount + 1 ≤ distance (data ++ rsEncode data ecCount) (other ++ rsEncode other ecCount) ∧
      ∀ received : List UInt8, received.length = data.length + ecCount →
        ¬ (distance (data ++ rsEncode data ecCount) received ≤ ecCount / 2 ∧
          distance (other ++ rsEncode other ecCount) received ≤ ecCount / 2) := by
  have hfar := codeword_distance hlength hfits hne
  refine ⟨hfar, fun received hreceived hnear => hne ?_⟩
  have hsame := decodes_once (by simp [length_rsEncode, hreceived]) (by simp [length_rsEncode, hreceived, hlength])
    (fun _ => hfar)
    hnear.1 hnear.2
  exact List.append_inj_left hsame hlength

/-- Two blocks of version 1 that differ in a bit. -/
theorem a_bit_goes_far :
    10 + 1 ≤ distance (List.replicate 16 0 ++ rsEncode (List.replicate 16 0) 10)
      (List.replicate 15 0 ++ [1] ++ rsEncode (List.replicate 15 0 ++ [1]) 10) :=
  (codewords_apart 10 (List.replicate 16 0) (List.replicate 15 0 ++ [1]) (by decide) (by decide) (by decide)).1

end FlowHelm.AuthBridge
