import FileExchange.Blake3.HashMany

/-!
# Blake3.Lanes — the registers of the SIMD files

* `laneCounters` and its like : the counters of the lanes, in two words each;
* `transposeVecs128`, `transposeVecs256`, `transposeVecs512` : rows into columns;
* `RowCode.registers`, `avx2`, `avx512Four`, … : what `Registers` asks for, file by file;
* `hash4Sse2`, …, `xof16Avx512` : the functions of the files.

In all of them a register has the words of several inputs in its lanes (`avx2_correct` and its
like).
-/

namespace FileExchange
namespace Blake3

open Lib.FixedVector Lib.Simd Lib.Simd.M128

/-! ## Counters -/

/-- The numbers of the lanes in part `p` of a register, which the code calls `add0` and `deltas`. -/
def deltas (p : Nat) : M128 :=
  #v[UInt32.ofNat (4 * p), UInt32.ofNat (4 * p + 1), UInt32.ofNat (4 * p + 2),
    UInt32.ofNat (4 * p + 3)]

def deltas64 (p : Nat) : Quads :=
  #v[UInt64.ofNat (4 * p), UInt64.ofNat (4 * p + 1), UInt64.ofNat (4 * p + 2),
    UInt64.ofNat (4 * p + 3)]

theorem toNat_deltas : ∀ p i : Fin 4, ((deltas p.val).get i).toNat = 4 * p.val + i.val := by
  decide

theorem toNat_deltas64 : ∀ p i : Fin 4, ((deltas64 p.val).get i).toNat = 4 * p.val + i.val := by
  decide

section Counters

variable (counter : UInt64) (incrementCounter : Bool)

/-- `load_counters` of `blake3_sse2.c`, `blake3_sse41.c` and `blake3_avx2.c`, in one part. -/
def laneCounters (add0 : M128) : M128 × M128 :=
  let mask := set1Epi32 (-(if incrementCounter then 1 else 0))
  let add1 := andSi128 mask add0
  let l := addEpi32 (set1Epi32 counter.toUInt32) add1
  let carry := cmpgtEpi32 (xorSi128 add1 (set1Epi32 0x80000000))
    (xorSi128 l (set1Epi32 0x80000000))
  let h := subEpi32 (set1Epi32 (counter >>> 32).toUInt32) carry
  (l, h)

/-- `load_counters4` and `load_counters8` of `blake3_avx512.c`, in one part. -/
def laneCounters64 (deltas : Quads) : M128 × M128 :=
  let mask : UInt64 := if incrementCounter then ~~~0 else 0
  let deltas := deltas.map (mask &&& ·)
  let counters := deltas.map (counter + ·)
  (counters.cvtepi64Epi32, (counters.srliEpi64 32).cvtepi64Epi32)

/-- `load_counters16`, in one part; the carry is 1 if the high bit was 1 before the addition and is
0 after it. -/
def laneCounters16 (deltas : M128) : M128 × M128 :=
  let mask := set1Epi32 (-(if incrementCounter then 1 else 0))
  let maskedDeltas := andSi128 deltas mask
  let lowWords := addEpi32 (set1Epi32 counter.toUInt32) maskedDeltas
  let carries := srliEpi32 (andnotSi128 lowWords (set1Epi32 counter.toUInt32)) 31
  let highWords := addEpi32 (set1Epi32 (counter >>> 32).toUInt32) carries
  (lowWords, highWords)

theorem counterLow_add (c : UInt64) (k : UInt32) :
    c.toUInt32 + k = counterLow (c + k.toUInt64) := by
  apply UInt32.toNat.inj
  simp only [counterLow, UInt32.toNat_add, UInt64.toNat_toUInt32, UInt64.toNat_add,
    UInt32.toNat_toUInt64]
  omega

/-- Subtracting the result of the comparison adds the carry. -/
theorem counterHigh_add (c : UInt64) (k : UInt32) :
    (c >>> 32).toUInt32 - allOnes (decide (c.toUInt32 + k < k)) =
      counterHigh (c + k.toUInt64) := by
  have hc := c.toNat_lt
  have hk := k.toNat_lt
  have hcarry : (allOnes (decide (c.toUInt32 + k < k))).toNat =
      if (c.toNat % 2 ^ 32 + k.toNat) % 2 ^ 32 < k.toNat then 2 ^ 32 - 1 else 0 := by
    simp only [allOnes, UInt32.lt_iff_toNat_lt, UInt32.toNat_add, UInt64.toNat_toUInt32,
      decide_eq_true_eq]
    split <;> rfl
  apply UInt32.toNat.inj
  simp only [counterHigh, UInt32.toNat_sub, UInt64.toNat_toUInt32, UInt64.toNat_shiftRight,
    UInt64.toNat_add, UInt32.toNat_toUInt64, hcarry, Nat.shiftRight_eq_div_pow]
  have hshift : (32 : UInt64).toNat % 64 = 32 := rfl
  rw [hshift]
  split <;> omega

/-- What was the high bit shows whether there is a carry. -/
theorem counterHigh_add_shift (c : UInt64) {k : UInt32} (hsmall : k.toNat < 2 ^ 31) :
    (c >>> 32).toUInt32 + (~~~(c.toUInt32 + k) &&& c.toUInt32) >>> 31 =
      counterHigh (c + k.toUInt64) := by
  have hc := c.toNat_lt
  have hcarry : ((~~~(c.toUInt32 + k) &&& c.toUInt32) >>> 31).toNat =
      if (c.toNat % 2 ^ 32 + k.toNat) % 2 ^ 32 < 2 ^ 31 ∧ 2 ^ 31 ≤ c.toNat % 2 ^ 32
        then 1 else 0 := by
    rw [andnot_shiftRight]
    simp only [UInt32.toNat_add, UInt64.toNat_toUInt32]
    split <;> rfl
  apply UInt32.toNat.inj
  simp only [counterHigh, UInt32.toNat_add, UInt64.toNat_toUInt32, UInt64.toNat_shiftRight,
    UInt64.toNat_add, UInt32.toNat_toUInt64, hcarry, Nat.shiftRight_eq_div_pow]
  have hshift : (32 : UInt64).toNat % 64 = 32 := rfl
  rw [hshift]
  split <;> omega

/-- The counter of a lane, with a masked number. -/
theorem counterAt_mask (k : UInt32) :
    counterAt counter incrementCounter k.toNat =
      counter + ((-(if incrementCounter then 1 else 0)) &&& k).toUInt64 := by
  cases incrementCounter with
  | true => simp [counterAt]
  | false => simp [counterAt]

/-- Each lane has the counter of its own input. -/
theorem laneCounters_eq (add0 : M128) (i : Fin 4) :
    let counters := laneCounters counter incrementCounter add0
    let own := counterAt counter incrementCounter (add0.get i).toNat
    counters.1.get i = counterLow own ∧ counters.2.get i = counterHigh own := by
  simp only [laneCounters, addEpi32, subEpi32, andSi128, cmpgtEpi32, xorSi128, get_zipWith,
    get_set1Epi32, slt_xor_sign, counterAt_mask]
  exact ⟨counterLow_add _ _, counterHigh_add _ _⟩

theorem laneCounters64_eq (deltas : Quads) (i : Fin 4) :
    let counters := laneCounters64 counter incrementCounter deltas
    let own := counterAt counter incrementCounter (deltas.get i).toNat
    counters.1.get i = counterLow own ∧ counters.2.get i = counterHigh own := by
  have hown : counterAt counter incrementCounter (deltas.get i).toNat =
      counter + ((if incrementCounter then ~~~0 else 0) &&& deltas.get i) := by
    cases incrementCounter with
    | true => simp [counterAt]
    | false => simp [counterAt]
  simp only [laneCounters64, Quads.srliEpi64, Quads.get_cvtepi64Epi32, Quads.get_map, hown]
  exact ⟨rfl, rfl⟩

theorem laneCounters16_eq (deltas : M128) (i : Fin 4) (hsmall : (deltas.get i).toNat < 2 ^ 31) :
    let counters := laneCounters16 counter incrementCounter deltas
    let own := counterAt counter incrementCounter (deltas.get i).toNat
    counters.1.get i = counterLow own ∧ counters.2.get i = counterHigh own := by
  have hmasked : (deltas.get i &&& (-(if incrementCounter then 1 else 0))).toNat < 2 ^ 31 := by
    cases incrementCounter with
    | true => simpa using hsmall
    | false => simp
  simp only [laneCounters16, addEpi32, andSi128, andnotSi128, srliEpi32, get_zipWith,
    get_map, get_set1Epi32, counterAt_mask]
  rw [UInt32.and_comm _ (deltas.get i)]
  exact ⟨counterLow_add _ _, counterHigh_add_shift _ hmasked⟩

end Counters

/-! ## Transpositions -/

/-- `transpose_vecs` of `blake3_sse2.c` and `blake3_sse41.c`, `transpose_vecs_128`. -/
def transposeVecs128 (vecs : Vector M128 4) : Vector M128 4 :=
  let ab01 := unpackloEpi32 (vecs.get 0) (vecs.get 1)
  let ab23 := unpackhiEpi32 (vecs.get 0) (vecs.get 1)
  let cd01 := unpackloEpi32 (vecs.get 2) (vecs.get 3)
  let cd23 := unpackhiEpi32 (vecs.get 2) (vecs.get 3)
  #v[unpackloEpi64 ab01 cd01, unpackhiEpi64 ab01 cd01, unpackloEpi64 ab23 cd23,
    unpackhiEpi64 ab23 cd23]

theorem get_transposeVecs128 (vecs : Vector M128 4) (i j : Fin 4) :
    ((transposeVecs128 vecs).get i).get j = (vecs.get j).get i := by
  fin_cases i <;> fin_cases j <;> rfl

section Interleave

variable {k : Nat}

/-- The first two steps of the other transpositions, on four neighbours: all parts are transposed
alike. -/
def interleave (w x y z : Wide k) : Vector (Wide k) 4 :=
  let wx0 := Vector.zipWith unpackloEpi32 w x
  let wx2 := Vector.zipWith unpackhiEpi32 w x
  let yz0 := Vector.zipWith unpackloEpi32 y z
  let yz2 := Vector.zipWith unpackhiEpi32 y z
  #v[Vector.zipWith unpackloEpi64 wx0 yz0, Vector.zipWith unpackhiEpi64 wx0 yz0,
    Vector.zipWith unpackloEpi64 wx2 yz2, Vector.zipWith unpackhiEpi64 wx2 yz2]

theorem get_interleave (w x y z : Wide k) (i : Fin 4) (p : Fin k) :
    ((interleave w x y z).get i).get p =
      (transposeVecs128 #v[w.get p, x.get p, y.get p, z.get p]).get i := by
  fin_cases i <;> simp [interleave, transposeVecs128, Vector.get_eq_getElem]

end Interleave

/-- `transpose_vecs` of `blake3_avx2.c` and `transpose_vecs_256`. -/
def transposeVecs256 (vecs : Vector M256 8) : Vector M256 8 :=
  let abcd := interleave (vecs.get 0) (vecs.get 1) (vecs.get 2) (vecs.get 3)
  let efgh := interleave (vecs.get 4) (vecs.get 5) (vecs.get 6) (vecs.get 7)
  #v[Wide.permute2x128 (abcd.get 0) (efgh.get 0) 0x20,
    Wide.permute2x128 (abcd.get 1) (efgh.get 1) 0x20,
    Wide.permute2x128 (abcd.get 2) (efgh.get 2) 0x20,
    Wide.permute2x128 (abcd.get 3) (efgh.get 3) 0x20,
    Wide.permute2x128 (abcd.get 0) (efgh.get 0) 0x31,
    Wide.permute2x128 (abcd.get 1) (efgh.get 1) 0x31,
    Wide.permute2x128 (abcd.get 2) (efgh.get 2) 0x31,
    Wide.permute2x128 (abcd.get 3) (efgh.get 3) 0x31]

def unpackLo128 (a b : M512) : M512 :=
  Wide.shuffleI32x4 a b 0x88

def unpackHi128 (a b : M512) : M512 :=
  Wide.shuffleI32x4 a b 0xdd

def transposeVecs512 (vecs : Vector M512 16) : Vector M512 16 :=
  let abcd := interleave (vecs.get 0) (vecs.get 1) (vecs.get 2) (vecs.get 3)
  let efgh := interleave (vecs.get 4) (vecs.get 5) (vecs.get 6) (vecs.get 7)
  let ijkl := interleave (vecs.get 8) (vecs.get 9) (vecs.get 10) (vecs.get 11)
  let mnop := interleave (vecs.get 12) (vecs.get 13) (vecs.get 14) (vecs.get 15)
  let abcdefgh0 := unpackLo128 (abcd.get 0) (efgh.get 0)
  let abcdefgh1 := unpackLo128 (abcd.get 1) (efgh.get 1)
  let abcdefgh2 := unpackLo128 (abcd.get 2) (efgh.get 2)
  let abcdefgh3 := unpackLo128 (abcd.get 3) (efgh.get 3)
  let abcdefgh4 := unpackHi128 (abcd.get 0) (efgh.get 0)
  let abcdefgh5 := unpackHi128 (abcd.get 1) (efgh.get 1)
  let abcdefgh6 := unpackHi128 (abcd.get 2) (efgh.get 2)
  let abcdefgh7 := unpackHi128 (abcd.get 3) (efgh.get 3)
  let ijklmnop0 := unpackLo128 (ijkl.get 0) (mnop.get 0)
  let ijklmnop1 := unpackLo128 (ijkl.get 1) (mnop.get 1)
  let ijklmnop2 := unpackLo128 (ijkl.get 2) (mnop.get 2)
  let ijklmnop3 := unpackLo128 (ijkl.get 3) (mnop.get 3)
  let ijklmnop4 := unpackHi128 (ijkl.get 0) (mnop.get 0)
  let ijklmnop5 := unpackHi128 (ijkl.get 1) (mnop.get 1)
  let ijklmnop6 := unpackHi128 (ijkl.get 2) (mnop.get 2)
  let ijklmnop7 := unpackHi128 (ijkl.get 3) (mnop.get 3)
  #v[unpackLo128 abcdefgh0 ijklmnop0, unpackLo128 abcdefgh1 ijklmnop1,
    unpackLo128 abcdefgh2 ijklmnop2, unpackLo128 abcdefgh3 ijklmnop3,
    unpackLo128 abcdefgh4 ijklmnop4, unpackLo128 abcdefgh5 ijklmnop5,
    unpackLo128 abcdefgh6 ijklmnop6, unpackLo128 abcdefgh7 ijklmnop7,
    unpackHi128 abcdefgh0 ijklmnop0, unpackHi128 abcdefgh1 ijklmnop1,
    unpackHi128 abcdefgh2 ijklmnop2, unpackHi128 abcdefgh3 ijklmnop3,
    unpackHi128 abcdefgh4 ijklmnop4, unpackHi128 abcdefgh5 ijklmnop5,
    unpackHi128 abcdefgh6 ijklmnop6, unpackHi128 abcdefgh7 ijklmnop7]

/-- The four neighbours from `4 * q` on, interleaved. -/
def group {k n : Nat} (vecs : Vector (Wide k) (n * 4)) (q : Fin n) : Vector (Wide k) 4 :=
  interleave (vecs.get (finProdFinEquiv (q, 0))) (vecs.get (finProdFinEquiv (q, 1)))
    (vecs.get (finProdFinEquiv (q, 2))) (vecs.get (finProdFinEquiv (q, 3)))

/-- Part `q` of a row comes from group `q`, and the part that it has there is the row's place among
the groups. -/
theorem get_transposeVecs256 (vecs : Vector M256 8) (i : Fin (2 * 4)) (q : Fin 2) :
    ((transposeVecs256 vecs).get i).get q =
      ((group (n := 2) vecs q).get i.modNat).get i.divNat := by
  fin_cases i <;> fin_cases q <;> rfl

theorem get_transposeVecs512 (vecs : Vector M512 16) (i : Fin (4 * 4)) (q : Fin 4) :
    ((transposeVecs512 vecs).get i).get q =
      ((group (n := 4) vecs q).get i.modNat).get i.divNat := by
  fin_cases i <;> fin_cases q <;> rfl

theorem get_group {k n : Nat} (vecs : Vector (Wide k) (n * 4)) (q : Fin n) (r : Fin 4)
    (p : Fin k) (s : Fin 4) :
    (((group vecs q).get r).get p).get s = ((vecs.get (finProdFinEquiv (q, s))).get p).get r := by
  rw [group, get_interleave, get_transposeVecs128]
  fin_cases s <;> rfl

/-- So the rows have become columns. -/
theorem lane_transposed {k : Nat} {vecs vecs' : Vector (Wide k) (k * 4)}
    (h : ∀ (i : Fin (k * 4)) (q : Fin k),
      (vecs'.get i).get q = ((group vecs q).get i.modNat).get i.divNat) (i j : Fin (k * 4)) :
    (vecs'.get i).lane j = (vecs.get j).lane i := by
  have hplace : finProdFinEquiv (j.divNat, j.modNat) = j := finProdFinEquiv.apply_symm_apply j
  rw [Wide.lane, h, get_group, hplace, Wide.lane]

theorem lane_transposeVecs256 (vecs : Vector M256 8) (i j : Fin 8) :
    ((transposeVecs256 vecs).get i).lane j = (vecs.get j).lane i :=
  lane_transposed (k := 2) (get_transposeVecs256 vecs) i j

theorem lane_transposeVecs512 (vecs : Vector M512 16) (i j : Fin 16) :
    ((transposeVecs512 vecs).get i).lane j = (vecs.get j).lane i :=
  lane_transposed (k := 4) (get_transposeVecs512 vecs) i j

/-! ## Registers in parts -/

section Parts

variable (k : Nat)

/-- The operations of a file, part by part. -/
def wideOps (part : VecOps M128) : VecOps (Wide k) where
  addv := Vector.zipWith part.addv
  xorv := Vector.zipWith part.xorv
  rot16 := Vector.map part.rot16
  rot12 := Vector.map part.rot12
  rot8 := Vector.map part.rot8
  rot7 := Vector.map part.rot7

def wideLoadu (memory : Bytes) (offset : Nat) : Wide k :=
  .ofFn fun p => loadu memory (offset + 16 * p.val)

/-- The counters in each part. -/
def wideCounters (part : Nat → M128 × M128) : Wide k × Wide k :=
  (.ofFn fun p => (part p.val).1, .ofFn fun p => (part p.val).2)

end Parts

def storeu256 (src : M256) : Vector UInt8 32 :=
  storeu (src.get 0) ++ storeu (src.get 1)

def storeu512 (src : M512) : Vector UInt8 64 :=
  storeu (src.get 0) ++ storeu (src.get 1) ++ storeu (src.get 2) ++ storeu (src.get 3)

/-! ## The files -/

/-- The registers of `blake3_sse2.c` and `blake3_sse41.c`. -/
def RowCode.registers (code : RowCode) : Registers 4 M128 where
  ops := code.ops
  set1 := set1Epi32
  loadu := loadu
  transposeVecs := transposeVecs128
  loadCounters counter incrementCounter := laneCounters counter incrementCounter (deltas 0)
  storeCvs hVecs :=
    let first := transposeVecs128 #v[hVecs.get 0, hVecs.get 1, hVecs.get 2, hVecs.get 3]
    let second := transposeVecs128 #v[hVecs.get 4, hVecs.get 5, hVecs.get 6, hVecs.get 7]
    .ofFn fun i => storeu (first.get i) ++ storeu (second.get i)

/-- The operations of `blake3_avx2.c`. -/
def avx2Ops : VecOps M128 where
  addv := addEpi32
  xorv := xorSi128
  rot16 x := shuffleEpi8 x rot16Indices
  rot12 x := orSi128 (srliEpi32 x 12) (slliEpi32 x (32 - 12))
  rot8 x := shuffleEpi8 x rot8Indices
  rot7 x := orSi128 (srliEpi32 x 7) (slliEpi32 x (32 - 7))

def avx2 : Registers 8 M256 where
  ops := wideOps 2 avx2Ops
  set1 := Wide.set1Epi32
  loadu := wideLoadu 2
  transposeVecs := transposeVecs256
  loadCounters counter incrementCounter :=
    wideCounters 2 fun p => laneCounters counter incrementCounter (deltas p)
  storeCvs hVecs := (transposeVecs256 hVecs).map storeu256

def avx512Four : XofRegisters 4 M128 where
  toRegisters :=
    { avx512.registers with
      loadCounters := fun counter incrementCounter =>
        laneCounters64 counter incrementCounter (deltas64 0) }
  storeBlocks v :=
    let v0 := transposeVecs128 #v[v.get 0, v.get 1, v.get 2, v.get 3]
    let v4 := transposeVecs128 #v[v.get 4, v.get 5, v.get 6, v.get 7]
    let v8 := transposeVecs128 #v[v.get 8, v.get 9, v.get 10, v.get 11]
    let v12 := transposeVecs128 #v[v.get 12, v.get 13, v.get 14, v.get 15]
    .ofFn fun i => storeu (v0.get i) ++ storeu (v4.get i) ++ storeu (v8.get i) ++ storeu (v12.get i)

def avx512Eight : XofRegisters 8 M256 where
  ops := wideOps 2 avx512.ops
  set1 := Wide.set1Epi32
  loadu := wideLoadu 2
  transposeVecs := transposeVecs256
  loadCounters counter incrementCounter :=
    wideCounters 2 fun p => laneCounters64 counter incrementCounter (deltas64 p)
  storeCvs hVecs := (transposeVecs256 hVecs).map storeu256
  storeBlocks v :=
    let v0 := transposeVecs256 #v[v.get 0, v.get 1, v.get 2, v.get 3, v.get 4, v.get 5, v.get 6,
      v.get 7]
    let v8 := transposeVecs256 #v[v.get 8, v.get 9, v.get 10, v.get 11, v.get 12, v.get 13,
      v.get 14, v.get 15]
    .ofFn fun i => storeu256 (v0.get i) ++ storeu256 (v8.get i)

/-- For the hashes, the matrix is padded with zeros, and the lower half of each row is stored. -/
def avx512Sixteen : XofRegisters 16 M512 where
  ops := wideOps 4 avx512.ops
  set1 := Wide.set1Epi32
  loadu := wideLoadu 4
  transposeVecs := transposeVecs512
  loadCounters counter incrementCounter :=
    wideCounters 4 fun p => laneCounters16 counter incrementCounter (deltas p)
  storeCvs hVecs :=
    let zero : M512 := Wide.set1Epi32 0
    let padded := transposeVecs512 #v[hVecs.get 0, hVecs.get 1, hVecs.get 2, hVecs.get 3,
      hVecs.get 4, hVecs.get 5, hVecs.get 6, hVecs.get 7,
      zero, zero, zero, zero, zero, zero, zero, zero]
    padded.map fun a => storeu256 (Wide.castsi512Si256 a)
  storeBlocks v := (transposeVecs512 v).map storeu512

section Functions

variable (blocks : Nat) (key : CvWords) (incrementCounter : Bool)
  (flags flagsStart flagsEnd : UInt8)

def hash4Sse2 : Vector Bytes 4 → UInt64 → List Cv :=
  sse2.registers.hash blocks key incrementCounter flags flagsStart flagsEnd

def hash4Sse41 : Vector Bytes 4 → UInt64 → List Cv :=
  sse41.registers.hash blocks key incrementCounter flags flagsStart flagsEnd

def hash8Avx2 : Vector Bytes 8 → UInt64 → List Cv :=
  avx2.hash blocks key incrementCounter flags flagsStart flagsEnd

def hash4Avx512 : Vector Bytes 4 → UInt64 → List Cv :=
  avx512Four.hash blocks key incrementCounter flags flagsStart flagsEnd

def hash8Avx512 : Vector Bytes 8 → UInt64 → List Cv :=
  avx512Eight.hash blocks key incrementCounter flags flagsStart flagsEnd

def hash16Avx512 : Vector Bytes 16 → UInt64 → List Cv :=
  avx512Sixteen.hash blocks key incrementCounter flags flagsStart flagsEnd

end Functions

def xof4Avx512 : CvWords → Block → UInt8 → UInt8 → UInt64 → Bytes := avx512Four.xof
def xof8Avx512 : CvWords → Block → UInt8 → UInt8 → UInt64 → Bytes := avx512Eight.xof
def xof16Avx512 : CvWords → Block → UInt8 → UInt8 → UInt64 → Bytes := avx512Sixteen.xof

/-! ## Correctness -/

section Lanes

variable {k : Nat}

theorem wideOps_isLane {part : VecOps M128} (h : ∀ i : Fin 4, part.IsLane fun x : M128 => x.get i)
    (i : Fin (k * 4)) : (wideOps k part).IsLane fun a => a.lane i where
  addv x y := by simpa [wideOps, Wide.lane] using (h i.modNat).addv _ _
  xorv x y := by simpa [wideOps, Wide.lane] using (h i.modNat).xorv _ _
  rot16 x := by simpa [wideOps, Wide.lane] using (h i.modNat).rot16 _
  rot12 x := by simpa [wideOps, Wide.lane] using (h i.modNat).rot12 _
  rot8 x := by simpa [wideOps, Wide.lane] using (h i.modNat).rot8 _
  rot7 x := by simpa [wideOps, Wide.lane] using (h i.modNat).rot7 _

theorem lane_set1 (i : Fin (k * 4)) (x : UInt32) : (Wide.set1Epi32 x : Wide k).lane i = x := by
  simp [Wide.lane, Wide.set1Epi32]

theorem get_loadu (memory : Bytes) (offset : Nat) (i : Fin 4) :
    (loadu memory offset).get i = load32 (memory.getD (offset + 4 * i.val) 0)
      (memory.getD (offset + 4 * i.val + 1) 0) (memory.getD (offset + 4 * i.val + 2) 0)
      (memory.getD (offset + 4 * i.val + 3) 0) := by
  fin_cases i <;> rfl

theorem lane_loadu (memory : Bytes) (offset : Nat) (i : Fin (k * 4)) :
    (wideLoadu k memory offset).lane i = load32 (memory.getD (offset + 4 * i.val) 0)
      (memory.getD (offset + 4 * i.val + 1) 0) (memory.getD (offset + 4 * i.val + 2) 0)
      (memory.getD (offset + 4 * i.val + 3) 0) := by
  have hplace : offset + 16 * (i.val / 4) + 4 * (i.val % 4) = offset + 4 * i.val := by omega
  simp only [Wide.lane, wideLoadu, Vector.get_ofFn, get_loadu, Fin.coe_divNat, Fin.coe_modNat,
    hplace]

/-- The counters of the lanes are those in the parts. -/
theorem lane_counters {part : Nat → M128 × M128} {counter : UInt64} {incrementCounter : Bool}
    (h : ∀ (p : Fin k) (i : Fin 4),
      (part p.val).1.get i = counterLow (counterAt counter incrementCounter (4 * p.val + i.val)) ∧
      (part p.val).2.get i = counterHigh (counterAt counter incrementCounter (4 * p.val + i.val)))
    (i : Fin (k * 4)) :
    (wideCounters k part).1.lane i = counterLow (counterAt counter incrementCounter i.val) ∧
      (wideCounters k part).2.lane i =
        counterHigh (counterAt counter incrementCounter i.val) := by
  have hpart := h i.divNat i.modNat
  have hi : 4 * (i.val / 4) + i.val % 4 = i.val := Nat.div_add_mod _ _
  rw [Fin.coe_modNat, Fin.coe_divNat, hi] at hpart
  simpa [Wide.lane, wideCounters] using hpart

end Lanes

theorem laneCounters_deltas (counter : UInt64) (incrementCounter : Bool) (p i : Fin 4) :
    let counters := laneCounters counter incrementCounter (deltas p.val)
    let own := counterAt counter incrementCounter (4 * p.val + i.val)
    counters.1.get i = counterLow own ∧ counters.2.get i = counterHigh own := by
  have hlane := laneCounters_eq counter incrementCounter (deltas p.val) i
  rwa [toNat_deltas] at hlane

theorem laneCounters64_deltas (counter : UInt64) (incrementCounter : Bool) (p i : Fin 4) :
    let counters := laneCounters64 counter incrementCounter (deltas64 p.val)
    let own := counterAt counter incrementCounter (4 * p.val + i.val)
    counters.1.get i = counterLow own ∧ counters.2.get i = counterHigh own := by
  have hlane := laneCounters64_eq counter incrementCounter (deltas64 p.val) i
  rwa [toNat_deltas64] at hlane

theorem laneCounters16_deltas (counter : UInt64) (incrementCounter : Bool) (p i : Fin 4) :
    let counters := laneCounters16 counter incrementCounter (deltas p.val)
    let own := counterAt counter incrementCounter (4 * p.val + i.val)
    counters.1.get i = counterLow own ∧ counters.2.get i = counterHigh own := by
  have hsmall : ((deltas p.val).get i).toNat < 2 ^ 31 := by
    rw [toNat_deltas]
    omega
  have hlane := laneCounters16_eq counter incrementCounter (deltas p.val) i hsmall
  rwa [toNat_deltas] at hlane

/-! ### Stores -/

theorem toList_storeu (src : M128) :
    (storeu src).toList = (List.ofFn fun i : Fin 4 => src.get i).flatMap wordBytes := by
  rw [toList_ofFn src]
  exact toList_stored src

/-- Registers that are stored one behind the other. -/
theorem toList_storeu_two (a b : M128) :
    (storeu a ++ storeu b).toList =
      (List.ofFn (fun i => a.get i) ++ List.ofFn fun i => b.get i).flatMap wordBytes := by
  rw [Vector.toList_append, toList_storeu, toList_storeu, ← List.flatMap_append]

theorem toList_storeu_four (a b c d : M128) :
    (storeu a ++ storeu b ++ storeu c ++ storeu d).toList =
      (List.ofFn (fun i => a.get i) ++ List.ofFn (fun i => b.get i) ++
        List.ofFn (fun i => c.get i) ++ List.ofFn fun i => d.get i).flatMap wordBytes := by
  rw [Vector.toList_append, Vector.toList_append, toList_storeu_two, toList_storeu,
    toList_storeu, ← List.flatMap_append, ← List.flatMap_append]

theorem toList_storeu256 (src : M256) :
    (storeu256 src).toList = (List.ofFn fun i : Fin 8 => src.lane i).flatMap wordBytes := by
  rw [storeu256, toList_storeu_two]
  rfl

theorem toList_storeu512 (src : M512) :
    (storeu512 src).toList = (List.ofFn fun i : Fin 16 => src.lane i).flatMap wordBytes := by
  rw [storeu512, toList_storeu_four]
  rfl

/-- The words of a chaining value. -/
theorem eq_storeCvWords {W : Type} {cv : Cv} {hVecs : Vector W 8} {lane : W → UInt32}
    (h : cv.toList = (List.ofFn fun i : Fin 8 => lane (hVecs.get i)).flatMap wordBytes) :
    cv = storeCvWords (hVecs.map lane) := by
  have hstored (w : CvWords) : (storeCvWords w).toList = w.toList.flatMap wordBytes :=
    toList_stored w
  apply Vector.toList_inj.1
  rw [h, toList_map, hstored]

/-! ### The functions of the files -/

theorem storeCvs128 (hVecs : Vector M128 8) (i : Fin 4) :
    storeu ((transposeVecs128 #v[hVecs.get 0, hVecs.get 1, hVecs.get 2, hVecs.get 3]).get i) ++
        storeu ((transposeVecs128 #v[hVecs.get 4, hVecs.get 5, hVecs.get 6, hVecs.get 7]).get i) =
      storeCvWords (hVecs.map fun x : M128 => x.get i) := by
  apply eq_storeCvWords
  rw [toList_storeu_two]
  simp only [get_transposeVecs128]
  rfl

theorem storeCvs256 (hVecs : Vector M256 8) (i : Fin 8) :
    storeu256 ((transposeVecs256 hVecs).get i) = storeCvWords (hVecs.map fun x => x.lane i) := by
  apply eq_storeCvWords
  rw [toList_storeu256]
  simp only [lane_transposeVecs256]

theorem RowCode.Correct.registers {code : RowCode} (h : code.Correct) :
    code.registers.Correct fun i x => x.get i where
  isLane := h.isLane
  set1 i x := get_set1Epi32 x i
  loadu i memory offset := get_loadu memory offset i
  transposeVecs := get_transposeVecs128
  loadCounters counter incrementCounter i := by
    have hlane := laneCounters_deltas counter incrementCounter 0 i
    rwa [Fin.val_zero, Nat.mul_zero, Nat.zero_add] at hlane
  storeCvs hVecs i := (Vector.get_ofFn ..).trans (storeCvs128 hVecs i)

theorem avx2Ops_isLane (i : Fin 4) : avx2Ops.IsLane fun x : M128 => x.get i where
  addv x y := get_zipWith _ x y i
  xorv x y := get_zipWith _ x y i
  rot16 x := get_rot16 x i
  rot12 x := by
    simp only [avx2Ops, orSi128, srliEpi32, slliEpi32, get_zipWith, get_map, rotr32]
  rot8 x := get_rot8 x i
  rot7 x := by
    simp only [avx2Ops, orSi128, srliEpi32, slliEpi32, get_zipWith, get_map, rotr32]

theorem avx2_correct : avx2.Correct fun i x => x.lane i where
  isLane := wideOps_isLane (k := 2) avx2Ops_isLane
  set1 := lane_set1 (k := 2)
  loadu i memory offset := lane_loadu (k := 2) memory offset i
  transposeVecs := lane_transposeVecs256
  loadCounters counter incrementCounter :=
    lane_counters (k := 2) fun p i =>
      laneCounters_deltas counter incrementCounter (p.castAdd 2) i
  storeCvs hVecs i := (Vector.get_map ..).trans (storeCvs256 hVecs i)

theorem storeBlocks128 (v : Vector M128 16) (i : Fin 4) :
    (storeu ((transposeVecs128 #v[v.get 0, v.get 1, v.get 2, v.get 3]).get i) ++
      storeu ((transposeVecs128 #v[v.get 4, v.get 5, v.get 6, v.get 7]).get i) ++
      storeu ((transposeVecs128 #v[v.get 8, v.get 9, v.get 10, v.get 11]).get i) ++
      storeu ((transposeVecs128 #v[v.get 12, v.get 13, v.get 14, v.get 15]).get i)).toList =
      (v.map fun x : M128 => x.get i).toList.flatMap wordBytes := by
  rw [toList_storeu_four, ← toList_map]
  simp only [get_transposeVecs128]
  rfl

theorem storeBlocks256 (v : Vector M256 16) (i : Fin 8) :
    (storeu256 ((transposeVecs256 #v[v.get 0, v.get 1, v.get 2, v.get 3, v.get 4, v.get 5,
      v.get 6, v.get 7]).get i) ++ storeu256 ((transposeVecs256 #v[v.get 8, v.get 9, v.get 10,
      v.get 11, v.get 12, v.get 13, v.get 14, v.get 15]).get i)).toList =
      (v.map fun x => x.lane i).toList.flatMap wordBytes := by
  rw [Vector.toList_append, toList_storeu256, toList_storeu256, ← List.flatMap_append,
    ← toList_map]
  simp only [lane_transposeVecs256]
  rfl

theorem storeBlocks512 (v : Vector M512 16) (i : Fin 16) :
    (storeu512 ((transposeVecs512 v).get i)).toList =
      (v.map fun x => x.lane i).toList.flatMap wordBytes := by
  rw [toList_storeu512, ← toList_map]
  simp only [lane_transposeVecs512]

theorem lane_castsi512Si256 (a : M512) (j : Fin 8) :
    (Wide.castsi512Si256 a).lane j = a.lane (j.castAdd 8) := by
  fin_cases j <;> rfl

/-- The zeros with which the matrix is padded are not stored. -/
theorem storeCvs512 (hVecs : Vector M512 8) (zero : M512) (i : Fin 16) :
    storeu256 (Wide.castsi512Si256 ((transposeVecs512
      #v[hVecs.get 0, hVecs.get 1, hVecs.get 2, hVecs.get 3, hVecs.get 4, hVecs.get 5,
        hVecs.get 6, hVecs.get 7, zero, zero, zero, zero, zero, zero, zero, zero]).get i)) =
      storeCvWords (hVecs.map fun x => x.lane i) := by
  apply eq_storeCvWords
  rw [toList_storeu256]
  simp only [lane_castsi512Si256, lane_transposeVecs512]
  rfl

theorem avx512Four_correct : avx512Four.Correct fun i x => x.get i where
  toCorrect :=
    { avx512_correct.registers with
      loadCounters := fun counter incrementCounter i => by
        have hlane := laneCounters64_deltas counter incrementCounter 0 i
        rwa [Fin.val_zero, Nat.mul_zero, Nat.zero_add] at hlane }
  storeBlocks v i := (congrArg Vector.toList (Vector.get_ofFn ..)).trans (storeBlocks128 v i)

theorem avx512Eight_correct : avx512Eight.Correct fun i x => x.lane i where
  isLane := wideOps_isLane (k := 2) avx512_correct.isLane
  set1 := lane_set1 (k := 2)
  loadu i memory offset := lane_loadu (k := 2) memory offset i
  transposeVecs := lane_transposeVecs256
  loadCounters counter incrementCounter :=
    lane_counters (k := 2) fun p i =>
      laneCounters64_deltas counter incrementCounter (p.castAdd 2) i
  storeCvs hVecs i := (Vector.get_map ..).trans (storeCvs256 hVecs i)
  storeBlocks v i := (congrArg Vector.toList (Vector.get_ofFn ..)).trans (storeBlocks256 v i)

theorem avx512Sixteen_correct : avx512Sixteen.Correct fun i x => x.lane i where
  isLane := wideOps_isLane (k := 4) avx512_correct.isLane
  set1 := lane_set1 (k := 4)
  loadu i memory offset := lane_loadu (k := 4) memory offset i
  transposeVecs := lane_transposeVecs512
  loadCounters counter incrementCounter :=
    lane_counters (k := 4) fun p i => laneCounters16_deltas counter incrementCounter p i
  storeCvs hVecs i := (Vector.get_map ..).trans (storeCvs512 hVecs _ i)
  storeBlocks v i := (congrArg Vector.toList (Vector.get_map ..)).trans (storeBlocks512 v i)

end Blake3
end FileExchange
