import FileExchange.Blake3.Rounds
import FileExchange.Lib.Simd


/-!
# Blake3.Rows — the compression function in four registers

`blake3_sse2.c`, `blake3_sse41.c` and `blake3_avx512.c` compress a block with one text, up to the
rotations and the blending of two registers: the state is in four registers, one row in each.

* `RowCode`     : what the three files define differently;
* `compressPre` : the rounds, with the shuffles that bring the message words into place;
* `compressInPlace`, `compressXof` : the functions that `blake3_dispatch.c` selects.

They compute what the portable functions do (`RowCode.Correct.compressInPlace_eq`,
`RowCode.Correct.compressXof_eq`).
-/

namespace FileExchange
namespace Blake3

open Lib.FixedVector Lib.Simd Lib.Simd.M128

/-! ## The three files -/

structure RowCode where
  ops : VecOps M128
  blendEpi16 : M128 → M128 → UInt16 → M128

/-- `blend_epi16` of `blake3_sse2.c`. -/
def blendSse2 (a b : M128) (imm8 : UInt16) : M128 :=
  let bits := setEpi16 0x80 0x40 0x20 0x10 0x08 0x04 0x02 0x01
  let mask := set1Epi16 imm8
  let mask := andSi128 mask bits
  let mask := cmpeqEpi16 mask bits
  orSi128 (andSi128 mask b) (andnotSi128 mask a)

/-- A rotation by two shifts. -/
def rotShifts (c : UInt32) (x : M128) : M128 :=
  xorSi128 (srliEpi32 x c) (slliEpi32 x (32 - c))

/-- The indices with which `_mm_shuffle_epi8` rotates by 16 bits. -/
def rot16Indices : ByteIndices :=
  #v[13, 12, 15, 14, 9, 8, 11, 10, 5, 4, 7, 6, 1, 0, 3, 2]

def rot8Indices : ByteIndices :=
  #v[12, 15, 14, 13, 8, 11, 10, 9, 4, 7, 6, 5, 0, 3, 2, 1]

def sse2 : RowCode where
  ops :=
    { addv := addEpi32
      xorv := xorSi128
      rot16 := fun x => shufflehiEpi16 (shuffleloEpi16 x 0xB1) 0xB1
      rot12 := rotShifts 12
      rot8 := rotShifts 8
      rot7 := rotShifts 7 }
  blendEpi16 := blendSse2

def sse41 : RowCode where
  ops :=
    { addv := addEpi32
      xorv := xorSi128
      rot16 := fun x => shuffleEpi8 x rot16Indices
      rot12 := rotShifts 12
      rot8 := fun x => shuffleEpi8 x rot8Indices
      rot7 := rotShifts 7 }
  blendEpi16 := M128.blendEpi16

def avx512 : RowCode where
  ops :=
    { addv := addEpi32
      xorv := xorSi128
      rot16 := fun x => rorEpi32 x 16
      rot12 := fun x => rorEpi32 x 12
      rot8 := fun x => rorEpi32 x 8
      rot7 := fun x => rorEpi32 x 7 }
  blendEpi16 := M128.blendEpi16

/-- The operations act on each lane as on words, and the two blends that occur take the lanes that
they should. -/
structure RowCode.Correct (code : RowCode) : Prop where
  isLane : ∀ i : Fin 4, code.ops.IsLane fun x : M128 => (x.get i)
  blend_0xCC : ∀ a b, code.blendEpi16 a b 0xCC = #v[a.get 0, b.get 1, a.get 2, b.get 3]
  blend_0xC0 : ∀ a b, code.blendEpi16 a b 0xC0 = #v[a.get 0, a.get 1, a.get 2, b.get 3]

theorem get_rotShifts (x : M128) (i : Fin 4) {c : UInt32} (hpos : 0 < c.toNat)
    (hlt : c.toNat < 32) : (rotShifts c x).get i = rotr32 (x.get i) c := by
  simp only [rotShifts, xorSi128, srliEpi32, slliEpi32, get_zipWith, get_map]
  exact xor_shifts _ hpos hlt

theorem get_rorEpi32 (x : M128) (i : Fin 4) (c : UInt32) :
    (rorEpi32 x c).get i = rotr32 (x.get i) c := by
  simp only [rorEpi32, get_map, rotr32]

theorem get_rot16 (x : M128) (i : Fin 4) :
    (shuffleEpi8 x rot16Indices).get i = rotr32 (x.get i) 16 := by
  fin_cases i <;> exact ofBytes_rotate_two _

theorem get_rot8 (x : M128) (i : Fin 4) :
    (shuffleEpi8 x rot8Indices).get i = rotr32 (x.get i) 8 := by
  fin_cases i <;> exact ofBytes_rotate_one _

/-- A blend by a mask. -/
theorem blendSse2_eq {imm8 : UInt16} (c₀ c₁ c₂ c₃ : Bool)
    (hmask : cmpeqEpi16 (andSi128 (set1Epi16 imm8)
      (setEpi16 0x80 0x40 0x20 0x10 0x08 0x04 0x02 0x01))
      (setEpi16 0x80 0x40 0x20 0x10 0x08 0x04 0x02 0x01) =
        #v[allOnes c₀, allOnes c₁, allOnes c₂, allOnes c₃]) (a b : M128) :
    blendSse2 a b imm8 =
      #v[if c₀ then b.get 0 else a.get 0, if c₁ then b.get 1 else a.get 1,
        if c₂ then b.get 2 else a.get 2, if c₃ then b.get 3 else a.get 3] := by
  simp only [blendSse2, hmask, ← allOnes_select]
  rfl

theorem blendEpi16_0xCC (a b : M128) :
    M128.blendEpi16 a b 0xCC = #v[a.get 0, b.get 1, a.get 2, b.get 3] := by
  have hlanes : M128.blendEpi16 a b 0xCC =
      #v[ofHalves (half (a.get 0) 0) (half (a.get 0) 1),
        ofHalves (half (b.get 1) 0) (half (b.get 1) 1),
        ofHalves (half (a.get 2) 0) (half (a.get 2) 1),
        ofHalves (half (b.get 3) 0) (half (b.get 3) 1)] := rfl
  simp only [hlanes, ofHalves_half]

theorem blendEpi16_0xC0 (a b : M128) :
    M128.blendEpi16 a b 0xC0 = #v[a.get 0, a.get 1, a.get 2, b.get 3] := by
  have hlanes : M128.blendEpi16 a b 0xC0 =
      #v[ofHalves (half (a.get 0) 0) (half (a.get 0) 1),
        ofHalves (half (a.get 1) 0) (half (a.get 1) 1),
        ofHalves (half (a.get 2) 0) (half (a.get 2) 1),
        ofHalves (half (b.get 3) 0) (half (b.get 3) 1)] := rfl
  simp only [hlanes, ofHalves_half]

theorem sse2_correct : sse2.Correct where
  isLane i :=
    { addv := fun x y => get_zipWith _ x y i
      xorv := fun x y => get_zipWith _ x y i
      rot16 := fun x => by fin_cases i <;> exact ofHalves_swap _
      rot12 := fun x => get_rotShifts x i (by decide) (by decide)
      rot8 := fun x => get_rotShifts x i (by decide) (by decide)
      rot7 := fun x => get_rotShifts x i (by decide) (by decide) }
  blend_0xCC a b := blendSse2_eq false true false true (by decide) a b
  blend_0xC0 a b := blendSse2_eq false false false true (by decide) a b

theorem sse41_correct : sse41.Correct where
  isLane i :=
    { addv := fun x y => get_zipWith _ x y i
      xorv := fun x y => get_zipWith _ x y i
      rot16 := fun x => get_rot16 x i
      rot12 := fun x => get_rotShifts x i (by decide) (by decide)
      rot8 := fun x => get_rot8 x i
      rot7 := fun x => get_rotShifts x i (by decide) (by decide) }
  blend_0xCC := blendEpi16_0xCC
  blend_0xC0 := blendEpi16_0xC0

theorem avx512_correct : avx512.Correct where
  isLane i :=
    { addv := fun x y => get_zipWith _ x y i
      xorv := fun x y => get_zipWith _ x y i
      rot16 := fun x => get_rorEpi32 x i 16
      rot12 := fun x => get_rorEpi32 x i 12
      rot8 := fun x => get_rorEpi32 x i 8
      rot7 := fun x => get_rorEpi32 x i 7 }
  blend_0xCC := blendEpi16_0xCC
  blend_0xC0 := blendEpi16_0xC0

/-! ## The rounds -/

/-- `loadu`, from an offset in some memory. -/
def loadu (memory : Bytes) (offset : Nat) : M128 :=
  let word := fun i => load32 (memory.getD (offset + 4 * i) 0) (memory.getD (offset + 4 * i + 1) 0)
    (memory.getD (offset + 4 * i + 2) 0) (memory.getD (offset + 4 * i + 3) 0)
  #v[word 0, word 1, word 2, word 3]

/-- `storeu`. -/
def storeu (src : M128) : Vector UInt8 16 :=
  .ofFn fun (i : Fin (4 * 4)) => store32 (src.get i.divNat) i.modNat.val

/-- Only these rows are rotated, not the second one. -/
def diagonalize (rows : Vector M128 4) : Vector M128 4 :=
  let rows := put rows 0 (shuffleEpi32 (rows.get 0) (mmShuffle 2 1 0 3))
  let rows := put rows 3 (shuffleEpi32 (rows.get 3) (mmShuffle 1 0 3 2))
  put rows 2 (shuffleEpi32 (rows.get 2) (mmShuffle 0 3 2 1))

def undiagonalize (rows : Vector M128 4) : Vector M128 4 :=
  let rows := put rows 0 (shuffleEpi32 (rows.get 0) (mmShuffle 0 3 2 1))
  let rows := put rows 3 (shuffleEpi32 (rows.get 3) (mmShuffle 1 0 3 2))
  put rows 2 (shuffleEpi32 (rows.get 2) (mmShuffle 2 1 0 3))

/-- The rows before the first round; in memory, x86 keeps the words of `cv` lowest byte first. -/
def initialRows (cv : CvWords) (blockLen : UInt8) (counter : UInt64) (flags : UInt8) :
    Vector M128 4 :=
  #v[#v[cv.get 0, cv.get 1, cv.get 2, cv.get 3], #v[cv.get 4, cv.get 5, cv.get 6, cv.get 7],
    #v[iv.get 0, iv.get 1, iv.get 2, iv.get 3],
    #v[counterLow counter, counterHigh counter, blockLen.toUInt32, flags.toUInt32]]

/-- `m0` to `m3`. -/
def messageRows (block : Block) : Vector M128 4 :=
  #v[loadu block.toList 0, loadu block.toList 16, loadu block.toList 32, loadu block.toList 48]

namespace RowCode

variable (code : RowCode)

/-- Round 1 of `compress_pre`, on the rows and `m0` to `m3`. -/
def firstRound (rows m : Vector M128 4) : Vector M128 4 × Vector M128 4 :=
  let t0 := shufflePs (m.get 0) (m.get 1) (mmShuffle 2 0 2 0)
  let rows := code.ops.g1 rows t0
  let t1 := shufflePs (m.get 0) (m.get 1) (mmShuffle 3 1 3 1)
  let rows := code.ops.g2 rows t1
  let rows := diagonalize rows
  let t2 := shufflePs (m.get 2) (m.get 3) (mmShuffle 2 0 2 0)
  let t2 := shuffleEpi32 t2 (mmShuffle 2 1 0 3)
  let rows := code.ops.g1 rows t2
  let t3 := shufflePs (m.get 2) (m.get 3) (mmShuffle 3 1 3 1)
  let t3 := shuffleEpi32 t3 (mmShuffle 2 1 0 3)
  let rows := code.ops.g2 rows t3
  (undiagonalize rows, #v[t0, t1, t2, t3])

/-- The rounds from the second one on. -/
def laterRound (state : Vector M128 4 × Vector M128 4) : Vector M128 4 × Vector M128 4 :=
  let rows := state.1
  let m := state.2
  let t0 := shufflePs (m.get 0) (m.get 1) (mmShuffle 3 1 1 2)
  let t0 := shuffleEpi32 t0 (mmShuffle 0 3 2 1)
  let rows := code.ops.g1 rows t0
  let t1 := shufflePs (m.get 2) (m.get 3) (mmShuffle 3 3 2 2)
  let tt := shuffleEpi32 (m.get 0) (mmShuffle 0 0 3 3)
  let t1 := code.blendEpi16 tt t1 0xCC
  let rows := code.ops.g2 rows t1
  let rows := diagonalize rows
  let t2 := unpackloEpi64 (m.get 3) (m.get 1)
  let tt := code.blendEpi16 t2 (m.get 2) 0xC0
  let t2 := shuffleEpi32 tt (mmShuffle 1 3 2 0)
  let rows := code.ops.g1 rows t2
  let t3 := unpackhiEpi32 (m.get 1) (m.get 3)
  let tt := unpackloEpi32 (m.get 2) t3
  let t3 := shuffleEpi32 tt (mmShuffle 0 1 3 2)
  let rows := code.ops.g2 rows t3
  (undiagonalize rows, #v[t0, t1, t2, t3])

def compressPre (cv : CvWords) (block : Block) (blockLen : UInt8) (counter : UInt64)
    (flags : UInt8) : Vector M128 4 :=
  let state := code.firstRound (initialRows cv blockLen counter flags) (messageRows block)
  let state := code.laterRound state
  let state := code.laterRound state
  let state := code.laterRound state
  let state := code.laterRound state
  let state := code.laterRound state
  (code.laterRound state).1

def compressInPlace (cv : CvWords) (block : Block) (blockLen : UInt8) (counter : UInt64)
    (flags : UInt8) : CvWords :=
  let rows := code.compressPre cv block blockLen counter flags
  xorSi128 (rows.get 0) (rows.get 2) ++ xorSi128 (rows.get 1) (rows.get 3)

def compressXof (cv : CvWords) (block : Block) (blockLen : UInt8) (counter : UInt64)
    (flags : UInt8) : Vector UInt8 64 :=
  let rows := code.compressPre cv block blockLen counter flags
  storeu (xorSi128 (rows.get 0) (rows.get 2)) ++ storeu (xorSi128 (rows.get 1) (rows.get 3)) ++
    storeu (xorSi128 (rows.get 2) #v[cv.get 0, cv.get 1, cv.get 2, cv.get 3]) ++
    storeu (xorSi128 (rows.get 3) #v[cv.get 4, cv.get 5, cv.get 6, cv.get 7])

end RowCode

def compressInPlaceSse2 : CompressInPlace := sse2.compressInPlace
def compressInPlaceSse41 : CompressInPlace := sse41.compressInPlace
def compressInPlaceAvx512 : CompressInPlace := avx512.compressInPlace
def compressXofSse2 : CompressXof := sse2.compressXof
def compressXofSse41 : CompressXof := sse41.compressXof
def compressXofAvx512 : CompressXof := avx512.compressXof

/-! ## States in rows -/

/-- Lane `j + e` of register `i` holds word `i` of quarter round `j`. -/
def inRows (p : Placement) (e : Fin 4) (v : Vector UInt32 16) : Vector M128 4 :=
  .ofFn fun i => .ofFn fun j => v.get (p.place i (j - e))

/-- Where the code keeps the message words of a round. -/
def messageLayout (x : Vector UInt32 16) : Vector M128 4 :=
  #v[#v[x.get 0, x.get 2, x.get 4, x.get 6], #v[x.get 1, x.get 3, x.get 5, x.get 7],
    #v[x.get 14, x.get 8, x.get 10, x.get 12], #v[x.get 15, x.get 9, x.get 11, x.get 13]]

/-- The message words of a round. -/
def scheduled (words : Vector UInt32 16) (r : Fin 7) : Vector UInt32 16 :=
  .ofFn fun i => words.get ((msgSchedule.get r).get i)

section Rounds

variable {code : RowCode} {p : Placement} {e : Fin 4} {v : Vector UInt32 16}

theorem map_inRows (j : Fin 4) : (inRows p e v).map (fun row : M128 => row.get j) =
    p.quad v (j - e) := by
  refine ext_get fun i => ?_
  simp [inRows, Placement.quad]

/-- Registers are equal if they are in each lane. -/
theorem rows_ext {rows rows' : Vector M128 4}
    (h : ∀ j : Fin 4, rows.map (fun row : M128 => row.get j) =
      rows'.map fun row : M128 => row.get j) : rows = rows' := by
  refine ext_get fun i => ext_get fun j => ?_
  have hword := congrArg (fun q : Vector UInt32 4 => q.get i) (h j)
  simpa using hword

theorem sub_add_cancel_lane : ∀ j e : Fin 4, j - e + e = j := by
  decide

theorem g2_g1_inRows (hcode : code.Correct) (hp : p.Proper) (x y : M128) :
    code.ops.g2 (code.ops.g1 (inRows p e v) x) y =
      inRows p e (gFour p (.ofFn fun k => x.get (k + e)) (.ofFn fun k => y.get (k + e)) v) := by
  refine rows_ext fun j => ?_
  rw [(hcode.isLane j).map_g2, (hcode.isLane j).map_g1, map_inRows, map_inRows, quad_gFour hp]
  simp only [Vector.get_ofFn, sub_add_cancel_lane]

theorem diagonalize_inRows : diagonalize (inRows columns 0 v) = inRows diagonals 1 v := by
  refine rows_ext fun j => ?_
  fin_cases j <;> rfl

theorem undiagonalize_inRows : undiagonalize (inRows diagonals 1 v) = inRows columns 0 v := by
  refine rows_ext fun j => ?_
  fin_cases j <;> rfl

/-- What a round does to the rows, once its message words are in place. -/
def RowCode.roundRows (code : RowCode) (rows t : Vector M128 4) : Vector M128 4 :=
  let rows := code.ops.g2 (code.ops.g1 rows (t.get 0)) (t.get 1)
  undiagonalize (code.ops.g2 (code.ops.g1 (diagonalize rows) (t.get 2)) (t.get 3))

theorem roundFn_scheduled (v words : Vector UInt32 16) (r : Fin 7) :
    roundFn v words r =
      let x := scheduled words r
      gFour diagonals #v[x.get 8, x.get 10, x.get 12, x.get 14]
        #v[x.get 9, x.get 11, x.get 13, x.get 15]
        (gFour columns #v[x.get 0, x.get 2, x.get 4, x.get 6]
          #v[x.get 1, x.get 3, x.get 5, x.get 7] v) := by
  rw [roundFn_eq]
  simp only [scheduled, Vector.get_ofFn]

theorem roundRows_eq (hcode : code.Correct) (v words : Vector UInt32 16) (r : Fin 7) :
    code.roundRows (inRows columns 0 v) (messageLayout (scheduled words r)) =
      inRows columns 0 (roundFn v words r) := by
  rw [RowCode.roundRows, g2_g1_inRows hcode Placement.proper_columns, diagonalize_inRows,
    g2_g1_inRows hcode Placement.proper_diagonals, undiagonalize_inRows, roundFn_scheduled]
  generalize scheduled words r = x
  have hcolumns : (.ofFn fun k : Fin 4 => ((messageLayout x).get 0).get (k + 0)) =
      #v[x.get 0, x.get 2, x.get 4, x.get 6] := rfl
  have hcolumns' : (.ofFn fun k : Fin 4 => ((messageLayout x).get 1).get (k + 0)) =
      #v[x.get 1, x.get 3, x.get 5, x.get 7] := rfl
  have hdiagonals : (.ofFn fun k : Fin 4 => ((messageLayout x).get 2).get (k + 1)) =
      #v[x.get 8, x.get 10, x.get 12, x.get 14] := rfl
  have hdiagonals' : (.ofFn fun k : Fin 4 => ((messageLayout x).get 3).get (k + 1)) =
      #v[x.get 9, x.get 11, x.get 13, x.get 15] := rfl
  rw [hcolumns, hcolumns', hdiagonals, hdiagonals']

/-- Every round permutes the message words in the same way. -/
theorem msgSchedule_succ : ∀ r s : Fin 7, s.val = r.val + 1 → ∀ i : Fin 16,
    (msgSchedule.get s).get i = (msgSchedule.get r).get ((msgSchedule.get (1 : Fin 7)).get i) := by
  decide

theorem scheduled_one (x : Vector UInt32 16) :
    scheduled x 1 = #v[x.get 2, x.get 6, x.get 3, x.get 10, x.get 7, x.get 0, x.get 4,
      x.get 13, x.get 1, x.get 11, x.get 12, x.get 5, x.get 9, x.get 14, x.get 15, x.get 8] := by
  simp only [scheduled, Vector.ofFn]
  rfl

theorem laterRound_messages (hcode : code.Correct) (rows : Vector M128 4) (x : Vector UInt32 16) :
    (code.laterRound (rows, messageLayout x)).2 = messageLayout (scheduled x 1) := by
  simp only [RowCode.laterRound, hcode.blend_0xCC, hcode.blend_0xC0, scheduled_one]
  rfl

theorem scheduled_scheduled {r s : Fin 7} (h : s.val = r.val + 1) (words : Vector UInt32 16) :
    scheduled (scheduled words r) 1 = scheduled words s := by
  refine ext_get fun i => ?_
  simp only [scheduled, Vector.get_ofFn, msgSchedule_succ r s h i]

theorem laterRound_eq (hcode : code.Correct) {r s : Fin 7} (h : s.val = r.val + 1)
    (v words : Vector UInt32 16) :
    code.laterRound (inRows columns 0 v, messageLayout (scheduled words r)) =
      (inRows columns 0 (roundFn v words s), messageLayout (scheduled words s)) := by
  have hmessages := laterRound_messages hcode (inRows columns 0 v) (scheduled words r)
  rw [scheduled_scheduled h] at hmessages
  refine Prod.ext ?_ hmessages
  rw [← roundRows_eq hcode, ← hmessages]
  rfl

theorem scheduled_zero (words : Vector UInt32 16) : scheduled words 0 = words := by
  have hindex : ∀ i : Fin 16, (msgSchedule.get (0 : Fin 7)).get i = i := by decide
  refine ext_get fun i => ?_
  simp only [scheduled, Vector.get_ofFn, hindex]

theorem firstRound_eq (hcode : code.Correct) (v words : Vector UInt32 16) :
    code.firstRound (inRows columns 0 v)
        #v[#v[words.get 0, words.get 1, words.get 2, words.get 3],
          #v[words.get 4, words.get 5, words.get 6, words.get 7],
          #v[words.get 8, words.get 9, words.get 10, words.get 11],
          #v[words.get 12, words.get 13, words.get 14, words.get 15]] =
      (inRows columns 0 (roundFn v words 0), messageLayout (scheduled words 0)) := by
  rw [← roundRows_eq hcode, scheduled_zero]
  rfl

/-! ## A block -/

theorem get_blockWords (block : Block) (i : Fin 16) :
    (blockWords block).get i =
      load32 (block.toList.getD (4 * i.val) 0) (block.toList.getD (4 * i.val + 1) 0)
        (block.toList.getD (4 * i.val + 2) 0) (block.toList.getD (4 * i.val + 3) 0) := by
  have hbyte (j : Fin 64) : block.toList.getD j.val 0 = block.get j := by
    rw [List.getD_eq_getElem _ _ (by simp), Vector.getElem_toList]
    rfl
  have hlt := i.isLt
  rw [hbyte ⟨_, by omega⟩, hbyte ⟨_, by omega⟩, hbyte ⟨_, by omega⟩, hbyte ⟨_, by omega⟩]
  simp only [blockWords, Vector.get_ofFn]
  rfl

theorem messageRows_eq (block : Block) :
    let w := blockWords block
    messageRows block =
      #v[#v[w.get 0, w.get 1, w.get 2, w.get 3], #v[w.get 4, w.get 5, w.get 6, w.get 7],
        #v[w.get 8, w.get 9, w.get 10, w.get 11], #v[w.get 12, w.get 13, w.get 14, w.get 15]] := by
  simp only [get_blockWords]
  rfl

theorem initialRows_eq (cv : CvWords) (blockLen : UInt8) (counter : UInt64) (flags : UInt8) :
    initialRows cv blockLen counter flags =
      inRows columns 0 (initialState cv blockLen counter flags) := rfl

theorem compressPre_eq (hcode : code.Correct) (cv : CvWords) (block : Block) (blockLen : UInt8)
    (counter : UInt64) (flags : UInt8) :
    code.compressPre cv block blockLen counter flags =
      inRows columns 0 (compressPre cv block blockLen counter flags) := by
  simp only [RowCode.compressPre, compressPre]
  rw [initialRows_eq, messageRows_eq, firstRound_eq hcode,
    laterRound_eq hcode (show (1 : Fin 7).val = (0 : Fin 7).val + 1 from rfl),
    laterRound_eq hcode (show (2 : Fin 7).val = (1 : Fin 7).val + 1 from rfl),
    laterRound_eq hcode (show (3 : Fin 7).val = (2 : Fin 7).val + 1 from rfl),
    laterRound_eq hcode (show (4 : Fin 7).val = (3 : Fin 7).val + 1 from rfl),
    laterRound_eq hcode (show (5 : Fin 7).val = (4 : Fin 7).val + 1 from rfl),
    laterRound_eq hcode (show (6 : Fin 7).val = (5 : Fin 7).val + 1 from rfl)]

/-- A word in memory. -/
def wordBytes (w : UInt32) : Bytes :=
  [store32 w 0, store32 w 1, store32 w 2, store32 w 3]

theorem toList_stored {n : Nat} (words : Vector UInt32 n) :
    (Vector.ofFn fun i : Fin (n * 4) => store32 (words.get i.divNat) i.modNat.val).toList =
      words.toList.flatMap wordBytes := by
  have hplace (i : Fin n) (j : Fin 4) (h : i.val * 4 + j.val < n * 4) :
      (Fin.mk _ h).divNat = i ∧ (Fin.mk _ h).modNat = j := by
    simp only [Fin.ext_iff, Fin.coe_divNat, Fin.coe_modNat]
    omega
  rw [Vector.toList_ofFn, List.ofFn_mul, ← toList_ofFn words, List.flatMap_def, List.map_ofFn]
  refine congrArg (fun f => (List.ofFn f).flatten) (funext fun i => ?_)
  simp only [hplace]
  rfl

/-- All three files compute what the portable code does. -/
theorem RowCode.Correct.compressInPlace_eq (hcode : code.Correct) :
    code.compressInPlace = compressInPlacePortable := by
  funext cv block blockLen counter flags
  rw [RowCode.compressInPlace, compressPre_eq hcode, compressInPlacePortable]
  generalize Blake3.compressPre cv block blockLen counter flags = state
  rfl

theorem RowCode.Correct.compressXof_eq (hcode : code.Correct) :
    code.compressXof = compressXofPortable := by
  funext cv block blockLen counter flags
  have hwords : compressXofWords cv block blockLen counter flags =
      let rows := code.compressPre cv block blockLen counter flags
      xorSi128 (rows.get 0) (rows.get 2) ++ xorSi128 (rows.get 1) (rows.get 3) ++
        xorSi128 (rows.get 2) #v[cv.get 0, cv.get 1, cv.get 2, cv.get 3] ++
        xorSi128 (rows.get 3) #v[cv.get 4, cv.get 5, cv.get 6, cv.get 7] := by
    rw [compressXofWords, compressPre_eq hcode]
    generalize Blake3.compressPre cv block blockLen counter flags = state
    rfl
  have hportable : (compressXofPortable cv block blockLen counter flags).toList =
      (compressXofWords cv block blockLen counter flags).toList.flatMap wordBytes := by
    rw [compressXofPortable]
    generalize compressXofWords cv block blockLen counter flags = words
    exact toList_stored words
  have hstoreu (src : M128) : (storeu src).toList = _ := toList_stored src
  apply Vector.toList_inj.1
  rw [hportable, hwords]
  simp only [RowCode.compressXof, Vector.toList_append, hstoreu, List.flatMap_append]

end Rounds

end Blake3
end FileExchange
