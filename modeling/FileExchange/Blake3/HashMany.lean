import FileExchange.Blake3.Rows

/-!
# Blake3.HashMany — several inputs in the lanes of registers

Each SIMD file hashes several inputs of the same length at once, one in each lane of its registers,
and hashes what is left over with fewer lanes.

* `hashVecs`  : the loop over the blocks;
* `Registers` : what differs with the size of the registers;
* `hashWhile` : the loop over groups of inputs.

Each lane computes what `hash_one_portable` does (`map_hashVecs`), so that a group of inputs has
the hashes that the inputs have one by one (`Registers.Correct.hash_eq`).  The output of
`blake3_xof_many` is computed in the same way, with a block of output in each lane.
-/

namespace FileExchange
namespace Blake3

open Lib.FixedVector

universe u

variable {W : Type u}

/-! ## The loop over the blocks -/

namespace VecOps

variable (ops : VecOps W) (set1 : UInt32 → W)

/-- The state after the seven rounds. -/
def stateVecs (hVecs : Vector W 8) (msgVecs : Vector W 16)
    (counterLowVec counterHighVec blockLenVec blockFlagsVec : W) : Vector W 16 :=
  let v := #v[hVecs.get 0, hVecs.get 1, hVecs.get 2, hVecs.get 3,
    hVecs.get 4, hVecs.get 5, hVecs.get 6, hVecs.get 7,
    set1 (iv.get 0), set1 (iv.get 1), set1 (iv.get 2), set1 (iv.get 3),
    counterLowVec, counterHighVec, blockLenVec, blockFlagsVec]
  let v := ops.roundFn v msgVecs 0
  let v := ops.roundFn v msgVecs 1
  let v := ops.roundFn v msgVecs 2
  let v := ops.roundFn v msgVecs 3
  let v := ops.roundFn v msgVecs 4
  let v := ops.roundFn v msgVecs 5
  ops.roundFn v msgVecs 6

/-- One pass of the loop, which compresses a block of each input. -/
def compressVecs (counterLowVec counterHighVec : W) (hVecs : Vector W 8) (msgVecs : Vector W 16)
    (blockFlags : UInt8) : Vector W 8 :=
  let v := ops.stateVecs set1 hVecs msgVecs counterLowVec counterHighVec
    (set1 (UInt32.ofNat blockLen)) (set1 blockFlags.toUInt32)
  .ofFn fun i => ops.xorv (v.get (i.castAdd 8)) (v.get (i.addNat 8))

/-- The loop of `hash4`, `hash8` and `hash16`, with what `transpose_msg_vecs` loads for a block. -/
def hashVecs (msgVecs : Nat → Vector W 16) (counterLowVec counterHighVec : W) (blocks : Nat)
    (key : CvWords) (flags flagsStart flagsEnd : UInt8) : Vector W 8 :=
  ((List.range blocks).foldl
    (fun (state : Vector W 8 × UInt8) block =>
      let blockFlags := if block + 1 = blocks then state.2 ||| flagsEnd else state.2
      (ops.compressVecs set1 counterLowVec counterHighVec state.1 (msgVecs block) blockFlags,
        flags))
    (key.map set1, flags ||| flagsStart)).1

/-- The registers that `xof4`, `xof8` and `xof16` transpose and store. -/
def xofVecs (counterLowVec counterHighVec : W) (cv : CvWords) (block : Block) (blockLen : UInt8)
    (flags : UInt8) : Vector W 16 :=
  let hVecs := cv.map set1
  let v := ops.stateVecs set1 hVecs ((blockWords block).map set1) counterLowVec counterHighVec
    (set1 blockLen.toUInt32) (set1 flags.toUInt32)
  (Vector.ofFn fun (i : Fin 8) => ops.xorv (v.get (i.castAdd 8)) (v.get (i.addNat 8))) ++
    Vector.ofFn fun (i : Fin 8) => ops.xorv (v.get (i.addNat 8)) (hVecs.get i)

end VecOps

section Lane

variable {ops : VecOps W} {set1 : UInt32 → W} {lane : W → UInt32} {low high : W}
  {counter : UInt64}

/-- A lane goes through the rounds of the portable code. -/
theorem map_stateVecs (h : ops.IsLane lane) (hset1 : ∀ x, lane (set1 x) = x)
    (hlow : lane low = counterLow counter) (hhigh : lane high = counterHigh counter)
    {msgVecs : Vector W 16} {block : Block} (hmsg : msgVecs.map lane = blockWords block)
    (hVecs : Vector W 8) {blockLenVec : W} {blockLen : UInt8}
    (hlen : lane blockLenVec = blockLen.toUInt32) (flags : UInt8) :
    (ops.stateVecs set1 hVecs msgVecs low high blockLenVec (set1 flags.toUInt32)).map lane =
      compressPre (hVecs.map lane) block blockLen counter flags := by
  have hstate : (#v[hVecs.get 0, hVecs.get 1, hVecs.get 2, hVecs.get 3,
      hVecs.get 4, hVecs.get 5, hVecs.get 6, hVecs.get 7,
      set1 (iv.get 0), set1 (iv.get 1), set1 (iv.get 2), set1 (iv.get 3), low, high, blockLenVec,
      set1 flags.toUInt32] : Vector W 16).map lane =
      initialState (hVecs.map lane) blockLen counter flags := by
    simp [initialState, hset1, hlow, hhigh, hlen, Vector.get_eq_getElem]
  simp only [VecOps.stateVecs, compressPre, map_roundFn h, hstate, hmsg]

/-- A lane compresses its own block. -/
theorem map_compressVecs (h : ops.IsLane lane) (hset1 : ∀ x, lane (set1 x) = x)
    (hlow : lane low = counterLow counter) (hhigh : lane high = counterHigh counter)
    {msgVecs : Vector W 16} {block : Block} (hmsg : msgVecs.map lane = blockWords block)
    (hVecs : Vector W 8) (blockFlags : UInt8) :
    (ops.compressVecs set1 low high hVecs msgVecs blockFlags).map lane =
      compressInPlacePortable (hVecs.map lane) block (UInt8.ofNat blockLen) counter
        blockFlags := by
  have hlen : lane (set1 (UInt32.ofNat blockLen)) = (UInt8.ofNat blockLen).toUInt32 := hset1 _
  have hstate := map_stateVecs h hset1 hlow hhigh hmsg hVecs hlen blockFlags
  ext i hi : 1
  simp only [VecOps.compressVecs, compressInPlacePortable, Vector.getElem_map,
    Vector.getElem_ofFn, h.xorv, ← hstate]
  rfl

theorem map_set1 (hset1 : ∀ x, lane (set1 x) = x) {n : Nat} (words : Vector UInt32 n) :
    (words.map set1).map lane = words :=
  ext_get fun i => by simp [hset1]

theorem map_xofVecs (h : ops.IsLane lane) (hset1 : ∀ x, lane (set1 x) = x)
    (hlow : lane low = counterLow counter) (hhigh : lane high = counterHigh counter)
    (cv : CvWords) (block : Block) (blockLen flags : UInt8) :
    (ops.xofVecs set1 low high cv block blockLen flags).map lane =
      compressXofWords cv block blockLen counter flags := by
  have hstate := map_stateVecs h hset1 hlow hhigh (map_set1 hset1 (blockWords block))
    (cv.map set1) (hset1 blockLen.toUInt32) flags
  rw [map_set1 hset1] at hstate
  ext i hi : 1
  simp only [VecOps.xofVecs, compressXofWords, Vector.getElem_map, Vector.getElem_ofFn, ← hstate]
  refine (congrArg lane (Vector.getElem_append (n := 8) (m := 8) hi)).trans ?_
  split
  · next hlt =>
      rw [Vector.getElem_ofFn, h.xorv]
      rfl
  · next hge =>
      have hplace : i - 8 + 8 = i := Nat.sub_add_cancel (not_lt.1 hge)
      simp [h.xorv, hset1, Vector.get_eq_getElem, hplace]

/-- The loop of `hash_one`, over the indices of the blocks. -/
theorem hashBlocks_eq_foldl (compress : CompressInPlace) (counter : UInt64)
    (flags flagsEnd : UInt8) (input : Bytes) {blocks : Nat} :
    ∀ {n start : Nat}, start + n = blocks → ∀ (blockFlags : UInt8) (cv : CvWords),
      hashBlocks compress counter flags flagsEnd n (input.drop (64 * start)) blockFlags cv =
        ((List.range' start n).foldl
          (fun (state : CvWords × UInt8) block =>
            let blockFlags := if block + 1 = blocks then state.2 ||| flagsEnd else state.2
            (compress state.1 (loadBlock (input.drop (64 * block))) (UInt8.ofNat blockLen) counter
              blockFlags, flags))
          (cv, blockFlags)).1
  | 0, _, _, _, _ => rfl
  | n + 1, start, h, blockFlags, cv => by
      have hlast : n + 1 = 1 ↔ start + 1 = blocks := by omega
      have hdrop : (input.drop (64 * start)).drop 64 = input.drop (64 * (start + 1)) := by
        rw [List.drop_drop, Nat.mul_add]
      rw [hashBlocks, List.range'_succ, List.foldl_cons]
      simp only [blockLen, hdrop, hlast]
      exact hashBlocks_eq_foldl compress counter flags flagsEnd input (by omega) _ _

/-- A lane goes through the loop of `hash_one_portable`. -/
theorem map_hashVecs (h : ops.IsLane lane) (hset1 : ∀ x, lane (set1 x) = x)
    (hlow : lane low = counterLow counter) (hhigh : lane high = counterHigh counter)
    {msgVecs : Nat → Vector W 16} {input : Bytes}
    (hmsg : ∀ block, (msgVecs block).map lane = blockWords (loadBlock (input.drop (64 * block))))
    (blocks : Nat) (key : CvWords) (flags flagsStart flagsEnd : UInt8) :
    (ops.hashVecs set1 msgVecs low high blocks key flags flagsStart flagsEnd).map lane =
      hashBlocks compressInPlacePortable counter flags flagsEnd blocks input
        (flags ||| flagsStart) key := by
  have hloop := hashBlocks_eq_foldl compressInPlacePortable counter flags flagsEnd input
    (Nat.zero_add blocks) (flags ||| flagsStart) key
  rw [Nat.mul_zero, List.drop_zero, ← List.range_eq_range'] at hloop
  rw [hloop, VecOps.hashVecs]
  conv_rhs => rw [← map_set1 hset1 key]
  refine (congrArg Prod.fst (List.foldl_hom
    (fun state : Vector W 8 × UInt8 => (state.1.map lane, state.2)) fun state block => ?_)).symm
  simp only [map_compressVecs h hset1 hlow hhigh (hmsg block)]

end Lane

/-! ## One input after another -/

/-- The counter of the input at an index. -/
def counterAt (counter : UInt64) (incrementCounter : Bool) (i : Nat) : UInt64 :=
  if incrementCounter then counter + UInt64.ofNat i else counter

theorem counterAt_zero (counter : UInt64) (incrementCounter : Bool) :
    counterAt counter incrementCounter 0 = counter := by
  simp [counterAt]

theorem counterAt_add (counter : UInt64) (incrementCounter : Bool) (n i : Nat) :
    counterAt (counterAt counter incrementCounter n) incrementCounter i =
      counterAt counter incrementCounter (i + n) := by
  cases incrementCounter with
  | true =>
      simp only [counterAt, if_true]
      rw [UInt64.add_assoc, ← UInt64.ofNat_add, Nat.add_comm]
  | false => rfl

section HashEach

variable {compress : CompressInPlace} {blocks : Nat} {key : CvWords} {incrementCounter : Bool}
  {flags flagsStart flagsEnd : UInt8}

/-- The loop over the inputs, each with its own counter. -/
theorem hashEach_eq_mapIdx (inputs : List Bytes) (counter : UInt64) :
    hashEach compress blocks key incrementCounter flags flagsStart flagsEnd inputs counter =
      inputs.mapIdx fun i input => hashOne compress input blocks key
        (counterAt counter incrementCounter i) flags flagsStart flagsEnd := by
  induction inputs generalizing counter with
  | nil => rfl
  | cons input inputs ih =>
      have hnext (i : Nat) : counterAt (if incrementCounter then counter + 1 else counter)
          incrementCounter i = counterAt counter incrementCounter (i + 1) :=
        counterAt_add counter incrementCounter 1 i
      rw [hashEach, ih, List.mapIdx_cons, counterAt_zero]
      simp only [hnext]

theorem hashEach_append (inputs rest : List Bytes) (counter : UInt64) :
    hashEach compress blocks key incrementCounter flags flagsStart flagsEnd (inputs ++ rest)
        counter =
      hashEach compress blocks key incrementCounter flags flagsStart flagsEnd inputs counter ++
        hashEach compress blocks key incrementCounter flags flagsStart flagsEnd rest
          (counterAt counter incrementCounter inputs.length) := by
  simp only [hashEach_eq_mapIdx, List.mapIdx_append, counterAt_add]

end HashEach

/-! ## A group of inputs -/

theorem get_loadBlock (input : Bytes) (offset : Nat) (j : Fin 16) :
    (blockWords (loadBlock (input.drop offset))).get j =
      load32 (input.getD (offset + 4 * j.val) 0) (input.getD (offset + 4 * j.val + 1) 0)
        (input.getD (offset + 4 * j.val + 2) 0) (input.getD (offset + 4 * j.val + 3) 0) := by
  have hbyte {k : Nat} (hk : k < 64) :
      (loadBlock (input.drop offset)).toList.getD k 0 = input.getD (offset + k) 0 := by
    rw [List.getD_eq_getElem _ _ (by simpa using hk)]
    simp [loadBlock, List.getD_eq_getElem?_getD]
  have hlt := j.isLt
  rw [get_blockWords, hbyte (by omega), hbyte (by omega), hbyte (by omega), hbyte (by omega)]
  rfl

/-- The registers of a function that treats `n` inputs at once. -/
structure Registers (n : Nat) (W : Type u) where
  ops : VecOps W
  set1 : UInt32 → W
  loadu : Bytes → Nat → W
  transposeVecs : Vector W n → Vector W n
  loadCounters : UInt64 → Bool → W × W
  /-- What is stored at `out` for each input, after a transposition. -/
  storeCvs : Vector W 8 → Vector Cv n

namespace Registers

variable {n : Nat} [NeZero n] (R : Registers n W)

/-- `transpose_msg_vecs`, without its prefetch: each `n` neighbours in `out` are loaded at the same
place of the inputs, and then transposed. -/
def transposeMsgVecs (inputs : Vector Bytes n) (blockOffset : Nat) : Vector W 16 :=
  let out := fun k => R.transposeVecs
    (inputs.map fun input => R.loadu input (blockOffset + k * (4 * n)))
  .ofFn fun j => (out (j.val / n)).get (Fin.ofNat n j.val)

/-- `hash4`, `hash8` and `hash16`. -/
def hash (blocks : Nat) (key : CvWords) (incrementCounter : Bool)
    (flags flagsStart flagsEnd : UInt8) (inputs : Vector Bytes n) (counter : UInt64) : List Cv :=
  let counters := R.loadCounters counter incrementCounter
  let hVecs := R.ops.hashVecs R.set1 (fun block => R.transposeMsgVecs inputs (block * blockLen))
    counters.1 counters.2 blocks key flags flagsStart flagsEnd
  (R.storeCvs hVecs).toList

/-- The operations act on each lane as on words, and a transposition exchanges the places in memory
with the lanes. -/
structure Correct (lane : Fin n → W → UInt32) : Prop where
  isLane : ∀ i, R.ops.IsLane (lane i)
  set1 : ∀ i x, lane i (R.set1 x) = x
  loadu : ∀ i memory offset, lane i (R.loadu memory offset) =
    load32 (memory.getD (offset + 4 * i.val) 0) (memory.getD (offset + 4 * i.val + 1) 0)
      (memory.getD (offset + 4 * i.val + 2) 0) (memory.getD (offset + 4 * i.val + 3) 0)
  transposeVecs : ∀ vecs (i j : Fin n),
    lane j ((R.transposeVecs vecs).get i) = lane i (vecs.get j)
  loadCounters : ∀ counter incrementCounter i,
    lane i (R.loadCounters counter incrementCounter).1 =
        counterLow (counterAt counter incrementCounter i.val) ∧
      lane i (R.loadCounters counter incrementCounter).2 =
        counterHigh (counterAt counter incrementCounter i.val)
  storeCvs : ∀ hVecs (i : Fin n), (R.storeCvs hVecs).get i = storeCvWords (hVecs.map (lane i))

section Correct

variable {R} {lane : Fin n → W → UInt32}

/-- The loads for an input make up a block of it. -/
theorem Correct.map_transposeMsgVecs (h : R.Correct lane) (inputs : Vector Bytes n)
    (offset : Nat) (i : Fin n) :
    (R.transposeMsgVecs inputs offset).map (lane i) =
      blockWords (loadBlock ((inputs.get i).drop offset)) := by
  refine ext_get fun j => ?_
  have hplace : offset + j.val / n * (4 * n) + 4 * (j.val % n) = offset + 4 * j.val := by
    have hdiv := Nat.div_add_mod j.val n
    calc offset + j.val / n * (4 * n) + 4 * (j.val % n)
        = offset + 4 * (n * (j.val / n) + j.val % n) := by ring
      _ = offset + 4 * j.val := by rw [hdiv]
  rw [get_loadBlock, Vector.get_map, transposeMsgVecs, Vector.get_ofFn, h.transposeVecs,
    Vector.get_map, h.loadu]
  simp only [Fin.val_ofNat, hplace]

/-- What is stored for an input is its hash. -/
theorem Correct.get_storeCvs (h : R.Correct lane) (blocks : Nat) (key : CvWords)
    (incrementCounter : Bool) (flags flagsStart flagsEnd : UInt8) (inputs : Vector Bytes n)
    (counter : UInt64) (i : Fin n) :
    let counters := R.loadCounters counter incrementCounter
    (R.storeCvs (R.ops.hashVecs R.set1
        (fun block => R.transposeMsgVecs inputs (block * blockLen)) counters.1 counters.2
        blocks key flags flagsStart flagsEnd)).get i =
      hashOne compressInPlacePortable (inputs.get i) blocks key
        (counterAt counter incrementCounter i.val) flags flagsStart flagsEnd := by
  have hblock (block : Nat) :
      (R.transposeMsgVecs inputs (block * blockLen)).map (lane i) =
        blockWords (loadBlock ((inputs.get i).drop (64 * block))) := by
    rw [h.map_transposeMsgVecs, Nat.mul_comm]
    rfl
  have hcounters := h.loadCounters counter incrementCounter i
  simp only [h.storeCvs, hashOne,
    map_hashVecs (h.isLane i) (h.set1 i) hcounters.1 hcounters.2 hblock]

/-- The inputs of a group have the hashes that they have one by one. -/
theorem Correct.hash_eq (h : R.Correct lane) (blocks : Nat) (key : CvWords)
    (incrementCounter : Bool) (flags flagsStart flagsEnd : UInt8) (inputs : Vector Bytes n)
    (counter : UInt64) :
    R.hash blocks key incrementCounter flags flagsStart flagsEnd inputs counter =
      hashEach compressInPlacePortable blocks key incrementCounter flags flagsStart flagsEnd
        inputs.toList counter := by
  rw [hashEach_eq_mapIdx]
  refine List.ext_getElem (by simp only [hash, Vector.length_toList, List.length_mapIdx])
    fun i hi _ => ?_
  have hin : i < n := by
    rw [hash] at hi
    simpa using hi
  have hcv := h.get_storeCvs blocks key incrementCounter flags flagsStart flagsEnd inputs counter
    ⟨i, hin⟩
  simpa [hash, Vector.get_eq_getElem] using hcv

end Correct

end Registers

/-! ## Groups of output blocks -/

/-- What `xof4`, `xof8` and `xof16` also need. -/
structure XofRegisters (n : Nat) (W : Type u) extends Registers n W where
  /-- What is stored at `out` in each lane. -/
  storeBlocks : Vector W 16 → Vector (Vector UInt8 64) n

namespace XofRegisters

variable {n : Nat} (R : XofRegisters n W)

def xof (cv : CvWords) (block : Block) (blockLen flags : UInt8) (counter : UInt64) : Bytes :=
  let counters := R.loadCounters counter true
  let v := R.ops.xofVecs R.set1 counters.1 counters.2 cv block blockLen flags
  (R.storeBlocks v).toList.flatMap Vector.toList

structure Correct (lane : Fin n → W → UInt32) : Prop extends R.toRegisters.Correct lane where
  storeBlocks : ∀ v (i : Fin n),
    ((R.storeBlocks v).get i).toList = (v.map (lane i)).toList.flatMap wordBytes

variable {R} {lane : Fin n → W → UInt32}

theorem Correct.xof_eq (h : R.Correct lane) (cv : CvWords) (block : Block)
    (blockLen flags : UInt8) (counter : UInt64) :
    R.xof cv block blockLen flags counter =
      xofEach compressXofPortable cv block blockLen counter flags n := by
  have hblock (i : Fin n) :
      ((R.storeBlocks (R.ops.xofVecs R.set1 (R.loadCounters counter true).1
        (R.loadCounters counter true).2 cv block blockLen flags)).get i).toList =
      (compressXofPortable cv block blockLen (counter + UInt64.ofNat i.val) flags).toList := by
    have hcounters := h.loadCounters counter true i
    rw [h.storeBlocks, map_xofVecs (h.isLane i) (h.set1 i) hcounters.1 hcounters.2]
    exact (toList_stored _).symm
  rw [xof, xofEach, List.flatMap_def, List.flatMap_def]
  congr 1
  refine List.ext_getElem (by simp) fun i hi _ => ?_
  have hin : i < n := by simpa using hi
  simpa [Vector.get_eq_getElem] using hblock ⟨i, hin⟩

end XofRegisters

/-! ## The loops over groups -/

section Groups

/-- The loop `while (num_inputs >= n)`, and what is done with the inputs after it. -/
def hashWhile (n : Nat) [NeZero n] (hash : Vector Bytes n → UInt64 → List Cv)
    (rest : List Bytes → UInt64 → List Cv) (incrementCounter : Bool) (inputs : List Bytes)
    (counter : UInt64) : List Cv :=
  if h : n ≤ inputs.length then
    hash ⟨(inputs.take n).toArray, by simp [h]⟩ counter ++
      hashWhile n hash rest incrementCounter (inputs.drop n)
        (counterAt counter incrementCounter n)
  else rest inputs counter
termination_by inputs.length
decreasing_by
  have hpos := NeZero.pos n
  simp only [List.length_drop]
  omega

/-- The loop `while (outblocks >= n)`. -/
def xofWhile (n : Nat) [NeZero n] (xof : UInt64 → Bytes) (rest : UInt64 → Nat → Bytes)
    (counter : UInt64) (outblocks : Nat) : Bytes :=
  if n ≤ outblocks then
    xof counter ++ xofWhile n xof rest (counter + UInt64.ofNat n) (outblocks - n)
  else rest counter outblocks
termination_by outblocks
decreasing_by
  have hpos := NeZero.pos n
  omega

variable {n : Nat} [NeZero n]

theorem hashWhile_eq {compress : CompressInPlace} {blocks : Nat} {key : CvWords}
    {incrementCounter : Bool} {flags flagsStart flagsEnd : UInt8}
    {hash : Vector Bytes n → UInt64 → List Cv} {rest : List Bytes → UInt64 → List Cv}
    (hhash : ∀ inputs counter, hash inputs counter =
      hashEach compress blocks key incrementCounter flags flagsStart flagsEnd inputs.toList counter)
    (hrest : rest = hashEach compress blocks key incrementCounter flags flagsStart flagsEnd) :
    hashWhile n hash rest incrementCounter =
      hashEach compress blocks key incrementCounter flags flagsStart flagsEnd := by
  funext inputs counter
  induction inputs, counter using hashWhile.induct n incrementCounter with
  | case1 inputs counter hle ih =>
      rw [hashWhile, dif_pos hle, ih, hhash]
      conv_rhs =>
        rw [← List.take_append_drop n inputs, hashEach_append, List.length_take,
          Nat.min_eq_left hle]
      rfl
  | case2 inputs counter hlt => rw [hashWhile, dif_neg hlt, hrest]

theorem xofEach_add (compressXof : CompressXof) (cv : CvWords) (block : Block)
    (blockLen flags : UInt8) (counter : UInt64) (m k : Nat) :
    xofEach compressXof cv block blockLen counter flags (m + k) =
      xofEach compressXof cv block blockLen counter flags m ++
        xofEach compressXof cv block blockLen (counter + UInt64.ofNat m) flags k := by
  simp only [xofEach, List.range_add, List.flatMap_append, List.flatMap_map, UInt64.add_assoc,
    UInt64.ofNat_add]

theorem xofWhile_eq {compressXof : CompressXof} {cv : CvWords} {block : Block}
    {blockLen flags : UInt8} {xof : UInt64 → Bytes} {rest : UInt64 → Nat → Bytes}
    (hxof : ∀ counter, xof counter = xofEach compressXof cv block blockLen counter flags n)
    (hrest : rest = (xofEach compressXof cv block blockLen · flags)) :
    xofWhile n xof rest = (xofEach compressXof cv block blockLen · flags) := by
  funext counter outblocks
  induction counter, outblocks using xofWhile.induct n with
  | case1 counter outblocks hle ih =>
      have hsplit := xofEach_add compressXof cv block blockLen flags counter n (outblocks - n)
      rw [Nat.add_sub_cancel' hle] at hsplit
      rw [xofWhile, if_pos hle, ih, hxof, hsplit]
  | case2 counter outblocks hlt => rw [xofWhile, if_neg hlt, hrest]

end Groups

end Blake3
end FileExchange
