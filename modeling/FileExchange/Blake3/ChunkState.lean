import FileExchange.Blake3.Compress

/-!
# Blake3.ChunkState — the incremental hash of one chunk

* `chunkStateUpdate`, `chunkStateOutput` : the functions of `blake3.c`;
* `pushByte`             : one byte of input, and `chunkStateUpdate_eq_foldl`: an update is its
  bytes one after another, so that only the bytes of a chunk matter and not how they are cut;
* `chunkNode`            : the node of a chunk, block after block;
* `hashOnePortable_chunk` : the function that hashes a whole chunk at once agrees with it.
-/

namespace FileExchange
namespace Blake3

/-- `blake3_chunk_state`. -/
structure ChunkState where
  cv : CvWords
  chunkCounter : UInt64
  buf : Block
  bufLen : Nat
  blocksCompressed : Nat
  flags : UInt8

/-- `output_t`. -/
structure Output where
  inputCv : CvWords
  counter : UInt64
  block : Block
  blockLen : UInt8
  flags : UInt8

/-- What `memset` leaves in a block. -/
def zeroBlock : Block :=
  .replicate 64 0

def chunkStateInit (key : CvWords) (flags : UInt8) : ChunkState where
  cv := key
  chunkCounter := 0
  buf := zeroBlock
  bufLen := 0
  blocksCompressed := 0
  flags := flags

def chunkStateReset (self : ChunkState) (key : CvWords) (chunkCounter : UInt64) : ChunkState :=
  { self with
    cv := key
    chunkCounter := chunkCounter
    blocksCompressed := 0
    buf := zeroBlock
    bufLen := 0 }

def chunkStateLen (self : ChunkState) : Nat :=
  blockLen * self.blocksCompressed + self.bufLen

/-- `memcpy(buf + addr, data, data.length)`. -/
def copyAt (buf : Block) (addr : Nat) (data : Bytes) : Block :=
  .ofFn fun i =>
    if addr ≤ i.val ∧ i.val < addr + data.length then data.getD (i.val - addr) 0 else buf[i]

/-- The state with the bytes in its buffer, and how many they are. -/
def chunkStateFillBuf (self : ChunkState) (input : Bytes) : ChunkState × Nat :=
  let take := blockLen - self.bufLen
  let take := if take > input.length then input.length else take
  ({ self with
      buf := copyAt self.buf self.bufLen (input.take take)
      bufLen := self.bufLen + take }, take)

def chunkStateMaybeStartFlag (self : ChunkState) : UInt8 :=
  if self.blocksCompressed = 0 then chunkStart else 0

def makeOutput (inputCv : CvWords) (block : Block) (blockLen : UInt8) (counter : UInt64)
    (flags : UInt8) : Output :=
  { inputCv := inputCv, counter := counter, block := block, blockLen := blockLen, flags := flags }

def outputChainingValue (P : Platform) (self : Output) : Cv :=
  storeCvWords
    (P.compressInPlace self.inputCv self.block self.blockLen self.counter self.flags)

section Update

variable (P : Platform)

/-- Compress a whole block of the chunk. -/
def compressBlock (self : ChunkState) (block : Block) : ChunkState :=
  { self with
    cv := P.compressInPlace self.cv block (UInt8.ofNat blockLen) self.chunkCounter
      (self.flags ||| chunkStateMaybeStartFlag self)
    blocksCompressed := self.blocksCompressed + 1 }

/-- Compress the buffer and clear it. -/
def compressBuf (self : ChunkState) : ChunkState :=
  { compressBlock P self self.buf with
    bufLen := 0
    buf := zeroBlock }

/-- The bytes that go into the buffer before the loop, and what is left of the input. -/
def chunkStateTopUp (self : ChunkState) (input : Bytes) : ChunkState × Bytes :=
  if self.bufLen > 0 then
    let filled := chunkStateFillBuf self input
    let input := input.drop filled.2
    if input.length > 0 then (compressBuf P filled.1, input) else (filled.1, input)
  else (self, input)

/-- The loop over whole blocks: the last block stays, also a full one. -/
def chunkStateBlocks (self : ChunkState) (input : Bytes) : ChunkState × Bytes :=
  if blockLen < input.length then
    chunkStateBlocks (compressBlock P self (loadBlock input)) (input.drop blockLen)
  else (self, input)
termination_by input.length
decreasing_by
  unfold blockLen at *
  rw [List.length_drop]
  omega

def chunkStateUpdate (self : ChunkState) (input : Bytes) : ChunkState :=
  let topped := chunkStateTopUp P self input
  let looped := chunkStateBlocks P topped.1 topped.2
  (chunkStateFillBuf looped.1 looped.2).1

end Update

def chunkStateOutput (self : ChunkState) : Output :=
  let blockFlags := self.flags ||| chunkStateMaybeStartFlag self ||| chunkEnd
  makeOutput self.cv self.buf (UInt8.ofNat self.bufLen) self.chunkCounter blockFlags

def parentOutput (block : Block) (key : CvWords) (flags : UInt8) : Output :=
  makeOutput key block (UInt8.ofNat blockLen) 0 (flags ||| parentFlag)

/-! ## One byte at a time -/

section Bytewise

variable {P : Platform} {s : ChunkState} {b : UInt8} {x y : Bytes}

/-- A full buffer is compressed when another byte comes. -/
def pushByte (P : Platform) (self : ChunkState) (b : UInt8) : ChunkState :=
  let self := if self.bufLen = blockLen then compressBuf P self else self
  { self with
    buf := copyAt self.buf self.bufLen [b]
    bufLen := self.bufLen + 1 }

/-- The buffer is not overfull, and empty buffers are clear. -/
structure ChunkState.Tidy (s : ChunkState) : Prop where
  bufLen_le : s.bufLen ≤ 64
  clear : s.bufLen = 0 → s.buf = zeroBlock

theorem copyAt_nil (buf : Block) (addr : Nat) : copyAt buf addr [] = buf := by
  refine Vector.ext fun i hi => ?_
  have hout : ¬ (addr ≤ i ∧ i < addr + ([] : Bytes).length) := by
    rw [List.length_nil]
    omega
  simp only [copyAt, Vector.getElem_ofFn, if_neg hout]
  rfl

/-- Bytes are copied one after another. -/
theorem copyAt_cons (buf : Block) (addr : Nat) (b : UInt8) (x : Bytes) :
    copyAt buf addr (b :: x) = copyAt (copyAt buf addr [b]) (addr + 1) x := by
  refine Vector.ext fun i hi => ?_
  simp only [copyAt, Vector.getElem_ofFn, List.length_cons, List.length_nil, Fin.getElem_fin]
  by_cases hfirst : i = addr
  · subst hfirst
    simp
  · by_cases hrest : addr + 1 ≤ i ∧ i < addr + 1 + x.length
    · obtain ⟨k, rfl⟩ : ∃ k, i = addr + 1 + k := ⟨i - (addr + 1), by omega⟩
      have hk : addr + 1 + k - addr = k + 1 := by omega
      rw [if_pos (by omega), if_pos hrest, hk, List.getD_cons_succ, Nat.add_sub_cancel_left]
    · rw [if_neg (by omega), if_neg hrest, if_neg (by omega)]

/-- A clear block with some bytes is what these bytes load. -/
theorem copyAt_zeroBlock (x : Bytes) : copyAt zeroBlock 0 x = loadBlock x := by
  refine Vector.ext fun i hi => ?_
  simp only [copyAt, loadBlock, zeroBlock, Vector.getElem_ofFn, Fin.getElem_fin,
    Vector.getElem_replicate, Nat.sub_zero, Nat.zero_le, true_and, Nat.zero_add]
  split
  · rfl
  · next hout =>
      rw [List.getD_eq_getElem?_getD, List.getElem?_eq_none (by omega), Option.getD_none]

theorem loadBlock_append (h : 64 ≤ x.length) (y : Bytes) : loadBlock (x ++ y) = loadBlock x := by
  refine Vector.ext fun i hi => ?_
  simp only [loadBlock, Vector.getElem_ofFn, List.getD_eq_getElem?_getD]
  rw [List.getElem?_append_left (by omega)]

theorem loadBlock_take (x : Bytes) (h : 64 ≤ x.length) : loadBlock (x.take 64) = loadBlock x := by
  have hlength : (x.take 64).length = 64 := by
    rw [List.length_take]
    omega
  rw [← loadBlock_append hlength.ge (x.drop 64), List.take_append_drop]

attribute [local irreducible] copyAt loadBlock zeroBlock

/-- The state with more bytes in its buffer, which has room for them. -/
def ChunkState.filled (s : ChunkState) (x : Bytes) : ChunkState :=
  { s with
    buf := copyAt s.buf s.bufLen x
    bufLen := s.bufLen + x.length }

@[simp] theorem bufLen_filled : (s.filled x).bufLen = s.bufLen + x.length := rfl

@[simp] theorem filled_nil : s.filled [] = s := by
  rw [ChunkState.filled, copyAt_nil]
  rfl

theorem filled_cons (s : ChunkState) (b : UInt8) (x : Bytes) :
    s.filled (b :: x) = (s.filled [b]).filled x := by
  simp only [ChunkState.filled, List.length_cons, List.length_nil, Nat.zero_add]
  rw [copyAt_cons, Nat.add_assoc, Nat.add_comm 1]

/-- How many bytes `chunkStateFillBuf` takes. -/
theorem fillBuf_eq (s : ChunkState) (x : Bytes) :
    chunkStateFillBuf s x =
      (s.filled (x.take (min (64 - s.bufLen) x.length)), min (64 - s.bufLen) x.length) := by
  have htake : (if blockLen - s.bufLen > x.length then x.length else blockLen - s.bufLen) =
      min (64 - s.bufLen) x.length := by
    unfold blockLen
    split <;> omega
  have hlength : (x.take (min (64 - s.bufLen) x.length)).length =
      min (64 - s.bufLen) x.length := by
    rw [List.length_take]
    omega
  rw [ChunkState.filled, hlength]
  simp only [chunkStateFillBuf, htake]

theorem fillBuf_of_le (h : s.bufLen + x.length ≤ 64) :
    (chunkStateFillBuf s x).1 = s.filled x := by
  have hmin : min (64 - s.bufLen) x.length = x.length := by omega
  rw [fillBuf_eq, hmin, List.take_length]

theorem pushByte_of_room (h : s.bufLen ≠ 64) : pushByte P s b = s.filled [b] := by
  have hroom : ¬ s.bufLen = blockLen := h
  simp only [pushByte, if_neg hroom]
  rfl

theorem pushByte_of_full (h : s.bufLen = 64) :
    pushByte P s b = (compressBuf P s).filled [b] := by
  have hfull : s.bufLen = blockLen := h
  unfold pushByte
  rw [if_pos hfull]
  rfl

/-- As long as the buffer has room, the bytes only fill it. -/
theorem foldl_pushByte_of_le (h : s.bufLen + x.length ≤ 64) :
    x.foldl (pushByte P) s = s.filled x := by
  induction x generalizing s with
  | nil => exact filled_nil.symm
  | cons b x ih =>
      rw [List.length_cons] at h
      have hrest : (s.filled [b]).bufLen + x.length ≤ 64 := by
        rw [bufLen_filled, List.length_singleton]
        omega
      rw [List.foldl_cons, pushByte_of_room (by omega), ih hrest, ← filled_cons]

/-- Once the buffer is full, the next byte finds it compressed. -/
theorem foldl_pushByte_of_full (h : s.bufLen = 64) (hne : x ≠ []) :
    x.foldl (pushByte P) s = x.foldl (pushByte P) (compressBuf P s) := by
  cases x with
  | nil => exact absurd rfl hne
  | cons b x =>
      have hempty : (compressBuf P s).bufLen ≠ 64 := by
        simp [compressBuf]
      rw [List.foldl_cons, pushByte_of_full h, List.foldl_cons, pushByte_of_room hempty]

/-- A clear buffer that is filled with a whole block and compressed. -/
theorem compressBuf_filled (hlen : s.bufLen = 0) (hbuf : s.buf = zeroBlock) (x : Bytes) :
    compressBuf P (s.filled x) = compressBlock P s (loadBlock x) := by
  cases s with
  | mk cv counter buf bufLen blocks flags =>
      simp only at hlen hbuf
      subst hlen hbuf
      simp only [compressBuf, compressBlock, ChunkState.filled, copyAt_zeroBlock,
        chunkStateMaybeStartFlag]

/-- The loop compresses the blocks that the bytes would have filled the buffer with. -/
theorem foldl_pushByte_blocks (hlen : s.bufLen = 0) (hbuf : s.buf = zeroBlock) (x : Bytes) :
    x.foldl (pushByte P) s =
      (chunkStateFillBuf (chunkStateBlocks P s x).1 (chunkStateBlocks P s x).2).1 := by
  induction hn : x.length using Nat.strong_induction_on generalizing s x with
  | _ n ih =>
      rw [chunkStateBlocks]
      split
      · next hlong =>
          unfold blockLen at hlong ⊢
          have htake : (x.take 64).length = 64 := by
            rw [List.length_take]
            omega
          have hrest : (x.drop 64).length = n - 64 := by
            rw [List.length_drop, hn]
          have hsplit : x.foldl (pushByte P) s =
              (x.drop 64).foldl (pushByte P) (s.filled (x.take 64)) := by
            rw [← foldl_pushByte_of_le (by omega), ← List.foldl_append, List.take_append_drop]
          have hfull : (s.filled (x.take 64)).bufLen = 64 := by
            rw [bufLen_filled, hlen, htake]
          rw [hsplit, foldl_pushByte_of_full hfull (List.ne_nil_of_length_pos (by omega)),
            compressBuf_filled hlen hbuf, loadBlock_take x (by omega)]
          exact @ih _ (by omega) (compressBlock P s (loadBlock x)) hlen hbuf _ hrest
      · next hshort =>
          unfold blockLen at hshort
          have hle : s.bufLen + x.length ≤ 64 := by omega
          rw [foldl_pushByte_of_le hle, fillBuf_of_le hle]

/-- An update is its bytes one after another. -/
theorem chunkStateUpdate_eq_foldl (h : s.Tidy) (x : Bytes) :
    chunkStateUpdate P s x = x.foldl (pushByte P) s := by
  have hbound := h.bufLen_le
  unfold chunkStateUpdate chunkStateTopUp
  split
  · next hpos =>
      -- the buffer takes bytes first
      rw [fillBuf_eq]
      generalize htake : min (64 - s.bufLen) x.length = take
      have hlength : (x.take take).length = take := by
        rw [List.length_take]
        omega
      have hsplit : x.foldl (pushByte P) s =
          (x.drop take).foldl (pushByte P) (s.filled (x.take take)) := by
        rw [← foldl_pushByte_of_le (by omega), ← List.foldl_append, List.take_append_drop]
      simp only [hsplit]
      split
      · next hmore =>
          rw [List.length_drop] at hmore
          have hfull : (s.filled (x.take take)).bufLen = 64 := by
            rw [bufLen_filled, hlength]
            omega
          have hne : x.drop take ≠ [] := by
            refine List.ne_nil_of_length_pos ?_
            rw [List.length_drop]
            exact hmore
          rw [foldl_pushByte_of_full hfull hne]
          exact (foldl_pushByte_blocks rfl rfl _).symm
      · next hdone =>
          have hnil : x.drop take = [] := List.length_eq_zero_iff.1 (by omega)
          have hle : (s.filled (x.take take)).bufLen + ([] : Bytes).length ≤ 64 := by
            rw [bufLen_filled, hlength, List.length_nil]
            omega
          simp only [hnil, List.foldl_nil]
          rw [chunkStateBlocks, if_neg (by simp), fillBuf_of_le hle, filled_nil]
  · next hzero =>
      have hempty : s.bufLen = 0 := by omega
      exact (foldl_pushByte_blocks hempty (h.clear hempty) x).symm

theorem tidy_pushByte (h : s.Tidy) : (pushByte P s b).Tidy := by
  have hle := h.bufLen_le
  by_cases hfull : s.bufLen = 64
  · rw [pushByte_of_full hfull]
    exact ⟨by simp [compressBuf], by simp⟩
  · rw [pushByte_of_room hfull]
    exact ⟨by rw [bufLen_filled, List.length_singleton]; omega, by simp⟩

/-- A byte makes the chunk one byte longer. -/
theorem len_pushByte (s : ChunkState) (b : UInt8) :
    chunkStateLen (pushByte P s b) = chunkStateLen s + 1 := by
  by_cases hfull : s.bufLen = 64
  · rw [pushByte_of_full hfull]
    simp only [chunkStateLen, ChunkState.filled, compressBuf, compressBlock,
      List.length_singleton, hfull, blockLen]
    omega
  · rw [pushByte_of_room hfull]
    rfl

theorem tidy_foldl (h : s.Tidy) (x : Bytes) : (x.foldl (pushByte P) s).Tidy := by
  induction x generalizing s with
  | nil => exact h
  | cons b x ih => exact ih (tidy_pushByte h)

theorem len_foldl (s : ChunkState) (x : Bytes) :
    chunkStateLen (x.foldl (pushByte P) s) = chunkStateLen s + x.length := by
  induction x generalizing s with
  | nil => rfl
  | cons b x ih =>
      rw [List.foldl_cons, ih, len_pushByte, List.length_cons]
      omega

theorem flags_foldl (s : ChunkState) (x : Bytes) :
    (x.foldl (pushByte P) s).flags = s.flags := by
  induction x generalizing s with
  | nil => rfl
  | cons b x ih =>
      rw [List.foldl_cons, ih]
      unfold pushByte
      split <;> rfl

theorem chunkCounter_foldl (s : ChunkState) (x : Bytes) :
    (x.foldl (pushByte P) s).chunkCounter = s.chunkCounter := by
  induction x generalizing s with
  | nil => rfl
  | cons b x ih =>
      rw [List.foldl_cons, ih]
      unfold pushByte
      split <;> rfl

end Bytewise

/-! ## The node of a chunk -/

/-- The state of a chunk that holds some bytes. -/
def chunkAfter (P : Platform) (key : CvWords) (flags : UInt8) (counter : UInt64) (x : Bytes) :
    ChunkState :=
  x.foldl (pushByte P) { chunkStateInit key flags with chunkCounter := counter }

/-- The node of a chunk: `cv` is what its blocks so far have led to, and `startFlag` stands for
its first block. -/
def chunkNode (counter : UInt64) (flags : UInt8) (cv : CvWords) (startFlag : UInt8) (x : Bytes) :
    Output :=
  if x.length ≤ 64 then
    { inputCv := cv
      counter := counter
      block := loadBlock x
      blockLen := UInt8.ofNat x.length
      flags := flags ||| startFlag ||| chunkEnd }
  else
    chunkNode counter flags
      (compressInPlacePortable cv (loadBlock x) 64 counter (flags ||| startFlag)) 0 (x.drop 64)
termination_by x.length
decreasing_by
  rw [List.length_drop]
  omega

section ChunkNode

variable {P : Platform} {key : CvWords} {flags : UInt8} {counter : UInt64} {s : ChunkState}
  {x : Bytes}

theorem tidy_init (key : CvWords) (flags : UInt8) (counter : UInt64) :
    ChunkState.Tidy { chunkStateInit key flags with chunkCounter := counter } :=
  ⟨Nat.zero_le _, fun _ => rfl⟩

theorem tidy_chunkAfter : (chunkAfter P key flags counter x).Tidy :=
  tidy_foldl (tidy_init key flags counter) x

theorem len_chunkAfter : chunkStateLen (chunkAfter P key flags counter x) = x.length := by
  have h := @len_foldl P { chunkStateInit key flags with chunkCounter := counter } x
  rw [chunkAfter, h]
  simp [chunkStateLen, chunkStateInit]

theorem update_chunkAfter (x y : Bytes) :
    chunkStateUpdate P (chunkAfter P key flags counter x) y =
      chunkAfter P key flags counter (x ++ y) := by
  rw [chunkStateUpdate_eq_foldl tidy_chunkAfter, chunkAfter, chunkAfter, List.foldl_append]

theorem output_blocks (hP : P.Agrees) (hlen : s.bufLen = 0) (hbuf : s.buf = zeroBlock)
    (x : Bytes) :
    chunkStateOutput
        (chunkStateFillBuf (chunkStateBlocks P s x).1 (chunkStateBlocks P s x).2).1 =
      chunkNode s.chunkCounter s.flags s.cv (chunkStateMaybeStartFlag s) x := by
  induction hn : x.length using Nat.strong_induction_on generalizing s x with
  | _ n ih =>
      rw [chunkStateBlocks, chunkNode]
      by_cases hlong : 64 < x.length
      · rw [if_pos (by exact hlong), if_neg (by omega)]
        have hdrop : (x.drop 64).length = n - 64 := by
          rw [List.length_drop, hn]
        have h := @ih _ (by omega) (compressBlock P s (loadBlock x)) hlen hbuf _ hdrop
        have hstart : chunkStateMaybeStartFlag (compressBlock P s (loadBlock x)) = 0 := by
          simp [chunkStateMaybeStartFlag, compressBlock]
        rw [hstart] at h
        rw [← hP.compressInPlace]
        exact h
      · have hle : s.bufLen + x.length ≤ 64 := by omega
        rw [if_neg (by exact hlong), if_pos (by omega), fillBuf_of_le hle]
        simp only [chunkStateOutput, makeOutput, ChunkState.filled, chunkStateMaybeStartFlag, hlen,
          hbuf, copyAt_zeroBlock, Nat.zero_add]

/-- The output of a chunk is its node, however its bytes arrived. -/
theorem output_chunkAfter (hP : P.Agrees) (x : Bytes) :
    chunkStateOutput (chunkAfter P key flags counter x) =
      chunkNode counter flags key chunkStart x := by
  rw [chunkAfter, foldl_pushByte_blocks rfl rfl]
  exact output_blocks hP rfl rfl x

/-- `hash_one_portable` takes the blocks of a whole chunk one after another. -/
theorem hashBlocks_eq : ∀ {n : Nat} {x : Bytes} {cv : CvWords} {startFlag : UInt8},
    x.length = 64 * (n + 1) →
      storeCvWords (hashBlocks compressInPlacePortable counter flags chunkEnd (n + 1) x
          (flags ||| startFlag) cv) =
        outputChainingValue .portable (chunkNode counter flags cv startFlag x)
  | 0, x, cv, startFlag, h => by
      rw [chunkNode, if_pos (by omega), h]
      rfl
  | n + 1, x, cv, startFlag, h => by
      have hdrop : (x.drop 64).length = 64 * (n + 1) := by
        rw [List.length_drop]
        omega
      have hlast : ¬ n + 1 + 1 = 1 := by omega
      have hrest := @hashBlocks_eq n (x.drop 64)
        (compressInPlacePortable cv (loadBlock x) 64 counter (flags ||| startFlag)) 0 hdrop
      rw [UInt8.or_zero] at hrest
      rw [chunkNode, if_neg (by omega), ← hrest, hashBlocks]
      simp only [if_neg hlast]
      rfl

/-- Hashing a whole chunk at once gives the chaining value of its node. -/
theorem hashOnePortable_chunk (h : x.length = 1024) :
    hashOnePortable x 16 key counter flags chunkStart chunkEnd =
      outputChainingValue .portable (chunkNode counter flags key chunkStart x) :=
  hashBlocks_eq (by omega)

/-- And so does hashing the two children of a parent. -/
theorem hashOnePortable_parent (block : Block) :
    hashOnePortable block.toList 1 key 0 (flags ||| parentFlag) 0 0 =
      outputChainingValue .portable (parentOutput block key flags) := by
  have hload : loadBlock block.toList = block := by
    refine Vector.ext fun i hi => ?_
    simp [loadBlock]
  rw [hashOnePortable, hashOne, hashBlocks, hashBlocks, hload]
  simp only [if_true, UInt8.or_zero]
  rfl

end ChunkNode

end Blake3
end FileExchange
