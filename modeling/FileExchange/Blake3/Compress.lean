import FileExchange.CLibrary

/-!
# Blake3.Compress — the portable compression function of `deps/blake3`

* `g`, `roundFn`, `compressPre` : the rounds on sixteen words;
* `compressInPlacePortable`     : the chaining value that a block leads to;
* `compressXofPortable`         : the 64 bytes of output of a block;
* `hashOne`, `hashEach`         : several blocks of one input, several inputs;
* `xofEach`                     : several blocks of output;
* `Platform`                    : what `blake3_dispatch.c` selects on a machine.

A `uint32_t cv[8]` is a vector of words; a chaining value on the stack of a hasher is 32 bytes.
-/

namespace FileExchange
namespace Blake3

/-- A `uint32_t cv[8]`. -/
abbrev CvWords := Vector UInt32 8

/-- A chaining value as `BLAKE3_OUT_LEN` bytes. -/
abbrev Cv := Vector UInt8 32

/-- `BLAKE3_BLOCK_LEN` bytes. -/
abbrev Block := Vector UInt8 64

/-- `BLAKE3_BLOCK_LEN`. -/
def blockLen : Nat := 64

/-- `BLAKE3_CHUNK_LEN`. -/
def chunkLen : Nat := 1024

/-! ## Flags and constants -/

def chunkStart : UInt8 := (1 : UInt8) <<< 0
def chunkEnd : UInt8 := (1 : UInt8) <<< 1
def parentFlag : UInt8 := (1 : UInt8) <<< 2
def rootFlag : UInt8 := (1 : UInt8) <<< 3
def keyedHash : UInt8 := (1 : UInt8) <<< 4
def deriveKeyContext : UInt8 := (1 : UInt8) <<< 5
def deriveKeyMaterial : UInt8 := (1 : UInt8) <<< 6

/-- `IV`. -/
def iv : CvWords :=
  #v[0x6A09E667, 0xBB67AE85, 0x3C6EF372, 0xA54FF53A,
     0x510E527F, 0x9B05688C, 0x1F83D9AB, 0x5BE0CD19]

/-- `MSG_SCHEDULE`. -/
def msgSchedule : Vector (Vector (Fin 16) 16) 7 :=
  #v[#v[0, 1, 2, 3, 4, 5, 6, 7, 8, 9, 10, 11, 12, 13, 14, 15],
     #v[2, 6, 3, 10, 7, 0, 4, 13, 1, 11, 12, 5, 9, 14, 15, 8],
     #v[3, 4, 10, 12, 13, 2, 7, 14, 6, 5, 9, 0, 11, 15, 8, 1],
     #v[10, 7, 12, 9, 14, 3, 13, 15, 4, 0, 11, 2, 5, 8, 1, 6],
     #v[12, 13, 9, 11, 15, 10, 14, 8, 7, 2, 5, 3, 0, 1, 6, 4],
     #v[9, 14, 11, 5, 8, 12, 15, 1, 13, 3, 0, 10, 2, 6, 4, 7],
     #v[11, 15, 5, 0, 1, 9, 8, 6, 14, 10, 2, 12, 3, 4, 7, 13]]

/-! ## Words and bytes -/

def load32 (b₀ b₁ b₂ b₃ : UInt8) : UInt32 :=
  b₀.toUInt32 <<< 0 ||| b₁.toUInt32 <<< 8 ||| b₂.toUInt32 <<< 16 ||| b₃.toUInt32 <<< 24

/-- Byte `i` of `store32`, which writes the lowest byte first. -/
def store32 (w : UInt32) (i : Nat) : UInt8 :=
  (w >>> UInt32.ofNat (8 * i)).toUInt8

/-- The words of a block. -/
def blockWords (block : Block) : Vector UInt32 16 :=
  .ofFn fun i => load32 block[4 * i.val] block[4 * i.val + 1] block[4 * i.val + 2]
    block[4 * i.val + 3]

def loadKeyWords (key : Vector UInt8 32) : CvWords :=
  .ofFn fun i => load32 key[4 * i.val] key[4 * i.val + 1] key[4 * i.val + 2] key[4 * i.val + 3]

def storeCvWords (cvWords : CvWords) : Cv :=
  .ofFn fun i => store32 cvWords[i.val / 4] (i.val % 4)

def counterLow (counter : UInt64) : UInt32 :=
  counter.toUInt32

def counterHigh (counter : UInt64) : UInt32 :=
  (counter >>> 32).toUInt32

/-! ## Rounds -/

def rotr32 (w c : UInt32) : UInt32 :=
  (w >>> c) ||| (w <<< (32 - c))

def g (state : Vector UInt32 16) (a b c d : Fin 16) (x y : UInt32) : Vector UInt32 16 :=
  let state := state.set a (state[a] + state[b] + x)
  let state := state.set d (rotr32 (state[d] ^^^ state[a]) 16)
  let state := state.set c (state[c] + state[d])
  let state := state.set b (rotr32 (state[b] ^^^ state[c]) 12)
  let state := state.set a (state[a] + state[b] + y)
  let state := state.set d (rotr32 (state[d] ^^^ state[a]) 8)
  let state := state.set c (state[c] + state[d])
  state.set b (rotr32 (state[b] ^^^ state[c]) 7)

def roundFn (state msg : Vector UInt32 16) (round : Fin 7) : Vector UInt32 16 :=
  let schedule := msgSchedule[round]
  -- mix the columns
  let state := g state 0 4 8 12 msg[schedule[0]] msg[schedule[1]]
  let state := g state 1 5 9 13 msg[schedule[2]] msg[schedule[3]]
  let state := g state 2 6 10 14 msg[schedule[4]] msg[schedule[5]]
  let state := g state 3 7 11 15 msg[schedule[6]] msg[schedule[7]]
  -- mix the rows
  let state := g state 0 5 10 15 msg[schedule[8]] msg[schedule[9]]
  let state := g state 1 6 11 12 msg[schedule[10]] msg[schedule[11]]
  let state := g state 2 7 8 13 msg[schedule[12]] msg[schedule[13]]
  g state 3 4 9 14 msg[schedule[14]] msg[schedule[15]]

/-- The state before the first round. -/
def initialState (cv : CvWords) (blockLen : UInt8) (counter : UInt64) (flags : UInt8) :
    Vector UInt32 16 :=
  #v[cv[0], cv[1], cv[2], cv[3], cv[4], cv[5], cv[6], cv[7],
     iv[0], iv[1], iv[2], iv[3],
     counterLow counter, counterHigh counter, blockLen.toUInt32, flags.toUInt32]

def compressPre (cv : CvWords) (block : Block) (blockLen : UInt8) (counter : UInt64)
    (flags : UInt8) : Vector UInt32 16 :=
  let words := blockWords block
  let state := initialState cv blockLen counter flags
  let state := roundFn state words 0
  let state := roundFn state words 1
  let state := roundFn state words 2
  let state := roundFn state words 3
  let state := roundFn state words 4
  let state := roundFn state words 5
  roundFn state words 6

def compressInPlacePortable (cv : CvWords) (block : Block) (blockLen : UInt8) (counter : UInt64)
    (flags : UInt8) : CvWords :=
  let state := compressPre cv block blockLen counter flags
  .ofFn fun i => state[i.val] ^^^ state[i.val + 8]

/-- The words of `blake3_compress_xof_portable`. -/
def compressXofWords (cv : CvWords) (block : Block) (blockLen : UInt8) (counter : UInt64)
    (flags : UInt8) : Vector UInt32 16 :=
  let state := compressPre cv block blockLen counter flags
  .ofFn fun i => if h : i.val < 8 then state[i.val] ^^^ state[i.val + 8]
    else state[i.val] ^^^ cv[i.val - 8]

def compressXofPortable (cv : CvWords) (block : Block) (blockLen : UInt8) (counter : UInt64)
    (flags : UInt8) : Vector UInt8 64 :=
  let words := compressXofWords cv block blockLen counter flags
  .ofFn fun i => store32 words[i.val / 4] (i.val % 4)

/-! ## Several blocks and several inputs -/

/-- The first 64 bytes that a pointer points to. -/
def loadBlock (input : Bytes) : Block :=
  .ofFn fun i => input.getD i.val 0

/-- A function `blake3_compress_in_place`. -/
abbrev CompressInPlace := CvWords → Block → UInt8 → UInt64 → UInt8 → CvWords

/-- The loop of a function `hash_one`. -/
def hashBlocks (compress : CompressInPlace) (counter : UInt64) (flags flagsEnd : UInt8) :
    Nat → Bytes → UInt8 → CvWords → CvWords
  | 0, _, _, cv => cv
  | blocks + 1, input, blockFlags, cv =>
      let blockFlags := if blocks + 1 = 1 then blockFlags ||| flagsEnd else blockFlags
      let cv := compress cv (loadBlock input) (UInt8.ofNat blockLen) counter blockFlags
      hashBlocks compress counter flags flagsEnd blocks (input.drop blockLen) flags cv

/-- `hash_one`, over the compression function of its file. -/
def hashOne (compress : CompressInPlace) (input : Bytes) (blocks : Nat) (key : CvWords)
    (counter : UInt64) (flags flagsStart flagsEnd : UInt8) : Cv :=
  storeCvWords (hashBlocks compress counter flags flagsEnd blocks input (flags ||| flagsStart) key)

/-- The loop that hashes one input after another; these are the chaining values that it writes to
`out`. -/
def hashEach (compress : CompressInPlace) (blocks : Nat) (key : CvWords) (incrementCounter : Bool)
    (flags flagsStart flagsEnd : UInt8) : List Bytes → UInt64 → List Cv
  | [], _ => []
  | input :: inputs, counter =>
      hashOne compress input blocks key counter flags flagsStart flagsEnd ::
        hashEach compress blocks key incrementCounter flags flagsStart flagsEnd inputs
          (if incrementCounter then counter + 1 else counter)

def hashOnePortable : Bytes → Nat → CvWords → UInt64 → UInt8 → UInt8 → UInt8 → Cv :=
  hashOne compressInPlacePortable

def hashManyPortable : Nat → CvWords → Bool → UInt8 → UInt8 → UInt8 → List Bytes → UInt64 →
    List Cv :=
  hashEach compressInPlacePortable

/-- A function `blake3_compress_xof`. -/
abbrev CompressXof := CvWords → Block → UInt8 → UInt64 → UInt8 → Vector UInt8 64

/-- The loop of `blake3_xof_many`. -/
def xofEach (compressXof : CompressXof) (cv : CvWords) (block : Block) (blockLen : UInt8)
    (counter : UInt64) (flags : UInt8) (outblocks : Nat) : Bytes :=
  (List.range outblocks).flatMap fun i =>
    (compressXof cv block blockLen (counter + UInt64.ofNat i) flags).toList

def xofManyPortable : CvWords → Block → UInt8 → UInt64 → UInt8 → Nat → Bytes :=
  xofEach compressXofPortable

/-! ## Dispatch -/

/-- The instruction sets that `blake3_simd_degree` distinguishes. -/
inductive SimdDegree where
  | portable
  /-- SSE2 or SSE4.1. -/
  | sse
  | avx2
  | avx512
  deriving DecidableEq, Repr

/-- How many inputs are hashed in parallel. -/
def SimdDegree.lanes : SimdDegree → Nat
  | portable => 1
  | sse => 4
  | avx2 => 8
  | avx512 => 16

theorem SimdDegree.exists_lanes_eq (d : SimdDegree) : ∃ a, d.lanes = 2 ^ a ∧ a ≤ 4 := by
  cases d
  · exact ⟨0, rfl, by decide⟩
  · exact ⟨2, rfl, by decide⟩
  · exact ⟨3, rfl, by decide⟩
  · exact ⟨4, rfl, by decide⟩

theorem SimdDegree.lanes_pos (d : SimdDegree) : 0 < d.lanes := by
  cases d <;> decide

/-- The functions that `blake3_dispatch.c` selects for the features of a processor, and the SIMD
degree that goes with them. -/
structure Platform where
  compressInPlace : CompressInPlace
  compressXof : CompressXof
  xofMany : CvWords → Block → UInt8 → UInt64 → UInt8 → Nat → Bytes
  hashMany : Nat → CvWords → Bool → UInt8 → UInt8 → UInt8 → List Bytes → UInt64 → List Cv
  simdDegree : SimdDegree

/-- Without SIMD support. -/
def Platform.portable : Platform where
  compressInPlace := compressInPlacePortable
  compressXof := compressXofPortable
  xofMany := xofManyPortable
  hashMany := hashManyPortable
  simdDegree := .portable

/-- The selected functions compute what the portable ones do; `hashMany` is called for the chunks
and for the parents of a tree. -/
structure Platform.Agrees (P : Platform) : Prop where
  compressInPlace : P.compressInPlace = compressInPlacePortable
  compressXof : P.compressXof = compressXofPortable
  xofMany : P.xofMany = xofManyPortable
  hashMany : P.hashMany = hashManyPortable

theorem Platform.portable_agrees : Platform.portable.Agrees where
  compressInPlace := rfl
  compressXof := rfl
  xofMany := rfl
  hashMany := rfl

end Blake3
end FileExchange
