import FileExchange.Blake3.Lanes

/-!
# Blake3.Dispatch — the functions for the features of a processor

* `hashManySse2`, …, `xofManyAvx512` : what the SIMD files offer;
* `getCpuFeatures`    : what a processor reports, as `blake3_dispatch.c` asks for it;
* `Platform.dispatch` : the functions that are selected.

Whatever the features are, the selected functions compute what the portable ones do
(`Platform.dispatch_agrees`).
-/

namespace FileExchange
namespace Blake3

open Lib.FixedVector

/-! ## Many inputs -/

section HashMany

variable (blocks : Nat) (key : CvWords) (incrementCounter : Bool)
  (flags flagsStart flagsEnd : UInt8)

def hashManySse2 : List Bytes → UInt64 → List Cv :=
  hashWhile 4 (hash4Sse2 blocks key incrementCounter flags flagsStart flagsEnd)
    (hashEach compressInPlaceSse2 blocks key incrementCounter flags flagsStart flagsEnd)
    incrementCounter

def hashManySse41 : List Bytes → UInt64 → List Cv :=
  hashWhile 4 (hash4Sse41 blocks key incrementCounter flags flagsStart flagsEnd)
    (hashEach compressInPlaceSse41 blocks key incrementCounter flags flagsStart flagsEnd)
    incrementCounter

def hashManyAvx2 : List Bytes → UInt64 → List Cv :=
  hashWhile 8 (hash8Avx2 blocks key incrementCounter flags flagsStart flagsEnd)
    (hashManySse41 blocks key incrementCounter flags flagsStart flagsEnd) incrementCounter

def hashManyAvx512 : List Bytes → UInt64 → List Cv :=
  let few := hashEach compressInPlaceAvx512 blocks key incrementCounter flags flagsStart flagsEnd
  let four := hash4Avx512 blocks key incrementCounter flags flagsStart flagsEnd
  let eight := hash8Avx512 blocks key incrementCounter flags flagsStart flagsEnd
  let sixteen := hash16Avx512 blocks key incrementCounter flags flagsStart flagsEnd
  hashWhile 16 sixteen
    (hashWhile 8 eight (hashWhile 4 four few incrementCounter) incrementCounter) incrementCounter

/-- The two files that treat four inputs at once. -/
theorem RowCode.Correct.hashMany_eq {code : RowCode} (h : code.Correct) :
    hashWhile 4 (code.registers.hash blocks key incrementCounter flags flagsStart flagsEnd)
        (hashEach code.compressInPlace blocks key incrementCounter flags flagsStart flagsEnd)
        incrementCounter =
      hashManyPortable blocks key incrementCounter flags flagsStart flagsEnd := by
  refine hashWhile_eq (h.registers.hash_eq blocks key incrementCounter flags flagsStart flagsEnd) ?_
  rw [h.compressInPlace_eq]

theorem hashManyAvx2_eq :
    hashManyAvx2 blocks key incrementCounter flags flagsStart flagsEnd =
      hashManyPortable blocks key incrementCounter flags flagsStart flagsEnd :=
  hashWhile_eq (avx2_correct.hash_eq blocks key incrementCounter flags flagsStart flagsEnd)
    (sse41_correct.hashMany_eq blocks key incrementCounter flags flagsStart flagsEnd)

theorem hashManyAvx512_eq :
    hashManyAvx512 blocks key incrementCounter flags flagsStart flagsEnd =
      hashManyPortable blocks key incrementCounter flags flagsStart flagsEnd := by
  have hfour := avx512Four_correct.hash_eq blocks key incrementCounter flags flagsStart flagsEnd
  have height := avx512Eight_correct.hash_eq blocks key incrementCounter flags flagsStart flagsEnd
  have hsixteen :=
    avx512Sixteen_correct.hash_eq blocks key incrementCounter flags flagsStart flagsEnd
  refine hashWhile_eq hsixteen (hashWhile_eq height (hashWhile_eq hfour ?_))
  rw [compressInPlaceAvx512, avx512_correct.compressInPlace_eq]

end HashMany

/-! ## Many blocks of output -/

/-- `blake3_xof_many_avx512`. -/
def xofManyAvx512 (cv : CvWords) (block : Block) (blockLen : UInt8) (counter : UInt64)
    (flags : UInt8) (outblocks : Nat) : Bytes :=
  let few := fun counter outblocks =>
    xofEach compressXofAvx512 cv block blockLen counter flags outblocks
  let four := xofWhile 4 (xof4Avx512 cv block blockLen flags) few
  let eight := xofWhile 8 (xof8Avx512 cv block blockLen flags) four
  xofWhile 16 (xof16Avx512 cv block blockLen flags) eight counter outblocks

theorem xofManyAvx512_eq : xofManyAvx512 = xofManyPortable := by
  funext cv block blockLen counter flags outblocks
  have hfour := avx512Four_correct.xof_eq cv block blockLen flags
  have height := avx512Eight_correct.xof_eq cv block blockLen flags
  have hsixteen := avx512Sixteen_correct.xof_eq cv block blockLen flags
  have hloops := xofWhile_eq hsixteen (xofWhile_eq height (xofWhile_eq hfour rfl))
  rw [xofManyAvx512, compressXofAvx512, avx512_correct.compressXof_eq]
  exact congrFun (congrFun hloops counter) outblocks

/-! ## The features of a processor -/

/-- Whether a bit is set. -/
def hasBit (word : UInt32) (bit : UInt32) : Bool :=
  word &&& (1 : UInt32) <<< bit != 0

/-- An `enum cpu_feature`, a set of bits. -/
abbrev CpuFeatures := UInt32

namespace CpuFeatures

def sse2 : CpuFeatures := (1 : UInt32) <<< 0
def ssse3 : CpuFeatures := (1 : UInt32) <<< 1
def sse41 : CpuFeatures := (1 : UInt32) <<< 2
def avx : CpuFeatures := (1 : UInt32) <<< 3
def avx2 : CpuFeatures := (1 : UInt32) <<< 4
def avx512f : CpuFeatures := (1 : UInt32) <<< 5
def avx512vl : CpuFeatures := (1 : UInt32) <<< 6
def undefined : CpuFeatures := (1 : UInt32) <<< 30

def has (features feature : CpuFeatures) : Bool :=
  features &&& feature != 0

/-- What AVX-512 takes for several inputs. -/
def hasAvx512 (features : CpuFeatures) : Bool :=
  features &&& (avx512f ||| avx512vl) == avx512f ||| avx512vl

end CpuFeatures

/-- What `cpuid` and `xgetbv` report: `eax` of leaf 0, `ecx` of leaf 1, `ebx` of leaf 7, and the
mask of the states that the system saves. -/
structure Cpu where
  maxId : Int32
  ecx : UInt32
  ebx : UInt32
  mask : UInt64

namespace Cpu

/-- The features that `get_cpu_features` collects on a 64-bit processor. -/
def features (cpu : Cpu) : CpuFeatures :=
  let add := fun (features : CpuFeatures) (found : Bool) (feature : CpuFeatures) =>
    if found then features ||| feature else features
  let features := CpuFeatures.sse2
  let features := add features (hasBit cpu.ecx 9) .ssse3
  let features := add features (hasBit cpu.ecx 19) .sse41
  if hasBit cpu.ecx 27 && cpu.mask &&& 6 == 6 then
    let features := add features (hasBit cpu.ecx 28) .avx
    if 7 ≤ cpu.maxId then
      let features := add features (hasBit cpu.ebx 5) .avx2
      if cpu.mask &&& 224 == 224 then
        let features := add features (hasBit cpu.ebx 31) .avx512vl
        add features (hasBit cpu.ebx 16) .avx512f
      else features
    else features
  else features

/-- `get_cpu_features`, with what it leaves in `g_cpu_features`. -/
def getCpuFeatures (cpu : Cpu) (gCpuFeatures : CpuFeatures) : CpuFeatures × CpuFeatures :=
  if gCpuFeatures != .undefined then (gCpuFeatures, gCpuFeatures)
  else (cpu.features, cpu.features)

/-- So the variable holds nothing or the features, and every call finds the same ones. -/
theorem getCpuFeatures_eq {cpu : Cpu} {gCpuFeatures : CpuFeatures}
    (h : gCpuFeatures = .undefined ∨ gCpuFeatures = cpu.features) :
    cpu.getCpuFeatures gCpuFeatures = (cpu.features, cpu.features) := by
  rcases h with rfl | rfl
  · rfl
  · simp [getCpuFeatures]

end Cpu

/-! ## The selection -/

namespace Platform

variable (features : CpuFeatures)

def dispatchCompressInPlace : CompressInPlace :=
  if features.has .avx512vl then compressInPlaceAvx512
  else if features.has .sse41 then compressInPlaceSse41
  else if features.has .sse2 then compressInPlaceSse2
  else compressInPlacePortable

def dispatchCompressXof : CompressXof :=
  if features.has .avx512vl then compressXofAvx512
  else if features.has .sse41 then compressXofSse41
  else if features.has .sse2 then compressXofSse2
  else compressXofPortable

def dispatchXofMany (cv : CvWords) (block : Block) (blockLen : UInt8) (counter : UInt64)
    (flags : UInt8) (outblocks : Nat) : Bytes :=
  if outblocks = 0 then []
  else if features.has .avx512vl then
    xofManyAvx512 cv block blockLen counter flags outblocks
  else xofEach (dispatchCompressXof features) cv block blockLen counter flags outblocks

def dispatchHashMany (blocks : Nat) (key : CvWords) (incrementCounter : Bool)
    (flags flagsStart flagsEnd : UInt8) : List Bytes → UInt64 → List Cv :=
  if features.hasAvx512 then
    hashManyAvx512 blocks key incrementCounter flags flagsStart flagsEnd
  else if features.has .avx2 then
    hashManyAvx2 blocks key incrementCounter flags flagsStart flagsEnd
  else if features.has .sse41 then
    hashManySse41 blocks key incrementCounter flags flagsStart flagsEnd
  else if features.has .sse2 then
    hashManySse2 blocks key incrementCounter flags flagsStart flagsEnd
  else hashManyPortable blocks key incrementCounter flags flagsStart flagsEnd

/-- `blake3_simd_degree`. -/
def dispatchSimdDegree : SimdDegree :=
  if features.hasAvx512 then .avx512
  else if features.has .avx2 then .avx2
  else if features.has .sse41 then .sse
  else if features.has .sse2 then .sse
  else .portable

/-- The functions of `blake3_dispatch.c` on a processor with these features. -/
def dispatch : Platform where
  compressInPlace := dispatchCompressInPlace features
  compressXof := dispatchCompressXof features
  xofMany := dispatchXofMany features
  hashMany := dispatchHashMany features
  simdDegree := dispatchSimdDegree features

theorem dispatchCompressXof_eq : dispatchCompressXof features = compressXofPortable := by
  unfold dispatchCompressXof
  split_ifs
  · exact avx512_correct.compressXof_eq
  · exact sse41_correct.compressXof_eq
  · exact sse2_correct.compressXof_eq
  · rfl

/-- On every processor, the selected functions compute what the portable ones do. -/
theorem dispatch_agrees : (dispatch features).Agrees where
  compressInPlace := by
    simp only [dispatch, dispatchCompressInPlace]
    split_ifs
    · exact avx512_correct.compressInPlace_eq
    · exact sse41_correct.compressInPlace_eq
    · exact sse2_correct.compressInPlace_eq
    · rfl
  compressXof := dispatchCompressXof_eq features
  xofMany := by
    funext cv block blockLen counter flags outblocks
    simp only [dispatch, dispatchXofMany, dispatchCompressXof_eq]
    split_ifs with hnone
    · rw [hnone]
      rfl
    · rw [xofManyAvx512_eq]
    · rfl
  hashMany := by
    funext blocks key incrementCounter flags flagsStart flagsEnd
    simp only [dispatch, dispatchHashMany]
    split_ifs
    · exact hashManyAvx512_eq ..
    · exact hashManyAvx2_eq ..
    · exact sse41_correct.hashMany_eq ..
    · exact sse2_correct.hashMany_eq ..
    · rfl

end Platform

end Blake3
end FileExchange
