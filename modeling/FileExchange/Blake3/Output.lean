import FileExchange.Blake3.ChunkState
import Mathlib.Data.Stream.Init

/-!
# Blake3.Output — the bytes of a root node

* `outputRootBytes` : the function of `blake3.c`;
* `rootStream`      : the bytes that a root node stands for, without an end.

Whatever the caller asks for is a window of this stream (`outputRootBytes_eq`).
-/

namespace FileExchange
namespace Blake3

section Functions

variable (P : Platform) (self : Output)

/-- The bytes up to the first boundary of a block, how many remain to be written, and the counter of
the next block. -/
def outputRootHead (seek : UInt64) (outLen : Nat) : Bytes × Nat × UInt64 :=
  let outputBlockCounter := seek / 64
  let offsetWithinBlock := (seek % 64).toNat
  if offsetWithinBlock ≠ 0 then
    let wideBuf := P.compressXof self.inputCv self.block self.blockLen outputBlockCounter
      (self.flags ||| rootFlag)
    let availableBytes := 64 - offsetWithinBlock
    let bytes := if outLen > availableBytes then availableBytes else outLen
    ((wideBuf.toList.drop offsetWithinBlock).take bytes, outLen - bytes, outputBlockCounter + 1)
  else ([], outLen, outputBlockCounter)

/-- The whole blocks and the beginning of a last one. -/
def outputRootTail (outputBlockCounter : UInt64) (outLen : Nat) : Bytes :=
  let blocks :=
    if outLen / 64 ≠ 0 then
      P.xofMany self.inputCv self.block self.blockLen outputBlockCounter (self.flags ||| rootFlag)
        (outLen / 64)
    else []
  let outputBlockCounter := outputBlockCounter + UInt64.ofNat (outLen / 64)
  let outLen := outLen % 64
  if outLen ≠ 0 then
    let wideBuf := P.compressXof self.inputCv self.block self.blockLen outputBlockCounter
      (self.flags ||| rootFlag)
    blocks ++ wideBuf.toList.take outLen
  else blocks

def outputRootBytes (seek : UInt64) (outLen : Nat) : Bytes :=
  if outLen = 0 then []
  else
    let head := outputRootHead P self seek outLen
    head.1 ++ outputRootTail P self head.2.2 head.2.1

end Functions

/-! ## The output as a stream -/

/-- Block `k` of the output. -/
def rootBlock (self : Output) (k : Nat) : Vector UInt8 64 :=
  compressXofPortable self.inputCv self.block self.blockLen (UInt64.ofNat k)
    (self.flags ||| rootFlag)

/-- All the bytes of the output, of which a caller takes some. -/
def rootStream (self : Output) : Stream' UInt8 :=
  fun n => (rootBlock self (n / 64))[n % 64]

section Stream

variable {P : Platform} {self : Output}

theorem take_add {α : Type} (m n : Nat) (s : Stream' α) :
    s.take (m + n) = s.take m ++ (s.drop m).take n := by
  induction m generalizing s with
  | zero => rw [Nat.zero_add, Stream'.take_zero, List.nil_append, Stream'.drop_zero]
  | succ m ih =>
      rw [Nat.add_right_comm, Stream'.take_succ, ih, Stream'.take_succ, List.cons_append]
      rfl

theorem compressXof_eq (hP : P.Agrees) (k : Nat) :
    P.compressXof self.inputCv self.block self.blockLen (UInt64.ofNat k)
      (self.flags ||| rootFlag) = rootBlock self k := by
  rw [hP.compressXof]
  rfl

theorem blockCounter_eq (seek : UInt64) : seek / 64 = UInt64.ofNat (seek.toNat / 64) := by
  have hlt : seek.toNat / 64 < UInt64.size :=
    (Nat.div_le_self _ _).trans_lt seek.toNat_lt
  refine UInt64.toNat_inj.1 ?_
  rw [UInt64.toNat_div, UInt64.toNat_ofNat_of_lt' hlt]
  rfl

theorem take_rootStream (k : Nat) :
    ((rootStream self).drop (64 * k)).take 64 = (rootBlock self k).toList := by
  refine List.ext_getElem? fun i => ?_
  by_cases hi : i < 64
  · have hdiv : (64 * k + i) / 64 = k := by omega
    have hmod : (64 * k + i) % 64 = i := by omega
    have hsize : i < (rootBlock self k).toList.length := by simpa using hi
    rw [Stream'.getElem?_take hi, Stream'.get_drop, List.getElem?_eq_getElem hsize]
    simp only [rootStream, Stream'.get, hdiv, hmod, Vector.getElem_toList]
  · rw [List.getElem?_eq_none (by simp; omega), List.getElem?_eq_none (by simp; omega)]

/-- Some whole blocks of the output. -/
theorem take_rootStream_blocks (k n : Nat) :
    ((rootStream self).drop (64 * k)).take (64 * n) =
      (List.range n).flatMap fun i => (rootBlock self (k + i)).toList := by
  induction n with
  | zero => rfl
  | succ n ih =>
      have hnext : 64 * k + 64 * n = 64 * (k + n) := by omega
      rw [Nat.mul_succ, take_add, ih, Stream'.drop_drop, hnext, take_rootStream,
        List.range_succ, List.flatMap_append, List.flatMap_singleton]

/-- A piece of one block. -/
theorem take_drop_rootBlock (self : Output) (k : Nat) {offset n : Nat} (h : offset + n ≤ 64) :
    ((rootBlock self k).toList.drop offset).take n =
      ((rootStream self).drop (64 * k + offset)).take n := by
  have hblock := take_add offset (64 - offset) ((rootStream self).drop (64 * k))
  have hsize : offset + (64 - offset) = 64 := by omega
  rw [hsize, take_rootStream] at hblock
  rw [hblock, List.drop_left' (by simp), Stream'.drop_drop, Stream'.take_take,
    Nat.min_eq_right (by omega)]

theorem outputRootTail_eq (hP : P.Agrees) (k n : Nat) :
    outputRootTail P self (UInt64.ofNat k) n = ((rootStream self).drop (64 * k)).take n := by
  have hblocks : (if n / 64 ≠ 0 then
      P.xofMany self.inputCv self.block self.blockLen (UInt64.ofNat k) (self.flags ||| rootFlag)
        (n / 64) else []) = ((rootStream self).drop (64 * k)).take (64 * (n / 64)) := by
    rw [take_rootStream_blocks, hP.xofMany, xofManyPortable, xofEach]
    simp only [rootBlock, UInt64.ofNat_add]
    split
    · rfl
    · next hzero =>
        rw [not_not.1 hzero]
        rfl
  have hlast : (rootBlock self (k + n / 64)).toList.take (n % 64) =
      (((rootStream self).drop (64 * k)).drop (64 * (n / 64))).take (n % 64) := by
    rw [Stream'.drop_drop, ← Nat.mul_add, ← take_rootStream, Stream'.take_take,
      Nat.min_eq_right (by omega)]
  have hsplit : ((rootStream self).drop (64 * k)).take n =
      ((rootStream self).drop (64 * k)).take (64 * (n / 64)) ++
        (rootBlock self (k + n / 64)).toList.take (n % 64) := by
    rw [hlast, ← take_add, Nat.div_add_mod]
  rw [outputRootTail, hsplit]
  simp only [hblocks, hP.compressXof, rootBlock, UInt64.ofNat_add]
  split
  · rfl
  · next hwhole =>
      rw [not_not.1 hwhole, List.take_zero, List.append_nil]

/-- What is written before the first boundary of a block. -/
theorem outputRootHead_eq (hP : P.Agrees) {seek : UInt64} (n : Nat)
    (hoffset : seek.toNat % 64 ≠ 0) :
    outputRootHead P self seek n =
      (((rootStream self).drop seek.toNat).take (min (64 - seek.toNat % 64) n),
        n - min (64 - seek.toNat % 64) n, UInt64.ofNat (seek.toNat / 64 + 1)) := by
  have hmod : (seek % 64).toNat = seek.toNat % 64 := UInt64.toNat_mod _ _
  have hnext : UInt64.ofNat (seek.toNat / 64) + 1 = UInt64.ofNat (seek.toNat / 64 + 1) := by
    rw [UInt64.ofNat_add]
    rfl
  have htake : (if n > 64 - seek.toNat % 64 then 64 - seek.toNat % 64 else n) =
      min (64 - seek.toNat % 64) n := by
    split <;> omega
  have hpiece := take_drop_rootBlock self (seek.toNat / 64)
    (show seek.toNat % 64 + min (64 - seek.toNat % 64) n ≤ 64 by omega)
  rw [Nat.div_add_mod] at hpiece
  rw [outputRootHead]
  simp only [hmod, if_pos hoffset, blockCounter_eq, hnext, htake, compressXof_eq hP, hpiece]

/-- Asking for `n` bytes at `seek` gives the `n` bytes of the stream that are there. -/
theorem outputRootBytes_eq (hP : P.Agrees) (seek : UInt64) (n : Nat) :
    outputRootBytes P self seek n = ((rootStream self).drop seek.toNat).take n := by
  rw [outputRootBytes]
  split
  · next hzero => rw [hzero, Stream'.take_zero]
  · by_cases hoffset : seek.toNat % 64 = 0
    · have hmod : (seek % 64).toNat = 0 := (UInt64.toNat_mod _ _).trans hoffset
      have haligned : 64 * (seek.toNat / 64) = seek.toNat := by omega
      rw [outputRootHead]
      simp only [hmod, ne_eq, not_true_eq_false, if_false, List.nil_append, blockCounter_eq]
      rw [outputRootTail_eq hP, haligned]
    · rw [outputRootHead_eq hP n hoffset]
      simp only
      rw [outputRootTail_eq hP]
      generalize hm : min (64 - seek.toNat % 64) n = m
      have hsplit := take_add m (n - m) ((rootStream self).drop seek.toNat)
      rw [Nat.add_sub_cancel' (by omega), Stream'.drop_drop] at hsplit
      rw [hsplit]
      by_cases hrest : n - m = 0
      · rw [hrest, Stream'.take_zero, Stream'.take_zero]
      · have hend : seek.toNat + m = 64 * (seek.toNat / 64 + 1) := by omega
        rw [hend]

end Stream

end Blake3
end FileExchange
