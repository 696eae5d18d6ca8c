import FileExchange.Lib.FixedVector

/-!
# Lib.Simd — registers of 32-bit lanes

The x86 vector instructions on 128-bit registers, seen as four lanes of 32 bits, lane 0 first, and
on wider registers, which have several such parts.  A definition is named after its intrinsic.

* `half`, `byte` : the 16-bit and 8-bit parts of a lane;
* `M128`         : registers of four lanes, with the instructions that act lane by lane and the
  ones that move lanes;
* `Quads`        : lanes of 64 bits;
* `Wide`         : registers of several parts, and the instructions that move parts.

For rotations there is one lemma for each way to write them: with two shifts, by exchanging halves
and by moving bytes.
-/

namespace FileExchange
namespace Lib
namespace Simd

open FixedVector

/-! ## The parts of a lane -/

/-- Half `k` of a word, the lower one first. -/
def half (w : UInt32) (k : Nat) : UInt16 :=
  ⟨w.toBitVec.extractLsb' (16 * k) 16⟩

def ofHalves (low high : UInt16) : UInt32 :=
  ⟨high.toBitVec ++ low.toBitVec⟩

/-- Byte `k` of a word, the lowest one first. -/
def byte (w : UInt32) (k : Nat) : UInt8 :=
  ⟨w.toBitVec.extractLsb' (8 * k) 8⟩

def ofBytes (b₀ b₁ b₂ b₃ : UInt8) : UInt32 :=
  ⟨b₃.toBitVec ++ b₂.toBitVec ++ b₁.toBitVec ++ b₀.toBitVec⟩

section Rotations

variable (w : UInt32)

theorem ofHalves_half : ofHalves (half w 0) (half w 1) = w := by
  apply UInt32.toBitVec_inj.1
  ext i hi
  simp only [ofHalves, half]
  grind

/-- Exchanging the halves of a word rotates it by 16 bits. -/
theorem ofHalves_swap : ofHalves (half w 1) (half w 0) = w >>> 16 ||| w <<< 16 := by
  apply UInt32.toBitVec_inj.1
  ext i hi
  simp [ofHalves, half, BitVec.getElem_or]
  grind

/-- So does moving each byte by two places. -/
theorem ofBytes_rotate_two :
    ofBytes (byte w 2) (byte w 3) (byte w 0) (byte w 1) = w >>> 16 ||| w <<< 16 := by
  apply UInt32.toBitVec_inj.1
  ext i hi
  simp [ofBytes, byte, BitVec.getElem_or]
  grind

theorem ofBytes_rotate_one :
    ofBytes (byte w 1) (byte w 2) (byte w 3) (byte w 0) = w >>> 8 ||| w <<< 24 := by
  apply UInt32.toBitVec_inj.1
  ext i hi
  simp [ofBytes, byte, BitVec.getElem_or]
  grind

/-- The bits of the two shifts of a rotation do not meet. -/
theorem xor_shifts {c : UInt32} (hpos : 0 < c.toNat) (hlt : c.toNat < 32) :
    w >>> c ^^^ w <<< (32 - c) = w >>> c ||| w <<< (32 - c) := by
  have hleft : (32 - c).toNat = 32 - c.toNat := by
    rw [UInt32.toNat_sub_of_le _ _ (UInt32.le_iff_toNat_le.2 (by simpa using hlt.le))]
    rfl
  have hc : c.toNat % 32 = c.toNat := Nat.mod_eq_of_lt hlt
  have hc' : (32 - c.toNat) % 32 = 32 - c.toNat := Nat.mod_eq_of_lt (by omega)
  apply UInt32.toNat.inj
  simp only [UInt32.toNat_xor, UInt32.toNat_or, UInt32.toNat_shiftRight, UInt32.toNat_shiftLeft,
    hleft, hc, hc']
  refine Nat.eq_of_testBit_eq fun i => ?_
  simp only [Nat.testBit_xor, Nat.testBit_or, Nat.testBit_shiftRight, Nat.testBit_mod_two_pow,
    Nat.testBit_shiftLeft]
  by_cases hlow : i < 32 - c.toNat
  · simp [show ¬ 32 ≤ i + c.toNat by omega]
  · have hgone : w.toNat.testBit (c.toNat + i) = false :=
      Nat.testBit_lt_two_pow (w.toNat_lt.trans_le (Nat.pow_le_pow_right (by decide) (by omega)))
    simp [hgone]

end Rotations

/-! ## Comparing -/

/-- A lane in which a comparison holds has all its bits set. -/
def allOnes (c : Bool) : UInt32 :=
  if c then 0xFFFFFFFF else 0

/-- Such a lane as a mask. -/
theorem allOnes_select (c : Bool) (x y : UInt32) :
    (allOnes c &&& y) ||| (~~~allOnes c &&& x) = if c then y else x := by
  apply UInt32.toBitVec_inj.1
  cases c with
  | true =>
      have hall : 4294967295#32 &&& y.toBitVec = y.toBitVec := BitVec.allOnes_and
      simp [allOnes, hall]
  | false => simp [allOnes]

theorem xor_sign (n : Nat) (h : n < 4294967296) :
    n ^^^ 2147483648 = if n < 2147483648 then n + 2147483648 else n - 2147483648 := by
  have hmod : (n ^^^ 2147483648) % 2 ^ 31 = n % 2 ^ 31 := by
    rw [Nat.xor_mod_two_pow, show 2147483648 % 2 ^ 31 = 0 from rfl, Nat.xor_zero]
  have hdiv : (n ^^^ 2147483648) / 2 ^ 31 = n / 2 ^ 31 ^^^ 1 := Nat.xor_div_two_pow
  have hbit : n / 2 ^ 31 = 0 ∨ n / 2 ^ 31 = 1 := by omega
  rcases hbit with hbit | hbit <;> rw [hbit] at hdiv <;> simp at hdiv <;> split <;> omega

/-- With the sign bits exchanged, a signed comparison is an unsigned one. -/
theorem slt_xor_sign (a b : UInt32) :
    (b ^^^ 0x80000000).toBitVec.slt (a ^^^ 0x80000000).toBitVec = decide (b < a) := by
  have ha := a.toNat_lt
  have hb := b.toNat_lt
  rw [BitVec.slt_eq_ult, Bool.eq_iff_iff]
  simp only [BitVec.msb_eq_decide, BitVec.ult, UInt32.lt_iff_toNat_lt, UInt32.toNat_toBitVec,
    UInt32.toNat_xor, UInt32.reduceToNat, xor_sign _ ha, xor_sign _ hb]
  generalize a.toNat = m at *
  generalize b.toNat = n at *
  have hlow : ∀ k < 2 ^ 32, ¬ 2147483648 ≤ k - 2147483648 := fun k hk => by omega
  by_cases hm : m < 2147483648 <;> by_cases hn : n < 2147483648 <;>
    simp [hm, hn, hlow m ha, hlow n hb] <;> omega

/-- Whether the sign bit is set in one word and not in the other. -/
theorem andnot_shiftRight (a b : UInt32) :
    (~~~a &&& b) >>> 31 = if a.toNat < 2 ^ 31 ∧ 2 ^ 31 ≤ b.toNat then 1 else 0 := by
  have hlt := (~~~a &&& b).toNat_lt
  have hsign : (2 ^ 31 ≤ (~~~a &&& b).toNat) ↔ a.toNat < 2 ^ 31 ∧ 2 ^ 31 ≤ b.toNat := by
    have hmsb : (~~~a.toBitVec &&& b.toBitVec).msb = (!a.toBitVec.msb && b.toBitVec.msb) := by
      simp
    simpa [BitVec.msb_eq_decide] using congrArg (· = true) hmsb
  apply UInt32.toNat.inj
  rw [UInt32.toNat_shiftRight, Nat.shiftRight_eq_div_pow]
  simp only [← hsign]
  generalize (~~~a &&& b).toNat = n at *
  have hcount : (31 : UInt32).toNat % 32 = 31 := rfl
  rw [hcount]
  split
  · next h =>
      change _ = 1
      omega
  · next h =>
      change _ = 0
      omega

/-! ## 128-bit registers -/

/-- A `__m128i`. -/
abbrev M128 := Vector UInt32 4

namespace M128

/-- An instruction that acts on each lane alone. -/
def map (f : UInt32 → UInt32) (a : M128) : M128 :=
  #v[f (a.get 0), f (a.get 1), f (a.get 2), f (a.get 3)]

def zipWith (f : UInt32 → UInt32 → UInt32) (a b : M128) : M128 :=
  #v[f (a.get 0) (b.get 0), f (a.get 1) (b.get 1), f (a.get 2) (b.get 2), f (a.get 3) (b.get 3)]

@[simp] theorem get_map (f : UInt32 → UInt32) (a : M128) (i : Fin 4) :
    (map f a).get i = f (a.get i) := by
  fin_cases i <;> rfl

@[simp] theorem get_zipWith (f : UInt32 → UInt32 → UInt32) (a b : M128) (i : Fin 4) :
    (zipWith f a b).get i = f (a.get i) (b.get i) := by
  fin_cases i <;> rfl

def set1Epi32 (x : UInt32) : M128 := #v[x, x, x, x]

@[simp] theorem get_set1Epi32 (x : UInt32) (i : Fin 4) : (set1Epi32 x).get i = x := by
  fin_cases i <;> rfl

variable (a b : M128)

def addEpi32 : M128 := zipWith (· + ·) a b
def subEpi32 : M128 := zipWith (· - ·) a b
def xorSi128 : M128 := zipWith (· ^^^ ·) a b
def andSi128 : M128 := zipWith (· &&& ·) a b
def orSi128 : M128 := zipWith (· ||| ·) a b

/-- The first argument is complemented. -/
def andnotSi128 : M128 := zipWith (fun x y => ~~~x &&& y) a b

def srliEpi32 (count : UInt32) : M128 := map (· >>> count) a
def slliEpi32 (count : UInt32) : M128 := map (· <<< count) a

/-- A rotation to the right, by less than 32 bits. -/
def rorEpi32 (count : UInt32) : M128 := map (fun x => x >>> count ||| x <<< (32 - count)) a

def cmpgtEpi32 : M128 := zipWith (fun x y => allOnes (y.toBitVec.slt x.toBitVec)) a b

/-- The arguments come highest half first. -/
def setEpi16 (h₇ h₆ h₅ h₄ h₃ h₂ h₁ h₀ : UInt16) : M128 :=
  #v[ofHalves h₀ h₁, ofHalves h₂ h₃, ofHalves h₄ h₅, ofHalves h₆ h₇]

def set1Epi16 (h : UInt16) : M128 := setEpi16 h h h h h h h h

def cmpeqEpi16 : M128 :=
  zipWith (fun x y => ofHalves (if half x 0 = half y 0 then 0xFFFF else 0)
    (if half x 1 = half y 1 then 0xFFFF else 0)) a b

/-- `_MM_SHUFFLE`. -/
def mmShuffle (z y x w : UInt8) : UInt8 :=
  z <<< 6 ||| y <<< 4 ||| x <<< 2 ||| w

/-- The two bits of an immediate byte that select what goes to place `k`. -/
def select (imm : UInt8) (k : Nat) : Fin 4 :=
  ⟨imm.toNat / 4 ^ k % 4, Nat.mod_lt _ (by decide)⟩

def shuffleEpi32 (imm : UInt8) : M128 :=
  #v[a.get (select imm 0), a.get (select imm 1), a.get (select imm 2), a.get (select imm 3)]

def shufflePs (imm : UInt8) : M128 :=
  #v[a.get (select imm 0), a.get (select imm 1), b.get (select imm 2), b.get (select imm 3)]

/-- Half `k` of lanes 0 and 1, or of lanes 2 and 3. -/
def halfOf (x y : UInt32) (k : Fin 4) : UInt16 :=
  if k.val < 2 then half x k.val else half y (k.val - 2)

def shuffleloEpi16 (imm : UInt8) : M128 :=
  let pick := fun k => halfOf (a.get 0) (a.get 1) (select imm k)
  #v[ofHalves (pick 0) (pick 1), ofHalves (pick 2) (pick 3), a.get 2, a.get 3]

def shufflehiEpi16 (imm : UInt8) : M128 :=
  let pick := fun k => halfOf (a.get 2) (a.get 3) (select imm k)
  #v[a.get 0, a.get 1, ofHalves (pick 0) (pick 1), ofHalves (pick 2) (pick 3)]

/-- Bit `k` of the immediate selects half `k` of the second register. -/
def blendEpi16 (imm : UInt16) : M128 :=
  let lane := fun (i : Fin 4) => ofHalves
    (if imm.toNat.testBit (2 * i.val) then half (b.get i) 0 else half (a.get i) 0)
    (if imm.toNat.testBit (2 * i.val + 1) then half (b.get i) 1 else half (a.get i) 1)
  #v[lane 0, lane 1, lane 2, lane 3]

/-- The sixteen indices of `_mm_set_epi8`, the one for the highest byte first. -/
abbrev ByteIndices := Vector (Fin 16) 16

/-- `_mm_shuffle_epi8` for indices below 16. -/
def shuffleEpi8 (indices : ByteIndices) : M128 :=
  let pick := fun (k : Fin 16) =>
    let index := indices.get k.rev
    byte (a.get (Fin.divNat (m := 4) (n := 4) index)) (Fin.modNat (m := 4) (n := 4) index)
  #v[ofBytes (pick 0) (pick 1) (pick 2) (pick 3), ofBytes (pick 4) (pick 5) (pick 6) (pick 7),
    ofBytes (pick 8) (pick 9) (pick 10) (pick 11),
    ofBytes (pick 12) (pick 13) (pick 14) (pick 15)]

def unpackloEpi32 : M128 := #v[a.get 0, b.get 0, a.get 1, b.get 1]
def unpackhiEpi32 : M128 := #v[a.get 2, b.get 2, a.get 3, b.get 3]
def unpackloEpi64 : M128 := #v[a.get 0, a.get 1, b.get 0, b.get 1]
def unpackhiEpi64 : M128 := #v[a.get 2, a.get 3, b.get 2, b.get 3]

end M128

/-! ## Lanes of 64 bits -/

/-- A `__m256i` seen as four lanes of 64 bits. -/
abbrev Quads := Vector UInt64 4

namespace Quads

def map (f : UInt64 → UInt64) (a : Quads) : Quads :=
  #v[f (a.get 0), f (a.get 1), f (a.get 2), f (a.get 3)]

variable (a : Quads)

def srliEpi64 (count : UInt64) : Quads := map (· >>> count) a

/-- The lower halves of the lanes. -/
def cvtepi64Epi32 : M128 :=
  #v[(a.get 0).toUInt32, (a.get 1).toUInt32, (a.get 2).toUInt32, (a.get 3).toUInt32]

@[simp] theorem get_map (f : UInt64 → UInt64) (i : Fin 4) : (map f a).get i = f (a.get i) := by
  fin_cases i <;> rfl

@[simp] theorem get_cvtepi64Epi32 (i : Fin 4) :
    (cvtepi64Epi32 a).get i = (a.get i).toUInt32 := by
  fin_cases i <;> rfl

end Quads

/-! ## Wider registers -/

/-- A register of several parts of 128 bits, which most instructions treat alike. -/
abbrev Wide (k : Nat) := Vector M128 k

/-- A `__m256i`. -/
abbrev M256 := Wide 2

/-- A `__m512i`. -/
abbrev M512 := Wide 4

namespace Wide

variable {k : Nat}

/-- Lane `i`, counted through the parts. -/
def lane (a : Wide k) (i : Fin (k * 4)) : UInt32 :=
  (a.get i.divNat).get i.modNat

def set1Epi32 (x : UInt32) : Wide k := .replicate k (M128.set1Epi32 x)

/-- `_mm256_permute2x128_si256`, for an immediate that sets no part to zero. -/
def permute2x128 (a b : M256) (imm : UInt8) : M256 :=
  let part := fun k => #v[a.get 0, a.get 1, b.get 0, b.get 1].get (M128.select imm k)
  #v[part 0, part 2]

/-- `_mm512_shuffle_i32x4`. -/
def shuffleI32x4 (a b : M512) (imm : UInt8) : M512 :=
  #v[a.get (M128.select imm 0), a.get (M128.select imm 1), b.get (M128.select imm 2),
    b.get (M128.select imm 3)]

/-- `_mm512_castsi512_si256`. -/
def castsi512Si256 (a : M512) : M256 := #v[a.get 0, a.get 1]

end Wide

end Simd
end Lib
end FileExchange
