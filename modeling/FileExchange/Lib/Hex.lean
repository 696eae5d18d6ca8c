import Mathlib.Data.List.Basic

/-!
# Lib.Hex — lower-case hexadecimal strings

`Hex.encode` writes two digits for each byte and `Hex.decode` reads them back.  Each undoes the
other, so the hexadecimal strings of `n` bytes are exactly the strings of `2 * n` lower-case
digits (`exists_encode_eq_iff`), and each of them stands for one list of bytes.
-/

namespace FileExchange
namespace Lib
namespace Hex

/-! ## Digits -/

/-- ASCII `0` to `9` and `a` to `f`. -/
def digit (n : Nat) : UInt8 :=
  if n < 10 then (48 + n).toUInt8 else (87 + n).toUInt8

def isDigit (b : UInt8) : Bool :=
  (48 ≤ b && b ≤ 57) || (97 ≤ b && b ≤ 102)

/-- The value of a digit. -/
def ofDigit (b : UInt8) : Nat :=
  if b.toNat ≤ 57 then b.toNat - 48 else b.toNat - 87

theorem ofDigit_digit {n : Nat} (h : n < 16) : ofDigit (digit n) = n := by
  revert n
  decide

theorem isDigit_digit {n : Nat} (h : n < 16) : isDigit (digit n) = true := by
  revert n
  decide

theorem isDigit_iff {b : UInt8} :
    isDigit b = true ↔ (48 ≤ b.toNat ∧ b.toNat ≤ 57) ∨ (97 ≤ b.toNat ∧ b.toNat ≤ 102) := by
  simp only [isDigit, Bool.or_eq_true, Bool.and_eq_true, decide_eq_true_eq, UInt8.le_iff_toNat_le]
  exact Iff.rfl

theorem ofDigit_lt {b : UInt8} (h : isDigit b = true) : ofDigit b < 16 := by
  rw [isDigit_iff] at h
  unfold ofDigit
  split
  · omega
  · omega

theorem digit_ofDigit {b : UInt8} (h : isDigit b = true) : digit (ofDigit b) = b := by
  rw [isDigit_iff] at h
  unfold digit ofDigit
  refine UInt8.toNat_inj.1 ?_
  rcases h with h | h
  · have hle : b.toNat ≤ 57 := h.2
    have hlt : b.toNat - 48 < 10 := by omega
    rw [if_pos hle, if_pos hlt]
    simp only [Nat.toUInt8, UInt8.toNat_ofNat']
    omega
  · have hle : ¬ b.toNat ≤ 57 := by omega
    have hlt : ¬ b.toNat - 87 < 10 := by omega
    rw [if_neg hle, if_neg hlt]
    simp only [Nat.toUInt8, UInt8.toNat_ofNat']
    omega

/-! ## Bytes -/

/-- The two digits of a byte, the higher one first. -/
def encodeByte (b : UInt8) : List UInt8 :=
  [digit (b.toNat / 16), digit (b.toNat % 16)]

def encode (bs : List UInt8) : List UInt8 :=
  bs.flatMap encodeByte

/-- The bytes of a string of digits. -/
def decode : List UInt8 → List UInt8
  | high :: low :: s => (16 * ofDigit high + ofDigit low).toUInt8 :: decode s
  | _ => []

@[simp] theorem encode_nil : encode [] = [] := rfl

@[simp] theorem encode_cons (b : UInt8) (bs : List UInt8) :
    encode (b :: bs) = digit (b.toNat / 16) :: digit (b.toNat % 16) :: encode bs := rfl

theorem length_encode (bs : List UInt8) : (encode bs).length = 2 * bs.length := by
  induction bs with
  | nil =>
      rfl
  | cons b bs ih =>
      rw [encode_cons, List.length_cons, List.length_cons, ih, List.length_cons]
      omega

theorem isDigit_of_mem_encode {bs : List UInt8} : ∀ c ∈ encode bs, isDigit c = true := by
  intro c hc
  rcases List.mem_flatMap.1 hc with ⟨b, _, hb⟩
  have hlt := b.toNat_lt
  simp only [encodeByte, List.mem_cons, List.not_mem_nil, or_false] at hb
  rcases hb with rfl | rfl
  · exact isDigit_digit (by omega)
  · exact isDigit_digit (Nat.mod_lt _ (by decide))

@[simp] theorem decode_encode (bs : List UInt8) : decode (encode bs) = bs := by
  induction bs with
  | nil =>
      rfl
  | cons b bs ih =>
      have hlt := b.toNat_lt
      rw [encode_cons, decode, ih, ofDigit_digit (by omega), ofDigit_digit (by omega),
        Nat.div_add_mod]
      exact congrArg (· :: bs) (UInt8.ofNat_toNat)

theorem encode_injective : Function.Injective encode := by
  intro bs bs' h
  simpa using congrArg decode h

/-- Every string of `2 * n` digits is the string of some `n` bytes. -/
theorem encode_decode : ∀ {n : Nat} {s : List UInt8}, s.length = 2 * n →
    (∀ c ∈ s, isDigit c = true) → encode (decode s) = s ∧ (decode s).length = n
  | 0, s, hlen, _ => by
      have hnil : s = [] := List.length_eq_zero_iff.1 hlen
      subst hnil
      exact ⟨rfl, rfl⟩
  | n + 1, [], hlen, _ => by
      simp at hlen
  | n + 1, [c], hlen, _ => by
      simp at hlen
      omega
  | n + 1, high :: low :: s, hlen, hall => by
      have hhigh : isDigit high = true := hall high (by simp)
      have hlow : isDigit low = true := hall low (by simp)
      have hhigh16 := ofDigit_lt hhigh
      have hlow16 := ofDigit_lt hlow
      have hs : s.length = 2 * n := by
        simp only [List.length_cons] at hlen
        omega
      rcases encode_decode hs (fun c hc => hall c (by simp [hc])) with ⟨hrest, hlength⟩
      -- the byte has these two digits
      have hbyte : (16 * ofDigit high + ofDigit low).toUInt8.toNat =
          16 * ofDigit high + ofDigit low := by
        simp only [Nat.toUInt8, UInt8.toNat_ofNat']
        omega
      refine ⟨?_, by rw [decode, List.length_cons, hlength]⟩
      rw [decode, encode_cons, hbyte, hrest, show (16 * ofDigit high + ofDigit low) / 16 =
          ofDigit high by omega, show (16 * ofDigit high + ofDigit low) % 16 = ofDigit low by omega,
        digit_ofDigit hhigh, digit_ofDigit hlow]

/-- The strings that `n` bytes can have. -/
theorem exists_encode_eq_iff {n : Nat} {s : List UInt8} :
    (∃ bs, bs.length = n ∧ encode bs = s) ↔
      s.length = 2 * n ∧ ∀ c ∈ s, isDigit c = true := by
  constructor
  · rintro ⟨bs, rfl, rfl⟩
    exact ⟨length_encode bs, isDigit_of_mem_encode⟩
  · rintro ⟨hlen, hall⟩
    rcases encode_decode hlen hall with ⟨heq, hlength⟩
    exact ⟨decode s, hlength, heq⟩

end Hex
end Lib
end FileExchange
