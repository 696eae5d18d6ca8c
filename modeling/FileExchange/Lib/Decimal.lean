import Mathlib.Algebra.Group.Nat.Defs
import Mathlib.Data.List.Basic

/-!
# Lib.Decimal — decimal numerals as byte strings

`Decimal.toBytes n` is the numeral of `n` in ASCII, without sign or leading zeros, and
`Decimal.ofBytes` reads a string of digits back.  Reading back what was written gives the
number (`ofBytes_toBytes`), so different numbers have different numerals.
-/

namespace FileExchange
namespace Lib
namespace Decimal

/-- The ASCII numeral of `n`. -/
def toBytes (n : Nat) : List UInt8 :=
  (Nat.toDigits 10 n).map fun c => c.toNat.toUInt8

/-- ASCII `0` to `9`. -/
def isDigit (b : UInt8) : Bool :=
  48 ≤ b && b ≤ 57

/-- The value of a string of ASCII digits. -/
def ofBytes (bs : List UInt8) : Nat :=
  bs.foldl (fun acc b => 10 * acc + (b.toNat - 48)) 0

/-! ## Digits as characters and as bytes -/

theorem toNat_le_of_isDigit {c : Char} (hc : c.isDigit = true) : 48 ≤ c.toNat ∧ c.toNat ≤ 57 := by
  simp only [Char.isDigit, Bool.and_eq_true, decide_eq_true_eq] at hc
  exact ⟨UInt32.le_iff_toNat_le.1 hc.1, UInt32.le_iff_toNat_le.1 hc.2⟩

theorem toNat_toUInt8_of_isDigit {c : Char} (hc : c.isDigit = true) :
    c.toNat.toUInt8.toNat = c.toNat := by
  have h := toNat_le_of_isDigit hc
  simp only [Nat.toUInt8, UInt8.toNat_ofNat']
  omega

theorem isDigit_toUInt8 {c : Char} (hc : c.isDigit = true) : isDigit c.toNat.toUInt8 = true := by
  have h := toNat_le_of_isDigit hc
  have hb := toNat_toUInt8_of_isDigit hc
  simp only [isDigit, Bool.and_eq_true, decide_eq_true_eq, UInt8.le_iff_toNat_le, hb]
  exact h

theorem isDigit_of_mem_toDigits {n : Nat} {c : Char} (hc : c ∈ Nat.toDigits 10 n) :
    c.isDigit = true :=
  Nat.isDigit_of_mem_toDigits (by decide) (by decide) hc

/-! ## Numerals -/

theorem isDigit_of_mem_toBytes {n : Nat} {b : UInt8} (hb : b ∈ toBytes n) : isDigit b = true := by
  rcases List.mem_map.1 hb with ⟨c, hc, rfl⟩
  exact isDigit_toUInt8 (isDigit_of_mem_toDigits hc)

@[simp] theorem toBytes_ne_nil (n : Nat) : toBytes n ≠ [] := by
  simp [toBytes]

theorem foldl_map_eq_ofDigitChars {cs : List Char} (hcs : ∀ c ∈ cs, c.isDigit = true)
    (acc : Nat) :
    (cs.map fun c => c.toNat.toUInt8).foldl (fun acc b => 10 * acc + (b.toNat - 48)) acc =
      Nat.ofDigitChars 10 cs acc := by
  induction cs generalizing acc with
  | nil =>
      simp
  | cons c cs ih =>
      have hc : c.toNat.toUInt8.toNat = c.toNat := toNat_toUInt8_of_isDigit (hcs c (by simp))
      have hrec := ih (fun d hd => hcs d (by simp [hd])) (10 * acc + (c.toNat - 48))
      rw [List.map_cons, List.foldl_cons, hc, hrec, Nat.ofDigitChars_cons]
      rfl

/-- Reading a numeral gives the number it was written for. -/
@[simp] theorem ofBytes_toBytes (n : Nat) : ofBytes (toBytes n) = n := by
  have hdigits : ∀ c ∈ Nat.toDigits 10 n, c.isDigit = true := fun c hc =>
    isDigit_of_mem_toDigits hc
  calc
    ofBytes (toBytes n) = Nat.ofDigitChars 10 (Nat.toDigits 10 n) 0 :=
      foldl_map_eq_ofDigitChars hdigits 0
    _ = n := Nat.ofDigitChars_ten_toDigits

theorem toBytes_injective : Function.Injective toBytes := by
  intro m n h
  simpa using congrArg ofBytes h

theorem length_toBytes_le {n k : Nat} (hk : 0 < k) (h : n < 10 ^ k) : (toBytes n).length ≤ k := by
  simpa [toBytes] using (Nat.length_toDigits_le_iff (by decide) hk).2 h

end Decimal
end Lib
end FileExchange
