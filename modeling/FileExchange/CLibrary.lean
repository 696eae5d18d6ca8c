import Mathlib.Algebra.Order.Ring.Int
import Mathlib.Data.List.Infix
import Mathlib.Data.List.TakeWhile
import FileExchange.Lib.Decimal

/-!
# CLibrary — the C library calls and conversions the sources rely on

Byte strings stand for C strings: the bytes before the terminating NUL.  The module covers

* string functions : `strstr`, `strchr`, `strrchr`, `strncpy`, `snprintf`;
* conversions      : `toInt` (to a 32-bit `int`), `toSizeT` (to `size_t`), `toInt64`;
* `malloc`         : whether a request is granted;
* `strtol`, `atoi` : value, end pointer and whether `errno` becomes `ERANGE`.
-/

namespace FileExchange

open Lib

/-! ## Strings -/

abbrev Bytes := List UInt8

/-- The bytes of a C string, without the terminating NUL. -/
abbrev CString := List UInt8

/-- A string literal of the source. -/
def ascii (s : String) : CString :=
  s.toList.map fun c => c.toNat.toUInt8

/-- `strstr(s, needle) != NULL`. -/
def strstr (s needle : CString) : Bool :=
  decide (needle <:+: s)

/-- `strchr(s, c) != NULL`, for `c` other than NUL. -/
def strchr (s : CString) (c : UInt8) : Bool :=
  decide (c ∈ s)

/-- The part of `s` from the last `c` on. -/
def strrchr : CString → UInt8 → Option CString
  | [], _ => none
  | b :: s, c =>
      match strrchr s c with
      | some t => some t
      | none => if b = c then some (b :: s) else none

theorem strrchr_eq_none {s : CString} {c : UInt8} (h : c ∉ s) : strrchr s c = none := by
  induction s with
  | nil =>
      rfl
  | cons b s ih =>
      have hb : ¬ b = c := fun hb => h (by simp [hb])
      have hs : strrchr s c = none := ih fun hs => h (List.mem_cons_of_mem _ hs)
      simp [strrchr, hs, hb]

theorem strrchr_append_cons {t : CString} {c : UInt8} (h : c ∉ t) (s : CString) :
    strrchr (s ++ c :: t) c = some (c :: t) := by
  induction s with
  | nil =>
      simp [strrchr, strrchr_eq_none h]
  | cons b s ih =>
      simp [strrchr, ih]

/-- The `n` bytes that `strncpy(dst, s, n)` writes. -/
def strncpy (s : CString) (n : Nat) : Bytes :=
  s.take n ++ List.replicate (n - s.length) 0

theorem length_strncpy (s : CString) (n : Nat) : (strncpy s n).length = n := by
  rw [strncpy, List.length_append, List.length_take, List.length_replicate]
  omega

/-- With a NUL behind them they are the first `n` bytes of `s` as a string. -/
theorem takeWhile_strncpy {s : CString} (hs : 0 ∉ s) (n : Nat) (rest : Bytes) :
    (strncpy s n ++ 0 :: rest).takeWhile (· ≠ 0) = s.take n := by
  have hall : ∀ b ∈ s.take n, decide (b ≠ 0) = true := fun b hb =>
    decide_eq_true fun hzero => hs (hzero ▸ List.mem_of_mem_take hb)
  -- the padding, if there is any, begins with a NUL as well
  rw [strncpy, List.append_assoc, List.takeWhile_append_of_pos hall]
  cases n - s.length with
  | zero =>
      simp
  | succ k =>
      simp [List.replicate_succ]

/-- What `snprintf` leaves in a buffer of `size` bytes. -/
def snprintf (size : Nat) (s : CString) : CString :=
  s.take (size - 1)

theorem snprintf_of_length_lt {size : Nat} {s : CString} (h : s.length < size) :
    snprintf size s = s :=
  List.take_of_length_le (by omega)

def pathMax : Nat := 4096

/-- `NAME_MAX`. -/
def nameMax : Nat := 255

/-! ## Integer conversions -/

/-- Conversion of an integer to `int`. -/
def toInt (n : Int) : Int :=
  n.bmod (2 ^ 32)

/-- Conversion of an integer to `size_t`. -/
def toSizeT (n : Int) : Nat :=
  (n % 2 ^ 64).toNat

/-- Conversion of an integer to `int64_t`. -/
def toInt64 (n : Int) : Int :=
  n.bmod (2 ^ 64)

/-- `"%" PRId64`. -/
def formatInt64 (n : Int) : CString :=
  if n < 0 then 45 :: Decimal.toBytes n.natAbs else Decimal.toBytes n.natAbs

theorem formatInt64_natCast (n : Nat) : formatInt64 n = Decimal.toBytes n := by
  have h : ¬ ((n : Int) < 0) := by omega
  simp [formatInt64, h]

theorem toInt_of_lt {n : Int} (h0 : 0 ≤ n) (h : n < 2 ^ 31) : toInt n = n :=
  Int.bmod_eq_of_le (by omega) (by omega)

theorem toInt_le {n : Int} (h0 : 0 ≤ n) : toInt n ≤ n := by
  by_cases h : n < 2 ^ 31
  · exact (toInt_of_lt h0 h).le
  -- the conversion wraps, but its result is always below 2^31
  · have hlt : toInt n < (2 ^ 32 + 1) / 2 := Int.bmod_lt (by decide)
    omega

theorem toInt_lt (n : Int) : toInt n < 2 ^ 31 := by
  have hlt : toInt n < (2 ^ 32 + 1) / 2 := Int.bmod_lt (by decide)
  omega

theorem toSizeT_of_lt {n : Int} (h0 : 0 ≤ n) (h : n < 2 ^ 63) : toSizeT n = n.toNat := by
  unfold toSizeT
  rw [Int.emod_eq_of_lt h0 (by omega)]

theorem toInt64_of_lt {n : Int} (h0 : 0 ≤ n) (h : n < 2 ^ 63) : toInt64 n = n :=
  Int.bmod_eq_of_le (by omega) (by omega)

/-! ## Memory -/

def ptrdiffMax : Nat := 2 ^ 63 - 1

/-- Whether `malloc(size)` returns a block: never above `PTRDIFF_MAX`, else as the system grants. -/
def malloc (granted : Bool) (size : Nat) : Bool :=
  granted && decide (size ≤ ptrdiffMax)

/-! ## `strtol` -/

def longMax : Int := 2 ^ 63 - 1

def longMin : Int := -2 ^ 63

/-- `isspace` in the C locale. -/
def isSpace (b : UInt8) : Bool :=
  b = 32 || (9 ≤ b && b ≤ 13)

/-- What `strtol(s, &endptr, 10)` returns, where `endptr` stands, and whether it set `ERANGE`. -/
structure Strtol where
  value : Int
  endptr : CString
  erange : Bool
  deriving DecidableEq, Repr

/-- The optional sign: whether it is a minus, and what follows. -/
def strtolSign : CString → Bool × CString
  | [] => (false, [])
  | b :: s => if b = 45 then (true, s) else if b = 43 then (false, s) else (false, b :: s)

def strtol (s : CString) : Strtol :=
  let signed := strtolSign (s.dropWhile isSpace)
  let digits := signed.2.takeWhile Decimal.isDigit
  let rest := signed.2.dropWhile Decimal.isDigit
  let n : Int := if signed.1 then -(Decimal.ofBytes digits) else Decimal.ofBytes digits
  -- without a digit the end pointer stays at the start of the string
  if digits = [] then { value := 0, endptr := s, erange := false }
  -- out of range: the value saturates, and only here is `errno` set
  else if longMax < n then { value := longMax, endptr := rest, erange := true }
  else if n < longMin then { value := longMin, endptr := rest, erange := true }
  else { value := n, endptr := rest, erange := false }

def atoi (s : CString) : Int :=
  toInt (strtol s).value

theorem not_isSpace_of_isDigit {b : UInt8} (hb : Decimal.isDigit b = true) : isSpace b = false := by
  simp only [Decimal.isDigit, Bool.and_eq_true, decide_eq_true_eq, UInt8.le_iff_toNat_le] at hb
  have h48 : (48 : UInt8).toNat = 48 := rfl
  have h32 : b ≠ 32 := by
    rintro rfl
    exact absurd hb.1 (by decide)
  have h13 : ¬ b ≤ 13 := by
    rw [UInt8.le_iff_toNat_le]
    have : (13 : UInt8).toNat = 13 := rfl
    omega
  simp [isSpace, h32, h13]

theorem strtolSign_of_isDigit {b : UInt8} {s : CString} (hb : Decimal.isDigit b = true) :
    strtolSign (b :: s) = (false, b :: s) := by
  have h45 : b ≠ 45 := by
    rintro rfl
    exact absurd hb (by decide)
  have h43 : b ≠ 43 := by
    rintro rfl
    exact absurd hb (by decide)
  simp [strtolSign, h45, h43]

/-- `strtol` reads the numeral of a `long` completely and without an error. -/
theorem strtol_toBytes {n : Nat} (h : (n : Int) ≤ longMax) :
    strtol (Decimal.toBytes n) = { value := n, endptr := [], erange := false } := by
  have hall : ∀ b ∈ Decimal.toBytes n, Decimal.isDigit b = true := fun b hb =>
    Decimal.isDigit_of_mem_toBytes hb
  have htake : (Decimal.toBytes n).takeWhile Decimal.isDigit = Decimal.toBytes n :=
    List.takeWhile_eq_self_iff.2 hall
  have hdrop : (Decimal.toBytes n).dropWhile Decimal.isDigit = [] :=
    List.dropWhile_eq_nil_iff.2 hall
  -- no white space and no sign stand before a numeral, so all of it is digits
  have hsign : strtolSign ((Decimal.toBytes n).dropWhile isSpace) = (false, Decimal.toBytes n) := by
    cases hd : Decimal.toBytes n with
    | nil => exact absurd hd (Decimal.toBytes_ne_nil n)
    | cons b s =>
        have hb : Decimal.isDigit b = true := hall b (by simp [hd])
        rw [List.dropWhile_cons_of_neg (by simp [not_isSpace_of_isDigit hb])]
        exact strtolSign_of_isDigit hb
  have hmin : ¬ ((n : Int) < longMin) := by
    unfold longMin
    omega
  simp [strtol, hsign, htake, hdrop, not_lt.2 h, hmin]

example : strtol (ascii " -42abc") = { value := -42, endptr := ascii "abc", erange := false } := by
  decide

end FileExchange
