import FileExchange.CLibrary

/-!
# Obfuscator.Text — configuration, random names and searches of the obfuscator

* `Config`               : `config_t`;
* `Draws`                : the results of `rand()`;
* `secureRandomName`     : `generate_secure_random_name`;
* `Pools`                : the names that `init_advanced_obfuscator` draws;
* `findSub`, `closeParen`, `literalEnd` : how far a construct reaches in a text.
-/

namespace FileExchange
namespace Obfuscator

open Lib

/-! ## Configuration -/

/-- `obfuscation_level_t`. -/
inductive Level where
  | normal
  | medium
  | extreme
  | quantum
  deriving DecidableEq

def Level.toNat : Level → Nat
  | normal => 1
  | medium => 2
  | extreme => 3
  | quantum => 4

/-- The fields of `config_t` that the passes read. -/
structure Config where
  level : Level
  enableStringObfuscation : Bool
  enableControlFlow : Bool
  enableArithmeticObfuscation : Bool
  enableJunkCode : Bool
  enablePolymorphic : Bool
  enableMetamorphic : Bool
  deriving DecidableEq

/-- Every switch on. -/
def everything (level : Level) : Config :=
  { level := level, enableStringObfuscation := true, enableControlFlow := true
    enableArithmeticObfuscation := true, enableJunkCode := true, enablePolymorphic := true
    enableMetamorphic := true }

/-- Every switch off. -/
def nothing (level : Level) : Config :=
  { level := level, enableStringObfuscation := false, enableControlFlow := false
    enableArithmeticObfuscation := false, enableJunkCode := false, enablePolymorphic := false
    enableMetamorphic := false }

/-! ## Random draws and names -/

/-- The results of `rand()`, one after another.  C leaves open in which order the arguments of a
call are computed: where `n` of them draw after the first `used` draws, the `i`-th of these gets the
draw `order used n i` of the `n`. -/
structure Draws where
  result : Nat → Nat
  order : Nat → Nat → Nat → Nat
  order_lt : ∀ {used n i : Nat}, i < n → order used n i < n
  order_inj : ∀ {used n i j : Nat}, i < n → j < n → order used n i = order used n j → i = j

instance : CoeFun Draws fun _ => Nat → Nat :=
  ⟨Draws.result⟩

namespace Draws

/-- The draw of the `i`-th argument among `n` that draw. -/
def argument (rand : Draws) (used n i : Nat) : Nat :=
  rand (used + rand.order used n i)

/-- The last argument draws first. -/
def rightToLeft (result : Nat → Nat) : Draws where
  result := result
  order _ n i := n - 1 - i
  order_lt := by omega
  order_inj := by omega

end Draws

def nameChars : CString :=
  ascii "abcdefghijklmnopqrstuvwxyzABCDEFGHIJKLMNOPQRSTUVWXYZ0123456789_"

def confusingChars : CString :=
  ascii "O0Il1"

/-- `s[i % strlen(s)]`. -/
def charAt (s : CString) (i : Nat) : UInt8 :=
  s.getD (i % s.length) 0

/-- `generate_secure_random_name(buffer, length)`: `length - 1` characters. -/
def secureRandomName (rand : Nat → Nat) (length : Nat) : CString :=
  charAt (nameChars.take 52) (rand 0) ::
    (List.range (length - 2)).map fun i =>
      if rand (2 * i + 1) % 10 = 0 ∧ length > 5 then charAt confusingChars (rand (2 * i + 2))
      else charAt nameChars (rand (2 * i + 2))

theorem charAt_mem {s : CString} (hs : 0 < s.length) (i : Nat) : charAt s i ∈ s := by
  rw [charAt, List.getD_eq_getElem?_getD, List.getElem?_eq_getElem (Nat.mod_lt i hs),
    Option.getD_some]
  exact List.getElem_mem _

/-- A random name is made of letters, digits and underscores. -/
theorem mem_nameChars_of_mem_secureRandomName {rand : Nat → Nat} {length : Nat} {c : UInt8}
    (h : c ∈ secureRandomName rand length) : c ∈ nameChars := by
  rcases List.mem_cons.1 h with rfl | h
  · exact List.mem_of_mem_take (charAt_mem (by decide) _)
  · rcases List.mem_map.1 h with ⟨i, _, rfl⟩
    have hconfusing : ∀ c ∈ confusingChars, c ∈ nameChars := by decide +kernel
    split
    · exact hconfusing _ (charAt_mem (by decide) _)
    · exact charAt_mem (by decide) _

/-- `variable_names` and `string_pool`, which `init_advanced_obfuscator` fills. -/
structure Pools where
  variableNames : Nat → CString
  stringPool : Nat → CString
  variableNames_eq : ∀ i, ∃ rand : Nat → Nat, ∃ r : Nat,
    variableNames i = secureRandomName rand (24 + r % 16)
  stringPool_eq : ∀ i, ∃ rand : Nat → Nat, ∃ r : Nat,
    stringPool i = secureRandomName rand (30 + r % 20)

/-- The names that are drawn when every draw gives 0. -/
def zeroPools : Pools where
  variableNames _ := secureRandomName (fun _ => 0) 24
  stringPool _ := secureRandomName (fun _ => 0) 30
  variableNames_eq _ := ⟨fun _ => 0, 0, rfl⟩
  stringPool_eq _ := ⟨fun _ => 0, 0, rfl⟩

def variableCount : Nat := 2000

def stringPoolCount : Nat := 500

/-- What a pass has drawn and counted so far. -/
structure PassState where
  used : Nat
  counter : Nat
  deriving DecidableEq

/-- After `n` more draws. -/
def PassState.draw (s : PassState) (n : Nat) : PassState :=
  { s with used := s.used + n }

/-- After a draw or without one, count a construct. -/
def PassState.count (s : PassState) : PassState :=
  { s with counter := s.counter + 1 }

/-! ## How far a construct reaches -/

/-- The place of the first occurrence that `strstr` finds. -/
def findSub (needle : CString) : CString → Option Nat
  | [] => if needle = [] then some 0 else none
  | b :: s => if needle <+: b :: s then some 0 else (findSub needle s).map (· + 1)

/-- How many characters there are up to the parenthesis that closes `depth` open ones. -/
def closeParen : Nat → CString → Option Nat
  | 0, _ => some 0
  | _ + 1, [] => none
  | depth + 1, b :: s =>
      (closeParen (if b = 40 then depth + 2 else if b = 41 then depth else depth + 1) s).map (· + 1)

/-- The place of the quote that closes a string literal, where `before` is the character in
front. -/
def literalEnd : UInt8 → CString → Option Nat
  | _, [] => none
  | before, b :: s => if b = 34 ∧ before ≠ 92 then some 0 else (literalEnd b s).map (· + 1)

/-- `strstr` finds the needle where it says. -/
theorem prefix_of_findSub {needle s : CString} {n : Nat} (h : findSub needle s = some n) :
    needle <+: s.drop n := by
  induction s generalizing n with
  | nil =>
      rw [findSub] at h
      split at h
      · next hnil =>
          cases h
          rw [hnil]
          exact List.nil_prefix
      · cases h
  | cons b s ih =>
      rw [findSub] at h
      split at h
      · next hpre =>
          cases h
          exact hpre
      · rcases Option.map_eq_some_iff.1 h with ⟨m, hm, rfl⟩
        exact ih hm

/-- It finds what is there. -/
theorem findSub_isSome_iff {needle s : CString} :
    (findSub needle s).isSome = true ↔ needle <:+: s := by
  induction s with
  | nil =>
      by_cases hnil : needle = []
      · simp [findSub, hnil]
      · simp [findSub, hnil]
  | cons b s ih =>
      rw [findSub, List.infix_cons_iff]
      split
      · next hpre => simp [hpre]
      · next hpre => simp [hpre, ih]

/-- What stands behind an `if (`. -/
theorem cons_eq_if_append {c : UInt8} {t : CString} (h : ascii "if (" <+: c :: t) :
    c :: t = ascii "if (" ++ t.drop 3 := by
  rcases h with ⟨rest, hrest⟩
  cases hrest
  rfl

@[simp] theorem closeParen_zero (s : CString) : closeParen 0 s = some 0 := by
  cases s <;> rfl

theorem closeParen_le {depth n : Nat} {s : CString} (h : closeParen depth s = some n) :
    n ≤ s.length := by
  induction s generalizing depth n with
  | nil =>
      cases depth with
      | zero =>
          cases h
          exact le_rfl
      | succ depth =>
          cases h
  | cons b s ih =>
      cases depth with
      | zero =>
          cases h
          exact Nat.zero_le _
      | succ depth =>
          rcases Option.map_eq_some_iff.1 h with ⟨m, hm, rfl⟩
          exact Nat.succ_le_succ (ih hm)

/-- The last of them is the closing parenthesis. -/
theorem closeParen_last {depth n : Nat} {s : CString} (h : closeParen (depth + 1) s = some n) :
    ∃ m, n = m + 1 ∧ s[m]? = some 41 := by
  induction s generalizing depth n with
  | nil =>
      cases h
  | cons b s ih =>
      rcases Option.map_eq_some_iff.1 h with ⟨n, hn, rfl⟩
      have hdeeper : ∀ d, closeParen (d + 1) s = some n →
          ∃ m, n + 1 = m + 1 ∧ (b :: s)[m]? = some 41 := by
        intro d hd
        rcases ih hd with ⟨m, rfl, hs⟩
        exact ⟨m + 1, rfl, by simpa using hs⟩
      split at hn
      · exact hdeeper _ hn
      · split at hn
        · next _ hb =>
            cases depth with
            | zero =>
                rw [closeParen_zero] at hn
                cases hn
                exact ⟨0, rfl, by simp [hb]⟩
            | succ depth => exact hdeeper _ hn
        · exact hdeeper _ hn

/-- What is closed is the condition, followed by the parenthesis. -/
theorem take_closeParen {n : Nat} {s : CString} (h : closeParen 1 s = some n) :
    s.take n = s.take (n - 1) ++ [41] := by
  rcases closeParen_last h with ⟨m, rfl, hlast⟩
  rw [List.take_add_one, hlast, Nat.add_sub_cancel]
  rfl

theorem literalEnd_split {before : UInt8} {n : Nat} {s : CString}
    (h : literalEnd before s = some n) : s = s.take n ++ 34 :: s.drop (n + 1) := by
  induction s generalizing before n with
  | nil =>
      cases h
  | cons b s ih =>
      rw [literalEnd] at h
      split at h
      · next hb =>
          cases h
          simp [hb.1]
      · rcases Option.map_eq_some_iff.1 h with ⟨m, hm, rfl⟩
        exact congrArg (b :: ·) (ih hm)

theorem literalEnd_lt {before : UInt8} {n : Nat} {s : CString}
    (h : literalEnd before s = some n) : n < s.length := by
  have hlength := congrArg List.length (literalEnd_split h)
  rw [List.length_append, List.length_cons, List.length_take, List.length_drop] at hlength
  omega

end Obfuscator
end FileExchange
