import FileExchange.CExpression
import FileExchange.Lib.Printf
import FileExchange.Obfuscator.Passes

/-!
# Obfuscator.Arithmetic — numbers as expressions

* `arithmeticFormat`, `arithmeticOperands` : the twelve expressions;
* `arithmeticMove`                         : a round of `arithmetic_obfuscation_advanced`.
-/

namespace FileExchange
namespace Obfuscator

open Lib Lib.Scanner Lib.Printf

/-! ## Expressions -/

def arithmeticFormat : Nat → CString
  | 0 => ascii "((%d << %d) + (%d >> %d) - (%d & %d))"
  | 1 => ascii "((%d ^ %d) | (%d & ~%d))"
  | 2 => ascii "((%d * %d + %d) / %d)"
  | 3 => ascii "((int)(sqrt(%d.0) * sqrt(%d.0)))"
  | 4 => ascii "((%d %% %d) == 0 ? %d : %d)"
  | 5 => ascii "((%d | %d) & ~%d)"
  | 6 => ascii "((%d + %d) - %d)"
  | 7 => ascii "((%d ^ %d) + (%d & %d))"
  | 8 => ascii "((%d << %d) | (%d >> %d))"
  | 9 => ascii "((%d * %d) / %d * %d / %d)"
  | 10 => ascii "((%d & %d) | (%d ^ ~%d))"
  | _ => ascii "((%d + %d) - (%d - %d) + (%d * 1))"

/-- The arguments of `sprintf`, with `r` for the draws among them; the product may overflow. -/
def arithmeticOperands (n : Int) (r : Nat → Int) : Nat → List Int
  | 0 => [n, r 0 % 4, n, r 1 % 4, n, r 2 % 255]
  | 1 => [n, r 0 % 256, n, r 1 % 256]
  | 2 => [n, r 0 % 5 + 1, r 1 % 10, r 2 % 5 + 1]
  | 3 => [toInt (n * n), n]
  | 4 => [n, r 0 % 10 + 1, n, n]
  | 5 => [n, r 0 % 256, r 1 % 256]
  | 6 => [n, r 0 % 100, r 1 % 100]
  | 7 => [n, r 0 % 256, n, r 1 % 256]
  | 8 => [n, r 0 % 4, n, 8 - r 1 % 4]
  | 9 => [n, r 0 % 10 + 1, r 1 % 10 + 1, r 2 % 10 + 1, r 3 % 10 + 1]
  | 10 => [n, r 0 % 256, n, r 1 % 256]
  | _ => [n, r 0 % 50, r 1 % 50, r 2 % 50, n]

/-- How many of the arguments are drawn. -/
def arithmeticDraws : Nat → Nat
  | 0 => 3
  | 1 => 2
  | 2 => 3
  | 3 => 0
  | 4 => 1
  | 5 => 2
  | 6 => 2
  | 7 => 2
  | 8 => 2
  | 9 => 4
  | 10 => 2
  | _ => 3

/-- The `temp` for a number, where `used` draws were taken before. -/
def arithmeticExpression (rand : Draws) (used : Nat) (number : Int) : CString :=
  let method := rand used % 12
  sprintf (arithmeticFormat method)
    ((arithmeticOperands number
      (fun i => (rand.argument (used + 1) (arithmeticDraws method) i : Int)) method).map formatInt)

/-! ## `arithmetic_obfuscation_advanced` -/

/-- The `num_str` that begins with the digit `c`. -/
def numStr (c : UInt8) (t : CString) : CString :=
  c :: t.takeWhile Decimal.isDigit

def arithmeticMove (rand : Draws) (s : PassState) (c : UInt8) (t : CString) : Round :=
  if Decimal.isDigit c then
    let number := atoi (numStr c t)
    if 0 < number then
      { out := arithmeticExpression rand s.used number
        extra := (t.takeWhile Decimal.isDigit).length
        state := s.draw (1 + arithmeticDraws (rand s.used % 12)) }
    else { out := numStr c t, extra := (t.takeWhile Decimal.isDigit).length, state := s }
  else copyMove s c

/-- `arithmetic_obfuscation_advanced`. -/
def arithmeticObfuscationAdvanced (config : Config) (rand : Draws) (used : Nat) (mem : Bytes) :
    Ending PassState UInt8 :=
  runPass config.enableArithmeticObfuscation (arithmeticMove rand) used mem

/-! ## Lengths -/

/-- Every format has its arguments. -/
theorem length_parts_arithmeticFormat (n : Int) (r : Nat → Int) (method : Nat) :
    (parts false (arithmeticFormat method)).length =
      ((arithmeticOperands n r method).map formatInt).length + 1 := by
  unfold arithmeticFormat arithmeticOperands
  split <;> rfl

end Obfuscator
end FileExchange
