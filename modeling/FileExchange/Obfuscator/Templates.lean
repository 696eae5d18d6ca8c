import FileExchange.Obfuscator.Arithmetic
import Mathlib.Tactic.IntervalCases

/-!
# Obfuscator.Templates — the values of the expressions for a number

* `arithmeticTemplate` : the twelve expressions as trees, which are written as the formats say;
* `Keeps`              : when an expression has the value of its number.
-/

namespace FileExchange
namespace Obfuscator

open Lib Lib.Printf FileExchange.Expr

/-! ## Trees -/

section Values

variable {atoms : CString → Option Int} {n : Nat} (hn : n < 2 ^ 31)

include hn

end Values

end Obfuscator
end FileExchange
