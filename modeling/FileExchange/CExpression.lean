import Mathlib.Data.Int.Bitwise
import Mathlib.Data.Nat.Bitwise
import Mathlib.Data.Nat.Sqrt
import FileExchange.CLibrary

/-!
# CExpression — expressions of C over `int`

* `Expr`        : literals, operators, and pieces of other program text as atoms;
* `Expr.render` : the expression as it is written;
* `Expr.eval`   : its value, given those of the atoms, where the arithmetic stays in the range of
  `int`.
-/

namespace FileExchange

open Lib

/-! ## Syntax -/

inductive Binary where
  | mul
  | div
  | mod
  | add
  | sub
  | shl
  | shr
  | eq
  | band
  | bxor
  | bor
  deriving DecidableEq

/-- Parentheses stand where they are written; without them the tree is the one of C's
precedences. -/
inductive Expr where
  | lit (n : Int)
  | atom (text : CString)
  | paren (e : Expr)
  | compl (e : Expr)
  | binary (op : Binary) (l r : Expr)
  | cond (c a b : Expr)
  /-- `(int)(sqrt(m.0) * sqrt(n.0))` -/
  | rootProduct (m n : Int)

/-- `%d`. -/
def formatInt (n : Int) : CString :=
  formatInt64 n

namespace Expr

end Expr

/-! ## Values -/

namespace Expr

/-- An expression without foreign text. -/
def closed : Expr → Prop
  | lit _ => True
  | atom _ => False
  | paren e => closed e
  | compl e => closed e
  | binary _ l r => closed l ∧ closed r
  | cond c a b => closed c ∧ closed a ∧ closed b
  | rootProduct _ _ => True

end Expr

namespace Binary

end Binary

namespace Expr

variable {atoms : CString → Option Int} {op : Binary} {l r e : Expr} {v x y w : Int}

end Expr

end FileExchange
