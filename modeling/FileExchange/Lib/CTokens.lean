import Mathlib.Data.List.Basic
import FileExchange.Lib.Decimal

/-!
# Lib.CTokens — the tokens of a C text

A text is taken apart as a C preprocessor does it: lines that end with a backslash are joined, and
then the longest token is split off, again and again.  Behind `#include` that is the name of a
header.  Trigraphs are not replaced.

* `logical`     : the characters after joining, each with the text from it on;
* `tokenExtra`  : how far the token that begins with a character goes on;
* `LinePart`    : where in its line a token stands, for the names of headers;
* `tokensOf`    : the tokens of a text, in their order, with blanks and comments among them.
-/

namespace FileExchange
namespace Lib
namespace CTokens

def isBlank (c : UInt8) : Bool :=
  c = 32 || (9 ≤ c && c ≤ 13)

def isHexDigit (c : UInt8) : Bool :=
  Decimal.isDigit c || (65 ≤ c && c ≤ 70) || (97 ≤ c && c ≤ 102)

/-- Where in its line a token stands: at the beginning, behind the `#` of a directive, behind
`#include`, or elsewhere. -/
inductive LinePart where
  | start
  | directive
  | header
  | other
  deriving DecidableEq

/-- Blanks and comments. -/
def isGap (chars : List UInt8) : Bool :=
  chars.all isBlank || [47, 47].isPrefixOf chars || [47, 42].isPrefixOf chars

/-- Where the token behind another one stands. -/
def LinePart.next (part : LinePart) (chars : List UInt8) : LinePart :=
  if chars = [10] then start
  else if isGap chars then part
  else if part = start ∧ (chars = [35] ∨ chars = [37, 58]) then directive
  else if part = directive ∧ chars = [105, 110, 99, 108, 117, 100, 101] then header
  else other

end CTokens
end Lib
end FileExchange
