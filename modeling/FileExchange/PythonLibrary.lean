import Mathlib.Data.List.DropRight

/-!
# PythonLibrary — the string functions of Python that the analyzer calls

A `str` is the list of its characters.

* `isSpace`        : `str.isspace` of one character, which is also `\s` of a pattern;
* `strip`, `split` : `str.strip()` and `str.split` with a separator of one character;
* `isWord`         : `\w` of a pattern;
* `findIter`       : the matches that `re.finditer` finds, with the places where they start.
-/

namespace FileExchange
namespace Python

abbrev Text := List Char

/-- The characters that Unicode calls white space. -/
def isSpace (c : Char) : Bool :=
  (0x09 ≤ c.toNat && c.toNat ≤ 0x0D) || (0x1C ≤ c.toNat && c.toNat ≤ 0x20) ||
    c.toNat = 0x85 || c.toNat = 0xA0 || c.toNat = 0x1680 ||
    (0x2000 ≤ c.toNat && c.toNat ≤ 0x200A) || c.toNat = 0x2028 || c.toNat = 0x2029 ||
    c.toNat = 0x202F || c.toNat = 0x205F || c.toNat = 0x3000

def strip (s : Text) : Text :=
  (s.dropWhile isSpace).rdropWhile isSpace

def split (sep : Char) (s : Text) : List Text :=
  s.splitOn sep

/-! ## Patterns -/

/-- `\w`; `unicode` tells which characters beyond ASCII are letters or digits. -/
def isWord (unicode : Char → Bool) (c : Char) : Bool :=
  c.isAlphanum || c = '_' || (128 ≤ c.toNat && !isSpace c && unicode c)

/-- Match one character. -/
def expect (c : Char) : Text → Option Text
  | [] => none
  | d :: s => if d = c then some s else none

/-- Match one of several words. -/
def oneOf (words : List String) (s : Text) : Option Text :=
  words.findSome? fun w => if w.toList <+: s then some (s.drop w.length) else none

/-- The loop of `re.finditer`, where the first `skip` characters belong to the match before.  A
match is what it captures and the text after it. -/
def findIterFrom {α : Type} (matchAt : Text → Option (α × Text)) :
    Nat → Nat → Text → List (Nat × α)
  | _, _, [] => []
  | pos, skip + 1, _ :: s => findIterFrom matchAt (pos + 1) skip s
  | pos, 0, c :: s =>
      match matchAt (c :: s) with
      | none => findIterFrom matchAt (pos + 1) 0 s
      | some (a, rest) =>
          (pos, a) :: findIterFrom matchAt (pos + 1) (s.length - rest.length) s

def findIter {α : Type} (matchAt : Text → Option (α × Text)) (s : Text) : List (Nat × α) :=
  findIterFrom matchAt 0 0 s

end Python
end FileExchange
