import FileExchange.Lib.Scanner
import FileExchange.Obfuscator.Text

/-!
# Obfuscator.Passes — the passes that scan the text

Every one of them copies the content character by character into `result` and rewrites the
constructs that it recognises.  A `Move` below is one round of its `while (*pos)`.

* `polymorphicMove`, `metamorphicMove` : `polymorphic_transform`, `metamorphic_engine`;
* `stringMove`                         : `advanced_string_obfuscation`;
* `flattenMove`, `opaqueMove`          : `control_flow_flattening`, `opaque_predicates`;
* `runPass`                            : a pass over the memory that holds the content.
-/

namespace FileExchange
namespace Obfuscator

open Lib Lib.Scanner

abbrev Round := Move PassState UInt8

/-- Where a round happens: the state, the character and the text behind it. -/
abbrev PassRound := PassState × UInt8 × CString

/-- `*result_ptr++ = *pos++`. -/
def copyMove (s : PassState) (c : UInt8) : Round :=
  { out := [c], extra := 0, state := s }

/-- `%d` of a number that is not negative. -/
def dec (n : Nat) : CString :=
  Decimal.toBytes n

theorem not_mem_dec {c : UInt8} (hc : Decimal.isDigit c = false) (n : Nat) : c ∉ dec n := by
  intro h
  rw [Decimal.isDigit_of_mem_toBytes h] at hc
  cases hc

/-! ## `polymorphic_transform` -/

/-- The `loop_temp` between `for (` and the first `){` behind it. -/
def loopTemp (text : CString) (loopEnd : Nat) : CString :=
  (text.drop 5).take (loopEnd - 5)

def polymorphicMove (s : PassState) (c : UInt8) (t : CString) : Round :=
  if ascii "if (" <+: c :: t then { out := ascii "if ((", extra := 3, state := s }
  else if ascii "++" <+: c :: t then { out := ascii " += 1", extra := 1, state := s }
  else if ascii "--" <+: c :: t then { out := ascii " -= 1", extra := 1, state := s }
  else if ascii "for (" <+: c :: t then
    match findSub (ascii ")\x7b") (c :: t) with
    | none => copyMove s c
    | some loopEnd =>
        { out := ascii "\x7b int " ++ loopTemp (c :: t) loopEnd ++ ascii "; while(1) \x7b"
          extra := loopEnd + 1, state := s }
  else copyMove s c

/-! ## `metamorphic_engine` -/

/-- The `return_value` between `return` and the first `;` behind it. -/
def returnValue (t : CString) : CString :=
  (t.drop 5).takeWhile (· ≠ 59)

def metamorphicMove (rand : Draws) (s : PassState) (c : UInt8) (t : CString) : Round :=
  if c = 123 then
    if rand s.used % 3 = 0 then
      { out := ascii "\x7b\n/* METAMORPHIC_BLOCK_" ++ dec (s.counter + 1) ++ ascii " */\n"
        extra := 0, state := (s.draw 1).count }
    else copyMove (s.draw 1).count c
  else if ascii "return" <+: c :: t ∧ 59 ∈ t.drop 5 then
    { out := ascii "return (((int)" ++ returnValue t ++ ascii ") ^ " ++
        dec (rand.argument s.used 2 0 % 256) ++ ascii ") ^ " ++
        dec (rand.argument s.used 2 1 % 256) ++ ascii ";"
      extra := 6 + (returnValue t).length, state := s.draw 2 }
  else copyMove s c

/-! ## `advanced_string_obfuscation` -/

/-- `((c ^ XOR_KEY) + ADDITIVE_KEY) * MULTIPLICATIVE_KEY`. -/
def obfuscated (c : UInt8) : Nat :=
  ((c.toNat ^^^ 0xAA) + 0x29) * 0x4D

theorem xor_lt_256 (c : UInt8) : c.toNat ^^^ 0xAA < 256 :=
  Nat.xor_lt_two_pow (n := 8) c.toNat_lt (by decide)

/-- Every step of the arithmetic stays far inside `int`, and its result is not zero. -/
theorem obfuscated_bounds (c : UInt8) :
    c.toNat ^^^ 0xAA ≤ 255 ∧ (c.toNat ^^^ 0xAA) + 0x29 ≤ 296 ∧
      0 < obfuscated c ∧ obfuscated c ≤ 22792 := by
  have hxor := xor_lt_256 c
  unfold obfuscated
  omega

/-- The string as a call of a decryption function. -/
def encryptedLiteral (k : Nat) (content : CString) : CString :=
  ascii "__DECRYPT_STR" ++ dec k ++ ascii "(" ++
    content.flatMap (fun c => dec (obfuscated c) ++ ascii ",") ++ ascii "0)"

/-- What stands for a literal with this content, and the draws taken. -/
def obfuscatedLiteral (level : Level) (pools : Pools) (rand : Draws) (s : PassState)
    (content : CString) : CString × PassState :=
  if Level.extreme.toNat ≤ level.toNat then
    (encryptedLiteral (rand s.used % 1000) content, s.draw 1)
  else if Level.medium.toNat ≤ level.toNat then
    (ascii "\"" ++ pools.stringPool (rand.argument s.used 2 0 % stringPoolCount) ++
      ascii "\" \"" ++ pools.stringPool (rand.argument s.used 2 1 % stringPoolCount) ++
      ascii "\"", s.draw 2)
  else ([34] ++ content ++ [34], s)

def stringMove (level : Level) (pools : Pools) (rand : Draws) (s : PassState) (c : UInt8)
    (t : CString) : Round :=
  if c = 34 then
    match literalEnd 34 t with
    | some n =>
        let literal := obfuscatedLiteral level pools rand s (t.take n)
        { out := literal.1, extra := n + 1, state := literal.2 }
    -- `pos` has passed the quote, and the next character is copied, be it the terminator
    | none => { out := [t.headD 0], extra := 1, state := s }
  else copyMove s c

/-! ## `control_flow_flattening` -/

/-- The statements for the `k`-th `if`, around its condition. -/
def flattenedIf (k : Nat) (condition : CString) : CString :=
  ascii "int __state_" ++ dec k ++ ascii " = 0; do \x7b if (" ++ condition ++
    ascii ") \x7b __state_" ++ dec k ++ ascii " = 1; break; \x7d " ++
    (List.range 2).flatMap (fun i =>
      ascii "if (rand() % 1000 > 998) \x7b __state_" ++ dec k ++ ascii " = " ++ dec (i + 2) ++
        ascii "; break; \x7d ") ++
    ascii "\x7d while(0); switch(__state_" ++ dec k ++ ascii ") \x7b case 1: "

/-- A closing brace, or a character that is copied. -/
def braceOrCopy (c : UInt8) : CString :=
  if c = 125 then ascii "break; \x7d " else [c]

def flattenMove (s : PassState) (c : UInt8) (t : CString) : Round :=
  if ascii "if (" <+: c :: t then
    match closeParen 1 (t.drop 3) with
    | some n =>
        { out := flattenedIf s.counter ((t.drop 3).take (n - 1)), extra := n + 3
          state := s.count }
    -- `pos` has passed the four characters
    | none => { out := braceOrCopy ((t.drop 3).headD 0), extra := 4, state := s }
  else { out := braceOrCopy c, extra := 0, state := s }

/-! ## `opaque_predicates` -/

/-- The condition, and a predicate about a random name. -/
def opaqueCondition (pools : Pools) (rand : Draws) (s : PassState) (condition : CString) :
    CString :=
  ascii "if (((" ++ condition ++ ascii ") && ((int)((uintptr_t)" ++
    pools.variableNames (rand.argument s.used 4 0 % variableCount) ++ ascii " * " ++
    dec (rand.argument s.used 4 1 % 100 + 1) ++ ascii ") % " ++
    dec (rand.argument s.used 4 2 % 50 + 2) ++ ascii " != " ++
    dec (rand.argument s.used 4 3 % 10) ++ ascii "))"

def opaqueMove (pools : Pools) (rand : Draws) (s : PassState) (c : UInt8) (t : CString) : Round :=
  if ascii "if (" <+: c :: t then
    match closeParen 1 (t.drop 3) with
    | some n =>
        { out := opaqueCondition pools rand s ((t.drop 3).take (n - 1)), extra := n + 3
          state := s.draw 4 }
    | none => { out := [(t.drop 3).headD 0], extra := 4, state := s }
  else copyMove s c

/-! ## Passes -/

/-- The text at the pointer. -/
def place (r : PassRound) : CString :=
  r.2.1 :: r.2.2

/-- What the round takes from the text. -/
def taken (move : PassState → UInt8 → CString → Round) (r : PassRound) : CString :=
  (place r).take ((move r.1 r.2.1 r.2.2).extra + 1)

/-- What it appends to the result. -/
def given (move : PassState → UInt8 → CString → Round) (r : PassRound) : CString :=
  (move r.1 r.2.1 r.2.2).out

def passRounds (move : PassState → UInt8 → CString → Round) (used : Nat) (mem : Bytes) :
    List PassRound :=
  Scanner.rounds move 0 0 { used := used, counter := 0 } mem

/-- A pass over the content in memory, or the content as it is. -/
def runPass (enabled : Bool) (move : PassState → UInt8 → CString → Round) (used : Nat)
    (mem : Bytes) : Ending PassState UInt8 :=
  if enabled then scan move 0 0 { used := used, counter := 0 } mem
  else
    { out := mem.takeWhile (· ≠ 0), state := { used := used, counter := 0 }
      passed := false, stopped := true }

section Functions

variable (config : Config) (pools : Pools) (rand : Draws) (used : Nat) (mem : Bytes)

/-- `polymorphic_transform`. -/
def polymorphicTransform : Ending PassState UInt8 :=
  runPass config.enablePolymorphic polymorphicMove used mem

/-- `metamorphic_engine`. -/
def metamorphicEngine : Ending PassState UInt8 :=
  runPass config.enableMetamorphic (metamorphicMove rand) used mem

/-- `advanced_string_obfuscation`. -/
def advancedStringObfuscation : Ending PassState UInt8 :=
  runPass config.enableStringObfuscation (stringMove config.level pools rand) used mem

/-- `control_flow_flattening`. -/
def controlFlowFlattening : Ending PassState UInt8 :=
  runPass config.enableControlFlow flattenMove used mem

/-- `opaque_predicates`, which has no switch of its own. -/
def opaquePredicates : Ending PassState UInt8 :=
  runPass true (opaqueMove pools rand) used mem

end Functions

end Obfuscator
end FileExchange
