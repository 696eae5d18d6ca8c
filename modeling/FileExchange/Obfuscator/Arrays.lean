import FileExchange.Obfuscator.Pipeline

/-!
# Obfuscator.Arrays — the arrays of a pass, and the text that it leaves

* `Stage.slices`, `Stage.Safe` : what a pass copies to its fixed arrays, and that its writes stay
  inside of them and of its `result`;
* `Stage.output`               : the text in `result` at the end, unless a write went elsewhere;
* `Pass.cost`, `Stage.written` : what it writes for each construct, and for the whole text;
* `Pass.RoundFits`             : constructs that are short enough.
-/

namespace FileExchange
namespace Obfuscator

open Lib Lib.Scanner Lib.Printf

/-! ## Fixed arrays -/

/-- A string, with its terminator, that is copied to an array. -/
structure Slice where
  length : Nat
  size : Nat

def sliceOf (s : CString) (size : Nat) : Slice :=
  { length := s.length + 1, size := size }

section Slices

variable (config : Config) (pools : Pools) (rand : Draws)

/-- `loop_temp`. -/
def polymorphicSlices (c : UInt8) (t : CString) : List Slice :=
  if ascii "for (" <+: c :: t then
    match findSub (ascii ")\x7b") (c :: t) with
    | none => []
    | some loopEnd => [sliceOf (loopTemp (c :: t) loopEnd) 512]
  else []

/-- `return_value`. -/
def metamorphicSlices (c : UInt8) (t : CString) : List Slice :=
  if ascii "return" <+: c :: t ∧ 59 ∈ t.drop 5 then [sliceOf (returnValue t) 256] else []

/-- `temp`, once or several times. -/
def literalSlices (s : PassState) (content : CString) : List Slice :=
  if Level.extreme.toNat ≤ config.level.toNat then
    [sliceOf (ascii "__DECRYPT_STR" ++ dec (rand s.used % 1000) ++ ascii "(") 2048] ++
      content.map (fun c => sliceOf (dec (obfuscated c) ++ ascii ",") 2048) ++
      [sliceOf (ascii "0)") 2048]
  else if Level.medium.toNat ≤ config.level.toNat then
    [sliceOf (obfuscatedLiteral config.level pools rand s content).1 2048]
  else []

/-- `original_string` and `temp`. -/
def stringSlices (s : PassState) (c : UInt8) (t : CString) : List Slice :=
  if c = 34 then
    match literalEnd 34 t with
    | none => []
    | some n => sliceOf ((c :: t).take (n + 2)) 2048 :: literalSlices config pools rand s (t.take n)
  else []

/-- `num_str` and `temp`. -/
def arithmeticSlices (s : PassState) (c : UInt8) (t : CString) : List Slice :=
  if Decimal.isDigit c then
    sliceOf (numStr c t) 32 ::
      if 0 < atoi (numStr c t) then
        [sliceOf (arithmeticExpression rand s.used (atoi (numStr c t))) 512]
      else []
  else []

def Pass.roundSlices (s : PassState) (c : UInt8) (t : CString) : Pass → List Slice
  | polymorphic => polymorphicSlices c t
  | metamorphic => metamorphicSlices c t
  | strings => stringSlices config pools rand s c t
  | arithmetic => arithmeticSlices rand s c t
  | _ => []

/-- The round of a pass that has rounds. -/
def Pass.move : Pass → Option (PassState → UInt8 → CString → Round)
  | polymorphic => some polymorphicMove
  | metamorphic => some (metamorphicMove rand)
  | strings => some (stringMove config.level pools rand)
  | flattening => some flattenMove
  | predicates => some (opaqueMove pools rand)
  | arithmetic => some (arithmeticMove rand)
  | _ => none

/-- The size of the `result` of a pass. -/
def Pass.resultSize : Pass → Nat
  | polymorphic => 1024 * 1024 * 3
  | metamorphic => 1024 * 1024 * 3
  | flattening => 1024 * 1024 * 3
  | deadCode => 1024 * 1024 * 4
  | _ => 1024 * 1024 * 2

namespace Stage

variable (stage : Stage)

def ending : Ending PassState UInt8 :=
  stage.pass.run config pools rand stage.used stage.mem

def text : CString :=
  stage.mem.takeWhile (· ≠ 0)

def rounds : List PassRound :=
  match stage.pass.move config pools rand with
  | some move => passRounds move stage.used stage.mem
  | none => []

/-- Everything that the pass copies to a fixed array. -/
def slices : List Slice :=
  (stage.rounds config pools rand).flatMap
      (fun r => stage.pass.roundSlices config pools rand r.1 r.2.1 r.2.2) ++
    if stage.pass = .deadCode ∧ stage.text ≠ [] ∧ rand stage.used % 10 = 0 then
      [sliceOf (deadCode rand (stage.used + 1)) 1024]
    else []

/-- Nothing is written outside of the pass's own arrays, by a copy to a fixed one or at the end of
`result`. -/
def Safe : Prop :=
  (∀ slice ∈ stage.slices config pools rand, slice.length ≤ slice.size) ∧
    (stage.ending config pools rand).out.length + 1 ≤ stage.pass.resultSize

instance : Decidable (stage.Safe config pools rand) :=
  inferInstanceAs (Decidable (_ ∧ _))

/-- What stands in `result` when the pass comes to the end of its text.  Where a write left an array
or the memory ended first, nothing is known of it. -/
def output : Option CString :=
  if stage.pass.enabled config = true → stage.Safe config pools rand ∧
      (stage.ending config pools rand).stopped = true then
    some (stage.ending config pools rand).out
  else none

variable {config pools rand stage} in
theorem output_eq_some {out : CString} :
    stage.output config pools rand = some out ↔
      (stage.pass.enabled config = true → stage.Safe config pools rand ∧
        (stage.ending config pools rand).stopped = true) ∧
        (stage.ending config pools rand).out = out := by
  rw [output, Option.ite_none_right_eq_some, Option.some_inj]

end Stage

end Slices

/-! ## What a pass writes -/

section Costs

variable (config : Config) (pools : Pools) (rand : Draws)

/-- Five characters for a condition and for `++` or `--`, 18 for a loop and those of its head. -/
def polymorphicCost (c : UInt8) (t : CString) : Nat :=
  if ascii "if (" <+: c :: t ∨ ascii "++" <+: c :: t ∨ ascii "--" <+: c :: t then 5
  else if ascii "for (" <+: c :: t then
    match findSub (ascii ")\x7b") (c :: t) with
    | none => 1
    | some loopEnd => 18 + (loopTemp (c :: t) loopEnd).length
  else 1

/-- 27 characters and a number for a brace that is marked, 23 with two numbers and the value for a
`return`. -/
def metamorphicCost (s : PassState) (c : UInt8) (t : CString) : Nat :=
  if c = 123 then if rand s.used % 3 = 0 then 27 + (dec (s.counter + 1)).length else 1
  else if ascii "return" <+: c :: t ∧ 59 ∈ t.drop 5 then
    23 + (returnValue t).length + (dec (rand.argument s.used 2 0 % 256)).length +
      (dec (rand.argument s.used 2 1 % 256)).length
  else 1

/-- For a literal its quotes and characters, two names, or a number for each character. -/
def stringCost (s : PassState) (c : UInt8) (t : CString) : Nat :=
  if c = 34 then
    match literalEnd 34 t with
    | none => 1
    | some n =>
        if Level.extreme.toNat ≤ config.level.toNat then
          16 + (dec (rand s.used % 1000)).length +
            ((t.take n).map fun c => (dec (obfuscated c)).length + 1).sum
        else if Level.medium.toNat ≤ config.level.toNat then
          5 + (pools.stringPool (rand.argument s.used 2 0 % stringPoolCount)).length +
            (pools.stringPool (rand.argument s.used 2 1 % stringPoolCount)).length
        else n + 2
  else 1

/-- For a condition 193 characters, its own, and its number five times; nine for a closing brace. -/
def flattenCost (s : PassState) (c : UInt8) (t : CString) : Nat :=
  if ascii "if (" <+: c :: t then
    match closeParen 1 (t.drop 3) with
    | some n => 193 + 5 * (dec s.counter).length + (n - 1)
    | none => if (t.drop 3).headD 0 = 125 then 9 else 1
  else if c = 125 then 9 else 1

/-- For a condition 42 characters, its own, a name and three numbers. -/
def opaqueCost (s : PassState) (c : UInt8) (t : CString) : Nat :=
  if ascii "if (" <+: c :: t then
    match closeParen 1 (t.drop 3) with
    | some n =>
        42 + (n - 1) + (pools.variableNames (rand.argument s.used 4 0 % variableCount)).length +
          (dec (rand.argument s.used 4 1 % 100 + 1)).length +
          (dec (rand.argument s.used 4 2 % 50 + 2)).length +
          (dec (rand.argument s.used 4 3 % 10)).length
    | none => 1
  else 1

/-- For a positive number the characters of the format and those of the operands. -/
def arithmeticCost (s : PassState) (c : UInt8) (t : CString) : Nat :=
  if Decimal.isDigit c then
    if 0 < atoi (numStr c t) then
      fixedLength (arithmeticFormat (rand s.used % 12)) +
        ((arithmeticOperands (atoi (numStr c t))
          (fun i => (rand.argument (s.used + 1) (arithmeticDraws (rand s.used % 12)) i : Int))
          (rand s.used % 12)).map fun n => (formatInt n).length).sum
    else 1 + (t.takeWhile Decimal.isDigit).length
  else 1

/-- The cost of a round. -/
def Pass.cost (s : PassState) (c : UInt8) (t : CString) : Pass → Nat
  | polymorphic => polymorphicCost c t
  | metamorphic => metamorphicCost rand s c t
  | strings => stringCost config pools rand s c t
  | flattening => flattenCost s c t
  | predicates => opaqueCost pools rand s c t
  | arithmetic => arithmeticCost rand s c t
  | _ => 0

/-! ### Rounds -/

variable {config pools rand}

theorem length_polymorphicMove (s : PassState) (c : UInt8) (t : CString) :
    (polymorphicMove s c t).out.length = polymorphicCost c t := by
  unfold polymorphicMove polymorphicCost
  by_cases hif : ascii "if (" <+: c :: t
  · rw [if_pos hif, if_pos (Or.inl hif)]
    rfl
  by_cases hplus : ascii "++" <+: c :: t
  · rw [if_neg hif, if_pos hplus, if_pos (Or.inr (Or.inl hplus))]
    rfl
  by_cases hminus : ascii "--" <+: c :: t
  · rw [if_neg hif, if_neg hplus, if_pos hminus, if_pos (Or.inr (Or.inr hminus))]
    rfl
  have hnone : ¬ (ascii "if (" <+: c :: t ∨ ascii "++" <+: c :: t ∨ ascii "--" <+: c :: t) := by
    simp only [hif, hplus, hminus, or_self, not_false_eq_true]
  rw [if_neg hif, if_neg hplus, if_neg hminus, if_neg hnone]
  split_ifs with hfor
  · cases findSub (ascii ")\x7b") (c :: t) with
    | none => rfl
    | some loopEnd =>
        have hparts : (ascii "\x7b int ").length = 6 ∧ (ascii "; while(1) \x7b").length = 12 := by
          decide
        simp only [List.length_append, hparts]
        omega
  · rfl

theorem length_metamorphicMove (s : PassState) (c : UInt8) (t : CString) :
    (metamorphicMove rand s c t).out.length = metamorphicCost rand s c t := by
  unfold metamorphicMove metamorphicCost
  have hparts : (ascii "\x7b\n/* METAMORPHIC_BLOCK_").length = 23 ∧ (ascii " */\n").length = 4 ∧
      (ascii "return (((int)").length = 14 ∧ (ascii ") ^ ").length = 4 ∧
      (ascii ";").length = 1 := by decide
  split_ifs
  · simp only [List.length_append, hparts]
    omega
  · rfl
  · simp only [List.length_append, hparts]
    omega
  · rfl

theorem length_encryptedLiteral (k : Nat) (content : CString) :
    (encryptedLiteral k content).length =
      16 + (dec k).length + (content.map fun c => (dec (obfuscated c)).length + 1).sum := by
  have hparts : (ascii "__DECRYPT_STR").length = 13 ∧ (ascii "(").length = 1 ∧
      (ascii ",").length = 1 ∧ (ascii "0)").length = 2 := by decide
  simp only [encryptedLiteral, List.length_append, List.length_flatMap, hparts]
  omega

theorem length_stringMove (s : PassState) (c : UInt8) (t : CString) :
    (stringMove config.level pools rand s c t).out.length = stringCost config pools rand s c t := by
  unfold stringMove stringCost
  by_cases hc : c = 34
  · rw [if_pos hc, if_pos hc]
    cases hend : literalEnd 34 t with
    | none => rfl
    | some n =>
        have hn : (t.take n).length = n := by
          rw [List.length_take, Nat.min_eq_left (literalEnd_lt hend).le]
        have hquotes : (ascii "\"").length = 1 ∧ (ascii "\" \"").length = 3 := by decide
        dsimp only [obfuscatedLiteral]
        split_ifs
        · exact length_encryptedLiteral _ _
        · simp only [List.length_append, hquotes]
          omega
        · simp only [List.length_append, List.length_singleton, hn]
          omega
  · rw [if_neg hc, if_neg hc]
    rfl

theorem length_braceOrCopy (c : UInt8) : (braceOrCopy c).length = if c = 125 then 9 else 1 := by
  unfold braceOrCopy
  split_ifs <;> rfl

theorem length_flattenedIf (k : Nat) (condition : CString) :
    (flattenedIf k condition).length = 193 + 5 * (dec k).length + condition.length := by
  have hparts : (ascii "int __state_").length = 12 ∧ (ascii " = 0; do \x7b if (").length = 15 ∧
      (ascii ") \x7b __state_").length = 12 ∧ (ascii " = 1; break; \x7d ").length = 15 ∧
      (ascii "if (rand() % 1000 > 998) \x7b __state_").length = 35 ∧ (ascii " = ").length = 3 ∧
      (ascii "; break; \x7d ").length = 11 ∧
      (ascii "\x7d while(0); switch(__state_").length = 27 ∧
      (ascii ") \x7b case 1: ").length = 12 ∧ (dec (0 + 2)).length = 1 ∧
      (dec (1 + 2)).length = 1 := by decide +kernel
  simp only [flattenedIf, List.length_append, hparts, List.range_succ, List.range_zero,
    List.nil_append, List.singleton_append, List.flatMap_cons, List.flatMap_nil, List.length_nil]
  omega

/-- The condition up to its parenthesis. -/
theorem length_condition {t : CString} {n : Nat} (hn : closeParen 1 (t.drop 3) = some n) :
    ((t.drop 3).take (n - 1)).length = n - 1 := by
  have hle := closeParen_le hn
  rw [List.length_take]
  omega

theorem length_flattenMove (s : PassState) (c : UInt8) (t : CString) :
    (flattenMove s c t).out.length = flattenCost s c t := by
  unfold flattenMove flattenCost
  split
  · cases hn : closeParen 1 (t.drop 3) with
    | none => exact length_braceOrCopy _
    | some n =>
        dsimp only
        rw [length_flattenedIf, length_condition hn]
  · exact length_braceOrCopy c

theorem length_opaqueMove (s : PassState) (c : UInt8) (t : CString) :
    (opaqueMove pools rand s c t).out.length = opaqueCost pools rand s c t := by
  unfold opaqueMove opaqueCost
  split
  · cases hn : closeParen 1 (t.drop 3) with
    | none => rfl
    | some n =>
        have hparts : (ascii "if (((").length = 6 ∧
            (ascii ") && ((int)((uintptr_t)").length = 23 ∧ (ascii " * ").length = 3 ∧
            (ascii ") % ").length = 4 ∧ (ascii " != ").length = 4 ∧ (ascii "))").length = 2 := by
          decide
        simp only [opaqueCondition, List.length_append, hparts, length_condition hn]
        omega
  · rfl

theorem length_arithmeticMove (s : PassState) (c : UInt8) (t : CString) :
    (arithmeticMove rand s c t).out.length = arithmeticCost rand s c t := by
  unfold arithmeticMove arithmeticCost
  split
  · dsimp only
    split
    · simp only [arithmeticExpression]
      rw [length_sprintf (length_parts_arithmeticFormat _ _ _), List.map_map]
      rfl
    · rw [numStr, List.length_cons, Nat.add_comm]
  · rfl

/-! ### Passes over the whole text -/

/-- Of the text after the headers, the part behind the `#include` lines is left. -/
theorem length_importObfuscation (text : CString) :
    (importObfuscation text).length = 699 + (skipIncludes false text).length := by
  have hheaders : obfuscatedHeaders.length = 699 := by decide +kernel
  rw [importObfuscation, List.length_append, hheaders]

/-- What `anti_debug_functions` writes for a text. -/
def antiDebugCost (text : CString) : Nat :=
  match findSub (ascii "main(") text with
  | some mainPos => 536 + mainPos + 61 + (behindBrace (text.drop mainPos)).length
  | none => 536 + text.length

theorem findSub_le {needle s : CString} {n : Nat} (h : findSub needle s = some n) :
    n ≤ s.length := by
  induction s generalizing n with
  | nil =>
      rw [findSub] at h
      split at h <;> cases h
      exact le_rfl
  | cons b s ih =>
      rw [findSub] at h
      split at h
      · cases h
        exact Nat.zero_le _
      · rcases Option.map_eq_some_iff.1 h with ⟨m, hm, rfl⟩
        exact Nat.succ_le_succ (ih hm)

theorem length_antiDebugFunctions (text : CString) :
    (antiDebugFunctions text).length = antiDebugCost text := by
  have hcode : antiDebugCode.length = 536 := by decide +kernel
  have hhead : mainHead.length = 61 := by decide +kernel
  unfold antiDebugFunctions antiDebugCost
  cases hmain : findSub (ascii "main(") text with
  | none => simp only [List.length_append, hcode]
  | some mainPos =>
      simp only [List.length_append, hcode, hhead, List.length_take,
        Nat.min_eq_left (findSub_le hmain)]
      omega

/-- Every format has its arguments. -/
theorem length_parts_deadCodeFormat (r : Nat → Nat) (method : Nat) :
    (parts false (deadCodeFormat method)).length = (deadCodeOperands r method).length + 1 := by
  unfold deadCodeFormat deadCodeOperands
  split <;> (simp only [List.length_cons, List.length_nil]; decide +kernel)

variable (rand) in
/-- What `dead_code_injection` writes for a text. -/
def deadCodeCost (used : Nat) (text : CString) : Nat :=
  if text ≠ [] ∧ rand used % 10 = 0 then
    text.length + (fixedLength (deadCodeFormat (rand (used + 1) % 8)) +
      ((deadCodeOperands (rand.argument (used + 1 + 1) (deadCodeDraws (rand (used + 1) % 8)))
        (rand (used + 1) % 8)).map List.length).sum)
  else text.length

theorem length_deadCodeInjection (used : Nat) (text : CString) :
    (deadCodeInjection rand used text).1.length = deadCodeCost rand used text := by
  unfold deadCodeInjection deadCodeCost
  by_cases htext : text = []
  · rw [if_pos htext, if_neg (by simp [htext]), htext]
  · by_cases hdraw : rand used % 10 = 0
    · rw [if_neg htext, if_pos hdraw, if_pos ⟨htext, hdraw⟩, List.length_append, deadCode,
        length_sprintf (length_parts_deadCodeFormat _ _)]
    · rw [if_neg htext, if_neg hdraw, if_neg (by simp [hdraw])]

end Costs

/-! ## Short constructs -/

/-- What a round copies to a fixed array, if anything, is short enough. -/
def Pass.RoundFits (c : UInt8) (t : CString) : Pass → Prop
  | polymorphic => ascii "for (" <+: c :: t → ∀ loopEnd, findSub (ascii ")\x7b") (c :: t) =
      some loopEnd → (loopTemp (c :: t) loopEnd).length ≤ 511
  | metamorphic => ascii "return" <+: c :: t ∧ 59 ∈ t.drop 5 → (returnValue t).length ≤ 255
  | strings => c = 34 → ∀ n, literalEnd 34 t = some n → n ≤ 2045
  | arithmetic => Decimal.isDigit c = true → (t.takeWhile Decimal.isDigit).length ≤ 30
  | _ => True

section Written

variable (config : Config) (pools : Pools) (rand : Draws) (stage : Stage)

/-- How many characters the pass writes for the text and the constructs in it. -/
def Stage.written : Nat :=
  match stage.pass with
  | .imports => 699 + (skipIncludes false stage.text).length
  | .antiDebug => antiDebugCost stage.text
  | .deadCode => deadCodeCost rand stage.used stage.text
  | pass =>
      ((stage.rounds config pools rand).map fun r =>
        pass.cost config pools rand r.1 r.2.1 r.2.2).sum

end Written

section Lemmas

variable {config : Config} {pools : Pools} {rand : Draws}

theorem length_scanned {enabled : Bool} (henabled : enabled = true)
    {move : PassState → UInt8 → CString → Round} {cost : PassState → UInt8 → CString → Nat}
    (hcost : ∀ s c t, (move s c t).out.length = cost s c t) (used : Nat) (mem : Bytes) :
    (runPass enabled move used mem).out.length =
      ((passRounds move used mem).map fun r => cost r.1 r.2.1 r.2.2).sum := by
  rw [runPass, if_pos henabled, length_scan_out 0 hcost, passRounds]

/-- A round writes what it costs. -/
theorem length_move {pass : Pass} {move : PassState → UInt8 → CString → Round}
    (hmove : pass.move config pools rand = some move) (s : PassState) (c : UInt8) (t : CString) :
    (move s c t).out.length = pass.cost config pools rand s c t := by
  cases pass <;> cases hmove
  case polymorphic => exact length_polymorphicMove s c t
  case metamorphic => exact length_metamorphicMove s c t
  case strings => exact length_stringMove s c t
  case flattening => exact length_flattenMove s c t
  case predicates => exact length_opaqueMove s c t
  case arithmetic => exact length_arithmeticMove s c t

/-- What a pass leaves is as long as it costs. -/
theorem Stage.length_ending (stage : Stage) (henabled : stage.pass.enabled config = true) :
    (stage.ending config pools rand).out.length = stage.written config pools rand := by
  rcases stage with ⟨pass, used, mem⟩
  cases pass with
  | imports => exact length_importObfuscation _
  | polymorphic => exact length_scanned henabled (length_move rfl) used mem
  | metamorphic => exact length_scanned henabled (length_move rfl) used mem
  | antiDebug => exact length_antiDebugFunctions _
  | strings => exact length_scanned henabled (length_move rfl) used mem
  | flattening => exact length_scanned henabled (length_move rfl) used mem
  | predicates => exact length_scanned henabled (length_move rfl) used mem
  | arithmetic => exact length_scanned henabled (length_move rfl) used mem
  | deadCode => exact length_deadCodeInjection _ _

/-! ### Arrays that always suffice -/

theorem length_dec_le {n k : Nat} (hk : 0 < k) (h : n < 10 ^ k) : (dec n).length ≤ k :=
  Decimal.length_toBytes_le hk h

theorem length_stringPool_le (i : Nat) : (pools.stringPool i).length ≤ 48 := by
  rcases pools.stringPool_eq i with ⟨rand, r, hname⟩
  rw [hname, secureRandomName, List.length_cons, List.length_map, List.length_range]
  omega

theorem literalSlices_fit (s : PassState) (content : CString) :
    ∀ slice ∈ literalSlices config pools rand s content, slice.length ≤ slice.size := by
  intro slice hslice
  unfold literalSlices at hslice
  split at hslice
  · simp only [List.mem_append, List.mem_singleton, List.mem_map] at hslice
    rcases hslice with (rfl | ⟨c, _, rfl⟩) | rfl
    · have hname : (ascii "__DECRYPT_STR").length = 13 ∧ (ascii "(").length = 1 := by decide
      have hdigits : (dec (rand s.used % 1000)).length ≤ 3 := length_dec_le (by decide) (by omega)
      simp only [sliceOf, List.length_append, hname]
      omega
    · have hdigits : (dec (obfuscated c)).length ≤ 5 :=
        length_dec_le (by decide) (by have := obfuscated_bounds c; omega)
      have hcomma : (ascii ",").length = 1 := rfl
      simp only [sliceOf, List.length_append, hcomma]
      omega
    · decide
  · next hextreme =>
      split at hslice
      · next hmedium =>
          rw [List.mem_singleton] at hslice
          subst hslice
          have hquotes : (ascii "\"").length = 1 ∧ (ascii "\" \"").length = 3 := by decide
          have hfirst := @length_stringPool_le pools (rand.argument s.used 2 0 % stringPoolCount)
          have hsecond := @length_stringPool_le pools (rand.argument s.used 2 1 % stringPoolCount)
          simp only [sliceOf, obfuscatedLiteral, if_neg hextreme, if_pos hmedium,
            List.length_append, hquotes]
          omega
      · cases hslice

theorem length_formatInt_le {n : Int} (hlow : -2 ^ 31 ≤ n) (hhigh : n < 2 ^ 31) :
    (formatInt n).length ≤ 11 := by
  have hdigits : (Decimal.toBytes n.natAbs).length ≤ 10 :=
    Decimal.length_toBytes_le (by decide) (by omega)
  unfold formatInt formatInt64
  split
  · rw [List.length_cons]
    omega
  · omega

/-- All operands are numbers of type `int`. -/
theorem arithmeticOperands_bounds {n : Int} (hpos : 0 < n) (hn : n < 2 ^ 31) {r : Nat → Int}
    (method : Nat) :
    ∀ a ∈ arithmeticOperands n r method, -2 ^ 31 ≤ a ∧ a < 2 ^ 31 := by
  have hproduct : -2 ^ 31 ≤ toInt (n * n) ∧ toInt (n * n) < 2 ^ 31 :=
    ⟨Int.le_bmod (by decide), toInt_lt _⟩
  unfold arithmeticOperands
  split <;>
    (simp only [List.forall_mem_cons, List.not_mem_nil, false_implies, implies_true, and_true]
     omega)

theorem length_arithmeticOperands_le (n : Int) (r : Nat → Int) (method : Nat) :
    (arithmeticOperands n r method).length ≤ 6 := by
  unfold arithmeticOperands
  split <;> (simp only [List.length_cons, List.length_nil]; omega)

theorem fixedLength_arithmeticFormat_le (method : Nat) :
    fixedLength (arithmeticFormat method) ≤ 30 := by
  unfold arithmeticFormat
  split <;> decide

/-- The `temp` of the expressions suffices. -/
theorem length_arithmeticExpression_le {rand : Draws} {used : Nat} {n : Int} (hpos : 0 < n)
    (hn : n < 2 ^ 31) : (arithmeticExpression rand used n).length ≤ 96 := by
  have hargs : ∀ r : Nat → Int, ∀ a ∈ (arithmeticOperands n r (rand used % 12)).map formatInt,
      a.length ≤ 11 := by
    intro r a ha
    rcases List.mem_map.1 ha with ⟨b, hb, rfl⟩
    have hbounds := arithmeticOperands_bounds hpos hn _ b hb
    exact length_formatInt_le hbounds.1 hbounds.2
  have hle := length_sprintf_le (length_parts_arithmeticFormat n
    (fun i => (rand.argument (used + 1) (arithmeticDraws (rand used % 12)) i : Int))
    (rand used % 12)) (hargs _)
  have hcount := length_arithmeticOperands_le n
    (fun i => (rand.argument (used + 1) (arithmeticDraws (rand used % 12)) i : Int))
    (rand used % 12)
  have hfixed := fixedLength_arithmeticFormat_le (rand used % 12)
  rw [List.length_map] at hle
  exact hle.trans (by omega)

theorem length_formatHex_le {n : Nat} (h : n < 16 ^ 4) : (formatHex n).length ≤ 4 := by
  rw [formatHex, List.length_map]
  exact (Nat.length_toDigits_le_iff (by decide) (by decide)).2 h

theorem length_formatTenths_le {n : Nat} (h : n < 1000) : (formatTenths n).length ≤ 9 := by
  have hint : (dec (n / 10)).length ≤ 2 := length_dec_le (by decide) (by omega)
  have htenth : (dec (n % 10)).length ≤ 1 := length_dec_le (by decide) (by omega)
  have hparts : (ascii ".").length = 1 ∧ (ascii "00000").length = 5 := by decide
  simp only [formatTenths, List.length_append, hparts]
  omega

theorem length_of_mem_deadCodeOperands {r : Nat → Nat} {method : Nat} :
    ∀ a ∈ deadCodeOperands r method, a.length ≤ 9 := by
  have hdec : ∀ {n : Nat}, n < 10 ^ 9 → (dec n).length ≤ 9 := fun h => length_dec_le (by decide) h
  have hhex : ∀ {n : Nat}, n < 16 ^ 4 → (formatHex n).length ≤ 9 := fun h =>
    (length_formatHex_le h).trans (by decide)
  unfold deadCodeOperands
  split <;>
    (simp only [List.forall_mem_cons, List.not_mem_nil, false_implies, implies_true, and_true]
     and_intros <;>
       first
         | exact hdec (Nat.lt_of_le_of_lt (by omega) (show 99999 < 10 ^ 9 by decide))
         | exact hhex (Nat.lt_of_le_of_lt (by omega) (show 65534 < 16 ^ 4 by decide))
         | exact length_formatTenths_le (Nat.mod_lt _ (by decide)))

theorem length_deadCodeOperands_le (r : Nat → Nat) (method : Nat) :
    (deadCodeOperands r method).length ≤ 11 := by
  unfold deadCodeOperands
  split <;> (simp only [List.length_cons, List.length_nil]; omega)

theorem fixedLength_deadCodeFormat_le (method : Nat) :
    fixedLength (deadCodeFormat method) ≤ 500 := by
  unfold deadCodeFormat
  split <;> decide +kernel

/-- The array `dead_code` suffices. -/
theorem length_deadCode_le (used : Nat) : (deadCode rand used).length ≤ 599 := by
  have hle := length_sprintf_le (length_parts_deadCodeFormat
    (rand.argument (used + 1) (deadCodeDraws (rand used % 8))) (rand used % 8))
    length_of_mem_deadCodeOperands
  have hcount := length_deadCodeOperands_le
    (rand.argument (used + 1) (deadCodeDraws (rand used % 8))) (rand used % 8)
  have hfixed := fixedLength_deadCodeFormat_le (rand used % 8)
  exact hle.trans (by omega)

/-! ### Slices and rounds -/

theorem polymorphicSlices_fit_iff (c : UInt8) (t : CString) :
    (∀ slice ∈ polymorphicSlices c t, slice.length ≤ slice.size) ↔
      Pass.polymorphic.RoundFits c t := by
  rw [polymorphicSlices, Pass.RoundFits]
  split
  · next hfor =>
      cases findSub (ascii ")\x7b") (c :: t) with
      | none => simp
      | some loopEnd =>
          simp only [List.forall_mem_singleton, sliceOf, hfor, forall_const, Option.some.injEq,
            forall_eq']
          exact Nat.succ_le_succ_iff
  · next hfor => simp [hfor]

theorem metamorphicSlices_fit_iff (c : UInt8) (t : CString) :
    (∀ slice ∈ metamorphicSlices c t, slice.length ≤ slice.size) ↔
      Pass.metamorphic.RoundFits c t := by
  rw [metamorphicSlices, Pass.RoundFits]
  split
  · next hreturn =>
      rw [List.forall_mem_singleton, forall_prop_of_true hreturn]
      exact Nat.succ_le_succ_iff
  · next hreturn => simp [hreturn]

/-- The literal with its quotes and a terminator. -/
theorem stringSlices_fit_iff (s : PassState) (c : UInt8) (t : CString) :
    (∀ slice ∈ stringSlices config pools rand s c t, slice.length ≤ slice.size) ↔
      Pass.strings.RoundFits c t := by
  rw [stringSlices, Pass.RoundFits]
  split
  · next hc =>
      cases hend : literalEnd 34 t with
      | none => simp
      | some n =>
          have htake : ((c :: t).take (n + 2)).length = n + 2 := by
            have hlt := literalEnd_lt hend
            rw [List.length_take, List.length_cons]
            omega
          rw [List.forall_mem_cons, and_iff_left (literalSlices_fit s _), sliceOf, htake,
            forall_prop_of_true hc]
          simp only [Option.some.injEq, forall_eq']
          exact Nat.add_le_add_iff_right (m := n) (k := 2045) (n := 3)
  · next hc => simp [hc]

/-- `temp` always suffices. -/
theorem arithmeticSlices_fit_iff (s : PassState) (c : UInt8) (t : CString) :
    (∀ slice ∈ arithmeticSlices rand s c t, slice.length ≤ slice.size) ↔
      Pass.arithmetic.RoundFits c t := by
  have htemp : ∀ slice ∈ (if 0 < atoi (numStr c t) then
      [sliceOf (arithmeticExpression rand s.used (atoi (numStr c t))) 512] else []),
      slice.length ≤ slice.size := by
    split
    · next hpos =>
        have hle := @length_arithmeticExpression_le rand s.used _ hpos (toInt_lt _)
        rw [List.forall_mem_singleton]
        exact Nat.succ_le_of_lt (hle.trans_lt (show 96 < 512 by decide))
    · exact List.forall_mem_nil _
  rw [arithmeticSlices, Pass.RoundFits]
  split
  · next hdigit =>
      rw [List.forall_mem_cons, forall_prop_of_true hdigit, and_iff_left htemp]
      exact Nat.add_le_add_iff_right (m := (t.takeWhile Decimal.isDigit).length) (k := 30) (n := 2)
  · next hdigit => simp [hdigit]

/-- The copies of a round fit exactly when the construct is short enough. -/
theorem roundSlices_fit_iff (pass : Pass) (s : PassState) (c : UInt8) (t : CString) :
    (∀ slice ∈ pass.roundSlices config pools rand s c t, slice.length ≤ slice.size) ↔
      pass.RoundFits c t := by
  cases pass with
  | polymorphic => exact polymorphicSlices_fit_iff c t
  | metamorphic => exact metamorphicSlices_fit_iff c t
  | strings => exact stringSlices_fit_iff s c t
  | arithmetic => exact arithmeticSlices_fit_iff s c t
  | imports => simp [Pass.roundSlices, Pass.RoundFits]
  | antiDebug => simp [Pass.roundSlices, Pass.RoundFits]
  | flattening => simp [Pass.roundSlices, Pass.RoundFits]
  | predicates => simp [Pass.roundSlices, Pass.RoundFits]
  | deadCode => simp [Pass.roundSlices, Pass.RoundFits]

theorem Stage.slices_fit_iff (stage : Stage) :
    (∀ slice ∈ stage.slices config pools rand, slice.length ≤ slice.size) ↔
      ∀ r ∈ stage.rounds config pools rand, stage.pass.RoundFits r.2.1 r.2.2 := by
  have hdead : ∀ slice ∈ (if stage.pass = .deadCode ∧ stage.text ≠ [] ∧ rand stage.used % 10 = 0
      then [sliceOf (deadCode rand (stage.used + 1)) 1024] else []),
      slice.length ≤ slice.size := by
    intro slice hslice
    split at hslice
    · rw [List.mem_singleton] at hslice
      subst hslice
      have hle := @length_deadCode_le rand (stage.used + 1)
      simp only [sliceOf]
      omega
    · cases hslice
  unfold Stage.slices
  rw [List.forall_mem_append, and_iff_left hdead, List.forall_mem_flatMap]
  simp only [roundSlices_fit_iff]

/-- A pass stays inside its arrays exactly when its constructs are short enough and `result` has
room for what it writes. -/
theorem Stage.safe_iff (stage : Stage) (henabled : stage.pass.enabled config = true) :
    stage.Safe config pools rand ↔
      (∀ r ∈ stage.rounds config pools rand, stage.pass.RoundFits r.2.1 r.2.2) ∧
        stage.written config pools rand < stage.pass.resultSize := by
  rw [Safe, stage.slices_fit_iff, stage.length_ending henabled, Nat.succ_le_iff]

end Lemmas

end Obfuscator
end FileExchange
