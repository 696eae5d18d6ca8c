import FileExchange.Obfuscator.Encryption
import Mathlib.Tactic.IntervalCases

/-!
# Obfuscator.Copying — what a pass does not rewrite

A pass may find the beginning of a construct without its end.

* `BrokenLiteral`, `BrokenIf`          : such rounds;
* `KeepsRest`                          : the pass stays inside its text and gives what its other
  rounds make of it, with everything else copied;
* `LiteralsClosed`, `ConditionsClosed` : texts without such rounds.
-/

namespace FileExchange
namespace Obfuscator

open Lib Lib.Scanner

/-! ## Incomplete constructs -/

/-- A quote that no other one closes. -/
def BrokenLiteral (_ : PassState) (c : UInt8) (t : CString) : Prop :=
  c = 34 ∧ literalEnd 34 t = none

/-- An `if (` whose parenthesis is not closed. -/
def BrokenIf (_ : PassState) (c : UInt8) (t : CString) : Prop :=
  ascii "if (" <+: c :: t ∧ closeParen 1 (t.drop 3) = none

instance (s : PassState) (c : UInt8) (t : CString) : Decidable (BrokenLiteral s c t) :=
  inferInstanceAs (Decidable (_ ∧ _))

instance (s : PassState) (c : UInt8) (t : CString) : Decidable (BrokenIf s c t) :=
  inferInstanceAs (Decidable (_ ∧ _))

/-- Behind each literal, and behind each character outside of one, the literals are closed. -/
def LiteralsClosed : Nat → CString → Prop
  | _, [] => True
  | k + 1, _ :: t => LiteralsClosed k t
  | 0, c :: t =>
      if c = 34 then
        match literalEnd 34 t with
        | none => False
        | some n => LiteralsClosed (n + 1) t
      else LiteralsClosed 0 t

/-- The parenthesis of each `if (` is closed; what stands in such a condition does not count. -/
def ConditionsClosed : Nat → CString → Prop
  | _, [] => True
  | k + 1, _ :: t => ConditionsClosed k t
  | 0, c :: t =>
      if ascii "if (" <+: c :: t then
        match closeParen 1 (t.drop 3) with
        | none => False
        | some n => ConditionsClosed (n + 3) t
      else ConditionsClosed 0 t

instance decidableLiteralsClosed : ∀ (k : Nat) (t : CString), Decidable (LiteralsClosed k t)
  | 0, [] => isTrue trivial
  | _ + 1, [] => isTrue trivial
  | k + 1, _ :: t => decidableLiteralsClosed k t
  | 0, c :: t =>
      if hc : c = 34 then
        match hend : literalEnd 34 t with
        | none => isFalse (by simp [LiteralsClosed, hc, hend])
        | some n =>
            haveI := decidableLiteralsClosed (n + 1) t
            decidable_of_iff (LiteralsClosed (n + 1) t) (by simp [LiteralsClosed, hc, hend])
      else
        haveI := decidableLiteralsClosed 0 t
        decidable_of_iff (LiteralsClosed 0 t) (by simp [LiteralsClosed, hc])

instance decidableConditionsClosed : ∀ (k : Nat) (t : CString), Decidable (ConditionsClosed k t)
  | 0, [] => isTrue trivial
  | _ + 1, [] => isTrue trivial
  | k + 1, _ :: t => decidableConditionsClosed k t
  | 0, c :: t =>
      if hc : ascii "if (" <+: c :: t then
        match hend : closeParen 1 (t.drop 3) with
        | none => isFalse (by simp [ConditionsClosed, hc, hend])
        | some n =>
            haveI := decidableConditionsClosed (n + 3) t
            decidable_of_iff (ConditionsClosed (n + 3) t) (by simp [ConditionsClosed, hc, hend])
      else
        haveI := decidableConditionsClosed 0 t
        decidable_of_iff (ConditionsClosed 0 t) (by simp [ConditionsClosed, hc])

section Keeps

variable (config : Config) (pools : Pools) (rand : Draws) (pass : Pass)
  (Q : PassState → UInt8 → CString → Prop) [∀ s c t, Decidable (Q s c t)]
  (move : PassState → UInt8 → CString → Round) (used : Nat) (text : CString) (beyond : Bytes)

/-- The text with the complete constructs rewritten and all other characters copied. -/
def copiedRest (enabled : Bool) : Option CString :=
  if enabled then textScan (orCopy Q move) 0 { used := used, counter := 0 } text else some text

/-- The pointer never passes the terminator, and what is not rewritten is copied in its order. -/
def KeepsRest : Prop :=
  ((Stage.mk pass used (text ++ 0 :: beyond)).ending config pools rand).passed = false ∧
    ∃ out, (Stage.mk pass used (text ++ 0 :: beyond)).output config pools rand = some out ∧
      copiedRest Q move used text (pass.enabled config) = some out

variable {config pools rand pass Q move used text beyond}

/-- A pass keeps the rest exactly when it stays inside its arrays and meets no incomplete construct,
if such a round never goes unnoticed. -/
theorem keepsRest_iff (htext : 0 ∉ text)
    (hrun : ∀ mem, pass.run config pools rand used mem =
      runPass (pass.enabled config) move used mem)
    (hinside : ∀ s c t, ¬ Q s c t → (move s c t).extra ≤ t.length)
    (hnotice : ∀ s out, Meets move Q 0 s text → textScan move 0 s text = some out →
      textScan (orCopy Q move) 0 s text ≠ some out) :
    KeepsRest config pools rand pass Q move used text beyond ↔
      (pass.enabled config = true → ¬ Meets move Q 0 { used := used, counter := 0 } text ∧
        (Stage.mk pass used (text ++ 0 :: beyond)).Safe config pools rand) := by
  have hending : (Stage.mk pass used (text ++ 0 :: beyond)).ending config pools rand =
      runPass (pass.enabled config) move used (text ++ 0 :: beyond) := hrun _
  simp only [KeepsRest, Stage.output_eq_some, hending]
  unfold copiedRest runPass
  cases pass.enabled config with
  | false =>
      simp only [Bool.false_eq_true, if_false, takeWhile_text htext, IsEmpty.forall_iff, true_and,
        iff_true]
      exact ⟨text, rfl, rfl⟩
  | true =>
      simp only [if_true, forall_const]
      have hscan := (@scan_text _ _ move _ _ beyond _ 0 { used := used, counter := 0 } htext).1
      rw [scan_passed_iff beyond htext]
      constructor
      · rintro ⟨hsome, _, ⟨⟨hsafe, _⟩, rfl⟩, hout⟩
        refine ⟨fun hmeets => ?_, hsafe⟩
        rcases Option.isSome_iff_exists.1 hsome with ⟨out, hrun⟩
        rw [(hscan out hrun).1] at hout
        exact hnotice _ out hmeets hrun hout
      · rintro ⟨hmeets, hsafe⟩
        have hsome := isSome_textScan_of_not_meets hinside (Nat.zero_le _) hmeets
        rcases Option.isSome_iff_exists.1 hsome with ⟨out, hrun⟩
        refine ⟨hsome, out, ⟨⟨hsafe, (hscan out hrun).2.2⟩, (hscan out hrun).1⟩, ?_⟩
        rw [textScan_orCopy_of_not_meets hmeets, hrun]

end Keeps

/-! ## Closed texts -/

theorem meets_brokenLiteral_iff {level : Level} {pools : Pools} {rand : Draws} :
    ∀ {t : CString} {k : Nat} {s : PassState},
      Meets (stringMove level pools rand) BrokenLiteral k s t ↔ ¬ LiteralsClosed k t := by
  intro t
  induction t with
  | nil =>
      intro k s
      cases k <;> simp [Meets, LiteralsClosed]
  | cons c t ih =>
      intro k s
      cases k with
      | succ k =>
          exact ih
      | zero =>
          by_cases hc : c = 34
          · cases hend : literalEnd 34 t with
            | none => simp [Meets, LiteralsClosed, BrokenLiteral, hc, hend]
            | some n => simp [Meets, LiteralsClosed, BrokenLiteral, stringMove, hc, hend, ih]
          · simp [Meets, LiteralsClosed, BrokenLiteral, stringMove, copyMove, hc, ih]

/-- Both passes over conditions move on alike. -/
theorem meets_brokenIf_iff {move : PassState → UInt8 → CString → Round}
    (hif : ∀ s c t n, ascii "if (" <+: c :: t → closeParen 1 (t.drop 3) = some n →
      (move s c t).extra = n + 3)
    (hother : ∀ s c t, ¬ ascii "if (" <+: c :: t → (move s c t).extra = 0) :
    ∀ {t : CString} {k : Nat} {s : PassState},
      Meets move BrokenIf k s t ↔ ¬ ConditionsClosed k t := by
  intro t
  induction t with
  | nil =>
      intro k s
      cases k <;> simp [Meets, ConditionsClosed]
  | cons c t ih =>
      intro k s
      cases k with
      | succ k =>
          exact ih
      | zero =>
          by_cases hc : ascii "if (" <+: c :: t
          · cases hend : closeParen 1 (t.drop 3) with
            | none => simp [Meets, ConditionsClosed, BrokenIf, hc, hend]
            | some n =>
                simp [Meets, ConditionsClosed, BrokenIf, hc, hend, hif s c t n hc hend, ih]
          · simp [Meets, ConditionsClosed, BrokenIf, hc, hother s c t hc, ih]

/-! ## Literals -/

/-- No quote in the text opens a literal that is closed. -/
def NoLiteral (t : CString) : Prop :=
  ∀ n rest, t.drop n = 34 :: rest → literalEnd 34 rest = none

theorem noLiteral_drop (t : CString) (n : Nat) (h : NoLiteral t) : NoLiteral (t.drop n) := by
  intro m rest hrest
  rw [List.drop_drop] at hrest
  exact h _ rest hrest

/-- A quote that closes something behind a later quote also closes what begins here. -/
theorem literalEnd_append_isSome {rest : CString} (h : (literalEnd 34 rest).isSome = true) :
    ∀ (front : CString) (before : UInt8),
      (literalEnd before (front ++ 34 :: rest)).isSome = true := by
  intro front
  induction front with
  | nil =>
      intro before
      rw [List.nil_append, literalEnd]
      split
      · rfl
      · rw [Option.isSome_map]
        exact h
  | cons b front ih =>
      intro before
      rw [List.cons_append, literalEnd]
      split
      · rfl
      · rw [Option.isSome_map]
        exact ih b

/-- Behind a quote that is not closed there is no literal. -/
theorem noLiteral_of_broken {t : CString} (h : literalEnd 34 t = none) : NoLiteral (34 :: t) := by
  intro n rest hrest
  cases n with
  | zero =>
      cases hrest
      exact h
  | succ n =>
      by_contra hsome
      rw [List.drop_succ_cons] at hrest
      have hend := literalEnd_append_isSome (Option.isSome_iff_ne_none.2 hsome) (t.take n) 34
      rw [← hrest, List.take_append_drop, h] at hend
      cases hend

/-- One for every quote that is missing. -/
def quoteWeight (c : UInt8) : Int :=
  if c = 34 then -1 else 0

section Literals

variable {level : Level} {pools : Pools} {rand : Draws}

theorem literalEnd_of_noLiteral {c : UInt8} {t : CString} (h : NoLiteral (c :: t)) (hc : c = 34) :
    literalEnd 34 t = none :=
  h 0 t (by rw [hc, List.drop_zero])

/-- Where there is no literal, nothing is rewritten. -/
theorem textScan_orCopy_of_noLiteral : ∀ {t : CString} {s : PassState}, NoLiteral t →
    textScan (orCopy BrokenLiteral (stringMove level pools rand)) 0 s t = some t := by
  intro t
  induction t with
  | nil =>
      intro s _
      rfl
  | cons c t ih =>
      intro s h
      have hround : orCopy BrokenLiteral (stringMove level pools rand) s c t = copyMove s c := by
        by_cases hc : c = 34
        · exact if_pos ⟨hc, literalEnd_of_noLiteral h hc⟩
        · simp [orCopy, BrokenLiteral, stringMove, hc]
      rw [textScan, hround]
      change (textScan _ 0 s t).map ([c] ++ ·) = _
      rw [ih (noLiteral_drop _ 1 h)]
      rfl

/-- The scan loses the quotes that it does not find closed. -/
theorem stringMove_notice (s : PassState) {text : CString} (out : CString)
    (hmeets : Meets (stringMove level pools rand) BrokenLiteral 0 s text)
    (hscan : textScan (stringMove level pools rand) 0 s text = some out) :
    textScan (orCopy BrokenLiteral (stringMove level pools rand)) 0 s text ≠ some out := by
  rcases exists_first_meet hmeets with ⟨pre, s', c, t', hq, hrun, hcopy⟩
  have hno : NoLiteral (c :: t') := hq.1.symm ▸ noLiteral_of_broken hq.2
  rw [hrun] at hscan
  rcases Option.map_eq_some_iff.1 hscan with ⟨tail, htail, rfl⟩
  rw [hcopy, textScan_orCopy_of_noLiteral hno]
  intro hsame
  have htaileq : c :: t' = tail := List.append_cancel_left (Option.some_inj.1 hsame)
  have hfirst : Meets (stringMove level pools rand) BrokenLiteral 0 s' (c :: t') := Or.inl hq
  have hlt := weight_textScan_lt (stringMove level pools rand) quoteWeight (Q := BrokenLiteral)
    noLiteral_drop
    (by
      intro s c t h
      by_cases hc : c = 34
      · cases t with
        | nil => simp [stringMove, hc, literalEnd, quoteWeight]
        | cons b t =>
            simp [stringMove, hc, literalEnd_of_noLiteral h hc, quoteWeight]
      · simp [stringMove, hc, copyMove])
    (by
      rintro s c t h ⟨hc, hnone⟩
      cases t with
      | nil => simp [stringMove, hc, literalEnd, quoteWeight]
      | cons b t => simp [stringMove, hc, hnone, quoteWeight])
    hno hfirst htail
  rw [List.drop_zero, htaileq] at hlt
  exact absurd hlt (lt_irrefl _)

/-- At the lowest level every literal is written as it is. -/
theorem textScan_orCopy_normal : ∀ {t : CString} {k : Nat} {s : PassState}, k ≤ t.length →
    textScan (orCopy BrokenLiteral (stringMove .normal pools rand)) k s t = some (t.drop k) := by
  intro t
  induction t with
  | nil =>
      intro k s hk
      rw [Nat.le_zero.1 hk]
      rfl
  | cons c t ih =>
      intro k s hk
      cases k with
      | succ k =>
          exact ih (Nat.le_of_succ_le_succ hk)
      | zero =>
          rw [textScan]
          by_cases hc : c = 34
          · cases hend : literalEnd 34 t with
            | none =>
                simp [orCopy, BrokenLiteral, hc, hend, ih]
            | some n =>
                have hrest := @ih (n + 1) s (literalEnd_lt hend)
                have hround : orCopy BrokenLiteral (stringMove .normal pools rand) s c t =
                    { out := [34] ++ t.take n ++ [34], extra := n + 1, state := s } := by
                  simp [orCopy, BrokenLiteral, stringMove, hc, hend, obfuscatedLiteral,
                    Level.toNat]
                rw [hround]
                dsimp only
                rw [hrest, Option.map_some, List.drop_zero, List.append_assoc, List.append_assoc,
                  List.singleton_append, List.singleton_append, ← literalEnd_split hend, hc]
          · simp [orCopy, BrokenLiteral, stringMove, copyMove, hc, ih]

end Literals

/-! ## Conditions -/

/-- The closing parentheses without the opening ones, and an ampersand for each half of one. -/
def parenWeight (c : UInt8) : Int :=
  if c = 40 then -2 else if c = 41 then 2 else if c = 38 then 1 else 0

theorem mem_nameChars_of_mem_dec {n : Nat} {c : UInt8} (h : c ∈ dec n) : c ∈ nameChars := by
  have hdigit := Decimal.isDigit_of_mem_toBytes h
  simp only [Decimal.isDigit, Bool.and_eq_true, decide_eq_true_eq, UInt8.le_iff_toNat_le] at hdigit
  have hlow : 48 ≤ c.toNat := hdigit.1
  have hhigh : c.toNat ≤ 57 := hdigit.2
  rw [← @UInt8.ofNat_toNat c]
  interval_cases c.toNat <;> decide

section Names

variable (w : UInt8 → Int) (hw : ∀ c ∈ nameChars, w c = 0)

include hw

theorem weight_dec (n : Nat) : weight w (dec n) = 0 :=
  weight_eq_zero fun c hc => hw c (mem_nameChars_of_mem_dec hc)

theorem weight_variableName (pools : Pools) (i : Nat) : weight w (pools.variableNames i) = 0 := by
  refine weight_eq_zero fun c hc => ?_
  rcases pools.variableNames_eq i with ⟨rand, r, hname⟩
  rw [hname] at hc
  exact hw c (mem_nameChars_of_mem_secureRandomName hc)

end Names

theorem parenWeight_nameChars : ∀ c ∈ nameChars, parenWeight c = 0 := by
  decide +kernel

/-- What a pass takes off the text for a complete `if`. -/
theorem weight_take_if (w : UInt8 → Int) {c : UInt8} {t : CString} {n : Nat}
    (hif : ascii "if (" <+: c :: t) (hn : closeParen 1 (t.drop 3) = some n) :
    weight w ((c :: t).take (n + 3 + 1)) =
      weight w (ascii "if (") + weight w ((t.drop 3).take (n - 1)) + w 41 := by
  have hlen : (ascii "if (").length = 4 := rfl
  rw [cons_eq_if_append hif, List.take_append, hlen, show n + 3 + 1 - 4 = n by omega,
    List.take_of_length_le (by rw [hlen]; omega), take_closeParen hn, weight_append, weight_append,
    weight_cons, weight_nil, add_zero, add_assoc]

/-- The parentheses of a complete `if` weigh nothing together. -/
theorem weight_take_if_paren {c : UInt8} {t : CString} {n : Nat} (hif : ascii "if (" <+: c :: t)
    (hn : closeParen 1 (t.drop 3) = some n) :
    weight parenWeight ((c :: t).take (n + 3 + 1)) =
      weight parenWeight ((t.drop 3).take (n - 1)) := by
  have hfront : weight parenWeight (ascii "if (") = -2 := by decide
  have hback : parenWeight 41 = 2 := by decide
  rw [weight_take_if parenWeight hif hn, hfront, hback]
  omega

/-- Four characters of an incomplete `if` are lost. -/
theorem weight_take_brokenIf {c : UInt8} {t : CString} (hif : ascii "if (" <+: c :: t) :
    weight parenWeight ((c :: t).take (4 + 1)) =
      -2 + weight parenWeight [(t.drop 3).headD 0] := by
  have hfront : weight parenWeight (ascii "if (") = -2 := by decide
  rw [cons_eq_if_append hif, ← hfront, ← weight_append]
  cases hrest : t.drop 3 with
  | nil => decide
  | cons b rest => rfl

theorem weight_braceOrCopy (c : UInt8) :
    weight parenWeight (braceOrCopy c) = weight parenWeight [c] := by
  unfold braceOrCopy
  split
  · next hc => subst hc; decide
  · rfl

theorem weight_flattenedIf (k : Nat) (condition : CString) :
    weight parenWeight (flattenedIf k condition) = weight parenWeight condition := by
  have hparts : weight parenWeight (ascii "int __state_") = 0 ∧
      weight parenWeight (ascii " = 0; do \x7b if (") = -2 ∧
      weight parenWeight (ascii ") \x7b __state_") = 2 ∧
      weight parenWeight (ascii " = 1; break; \x7d ") = 0 ∧
      weight parenWeight (ascii "if (rand() % 1000 > 998) \x7b __state_") = 0 ∧
      weight parenWeight (ascii " = ") = 0 ∧ weight parenWeight (ascii "; break; \x7d ") = 0 ∧
      weight parenWeight (ascii "\x7d while(0); switch(__state_") = -2 ∧
      weight parenWeight (ascii ") \x7b case 1: ") = 2 := by decide
  simp only [flattenedIf, weight_append, weight_dec parenWeight parenWeight_nameChars, hparts,
    List.range_succ, List.range_zero, List.nil_append, List.singleton_append, List.flatMap_cons,
    List.flatMap_nil, weight_nil]
  omega

theorem weight_opaqueCondition (pools : Pools) (rand : Draws) (s : PassState)
    (condition : CString) :
    weight parenWeight (opaqueCondition pools rand s condition) =
      weight parenWeight condition := by
  have hparts : weight parenWeight (ascii "if (((") = -6 ∧
      weight parenWeight (ascii ") && ((int)((uintptr_t)") = 0 ∧
      weight parenWeight (ascii " * ") = 0 ∧ weight parenWeight (ascii ") % ") = 2 ∧
      weight parenWeight (ascii " != ") = 0 ∧ weight parenWeight (ascii "))") = 4 := by decide
  simp only [opaqueCondition, weight_append, weight_dec parenWeight parenWeight_nameChars,
    weight_variableName parenWeight parenWeight_nameChars, hparts]
  omega

/-- A pass that rewrites conditions without changing the weight loses weight for each incomplete
`if` that it meets, and that is seen in its result. -/
theorem brokenIf_notice {move : PassState → UInt8 → CString → Round}
    (heq : ∀ s c t, ¬ BrokenIf s c t →
      weight parenWeight ((c :: t).take ((move s c t).extra + 1)) =
        weight parenWeight (move s c t).out)
    (hlt : ∀ s c t, BrokenIf s c t →
      weight parenWeight ((c :: t).take ((move s c t).extra + 1)) <
        weight parenWeight (move s c t).out)
    (s : PassState) {text : CString} (out : CString) (hmeets : Meets move BrokenIf 0 s text)
    (hscan : textScan move 0 s text = some out) :
    textScan (orCopy BrokenIf move) 0 s text ≠ some out := by
  intro hcopy
  have hle : ∀ s c t, weight parenWeight ((c :: t).take ((move s c t).extra + 1)) ≤
      weight parenWeight (move s c t).out := by
    intro s c t
    by_cases hbroken : BrokenIf s c t
    · exact (hlt s c t hbroken).le
    · exact (heq s c t hbroken).le
  have hmore := weight_textScan_lt move parenWeight (I := fun _ => True) (fun _ _ _ => trivial)
    (fun s c t _ => hle s c t) (fun s c t _ => hlt s c t) trivial hmeets hscan
  -- copying what is incomplete changes no weight
  have hsame := weight_textScan_le (orCopy BrokenIf move) (fun c => -parenWeight c)
    (I := fun _ => True) (fun _ _ _ => trivial)
    (by
      intro s c t _
      rw [weight_neg, weight_neg]
      unfold orCopy
      split
      · simp
      · next hbroken => rw [heq s c t hbroken])
    trivial hcopy
  rw [weight_neg, weight_neg, List.drop_zero] at hsame
  rw [List.drop_zero] at hmore
  omega

section Passes

variable {pools : Pools} {rand : Draws}

theorem flattenMove_extra {s : PassState} {c : UInt8} {t : CString} {n : Nat}
    (hif : ascii "if (" <+: c :: t) (hn : closeParen 1 (t.drop 3) = some n) :
    (flattenMove s c t).extra = n + 3 := by
  simp [flattenMove, hif, hn]

theorem opaqueMove_extra {s : PassState} {c : UInt8} {t : CString} {n : Nat}
    (hif : ascii "if (" <+: c :: t) (hn : closeParen 1 (t.drop 3) = some n) :
    (opaqueMove pools rand s c t).extra = n + 3 := by
  simp [opaqueMove, hif, hn]

theorem weight_flattenMove {s : PassState} {c : UInt8} {t : CString} (h : ¬ BrokenIf s c t) :
    weight parenWeight ((c :: t).take ((flattenMove s c t).extra + 1)) =
      weight parenWeight (flattenMove s c t).out := by
  by_cases hif : ascii "if (" <+: c :: t
  · cases hn : closeParen 1 (t.drop 3) with
    | none => exact absurd ⟨hif, hn⟩ h
    | some n =>
        rw [flattenMove_extra hif hn, weight_take_if_paren hif hn]
        simp [flattenMove, hif, hn, weight_flattenedIf]
  · simp [flattenMove, hif, weight_braceOrCopy]

theorem weight_flattenMove_lt {s : PassState} {c : UInt8} {t : CString} (h : BrokenIf s c t) :
    weight parenWeight ((c :: t).take ((flattenMove s c t).extra + 1)) <
      weight parenWeight (flattenMove s c t).out := by
  have hround : flattenMove s c t =
      { out := braceOrCopy ((t.drop 3).headD 0), extra := 4, state := s } := by
    simp only [flattenMove, if_pos h.1, h.2]
  rw [hround, weight_take_brokenIf h.1, weight_braceOrCopy]
  omega

theorem weight_opaqueMove {s : PassState} {c : UInt8} {t : CString} (h : ¬ BrokenIf s c t) :
    weight parenWeight ((c :: t).take ((opaqueMove pools rand s c t).extra + 1)) =
      weight parenWeight (opaqueMove pools rand s c t).out := by
  by_cases hif : ascii "if (" <+: c :: t
  · cases hn : closeParen 1 (t.drop 3) with
    | none => exact absurd ⟨hif, hn⟩ h
    | some n =>
        rw [opaqueMove_extra hif hn, weight_take_if_paren hif hn]
        simp [opaqueMove, hif, hn, weight_opaqueCondition]
  · simp [opaqueMove, hif, copyMove]

theorem weight_opaqueMove_lt {s : PassState} {c : UInt8} {t : CString} (h : BrokenIf s c t) :
    weight parenWeight ((c :: t).take ((opaqueMove pools rand s c t).extra + 1)) <
      weight parenWeight (opaqueMove pools rand s c t).out := by
  have hround : opaqueMove pools rand s c t =
      { out := [(t.drop 3).headD 0], extra := 4, state := s } := by
    simp only [opaqueMove, if_pos h.1, h.2]
  rw [hround, weight_take_brokenIf h.1]
  change -2 + weight parenWeight [(t.drop 3).headD 0] < weight parenWeight [(t.drop 3).headD 0]
  omega

/-! ## Staying inside the text -/

theorem stringMove_extra_le {level : Level} {s : PassState} {c : UInt8} {t : CString}
    (h : ¬ BrokenLiteral s c t) : (stringMove level pools rand s c t).extra ≤ t.length := by
  by_cases hc : c = 34
  · cases hend : literalEnd 34 t with
    | none => exact absurd ⟨hc, hend⟩ h
    | some n => simpa [stringMove, hc, hend] using Nat.succ_le_of_lt (literalEnd_lt hend)
  · simp [stringMove, hc, copyMove]

/-- A complete `if` ends inside the text. -/
theorem if_extra_le {c : UInt8} {t : CString} {n : Nat} (hif : ascii "if (" <+: c :: t)
    (hn : closeParen 1 (t.drop 3) = some n) : n + 3 ≤ t.length := by
  have hle := closeParen_le hn
  have hthree : 4 ≤ (c :: t).length := hif.length_le
  rw [List.length_drop] at hle
  rw [List.length_cons] at hthree
  omega

end Passes

/-! ## The three passes -/

section Results

variable {config : Config} {pools : Pools} {rand : Draws} {used : Nat} {text : CString}
  {beyond : Bytes}

theorem keepsRest_strings_iff (htext : 0 ∉ text) :
    KeepsRest config pools rand .strings BrokenLiteral (stringMove config.level pools rand) used
        text beyond ↔
      (config.enableStringObfuscation = true → LiteralsClosed 0 text ∧
        (∀ content ∈ literalContents
            ((Stage.mk .strings used (text ++ 0 :: beyond)).rounds config pools rand),
          content.length ≤ 2045) ∧
        (Stage.mk .strings used (text ++ 0 :: beyond)).written config pools rand < 2 ^ 21) := by
  rw [keepsRest_iff htext (fun _ => rfl) (fun _ _ _ h => stringMove_extra_le h)
    (fun s out hmeets hscan => stringMove_notice s out hmeets hscan), meets_brokenLiteral_iff,
    not_not]
  exact forall_congr' fun henabled => and_congr_right fun _ => safe_strings_iff henabled

/-- At the lowest level a text with closed literals is what the pass writes. -/
theorem out_strings_normal (hnormal : config.level = .normal) (htext : 0 ∉ text)
    (hclosed : LiteralsClosed 0 text) :
    ((Stage.mk .strings used (text ++ 0 :: beyond)).ending config pools rand).out = text := by
  change (runPass config.enableStringObfuscation (stringMove config.level pools rand) used
    (text ++ 0 :: beyond)).out = text
  rw [hnormal]
  unfold runPass
  split
  · have hmeets : ¬ Meets (stringMove .normal pools rand) BrokenLiteral 0
        { used := used, counter := 0 } text := by
      rw [meets_brokenLiteral_iff, not_not]
      exact hclosed
    have hcopy := @textScan_orCopy_normal pools rand text 0 { used := used, counter := 0 }
      (Nat.zero_le _)
    rw [textScan_orCopy_of_not_meets hmeets, List.drop_zero] at hcopy
    exact ((scan_text beyond htext).1 text hcopy).1
  · exact takeWhile_text htext

/-- There the obfuscation of strings is the identity. -/
theorem strings_normal_iff (hnormal : config.level = .normal) (htext : 0 ∉ text) :
    (((Stage.mk .strings used (text ++ 0 :: beyond)).ending config pools rand).passed = false ∧
        (Stage.mk .strings used (text ++ 0 :: beyond)).output config pools rand = some text) ↔
      (config.enableStringObfuscation = true → LiteralsClosed 0 text ∧
        (∀ content ∈ literalContents
            ((Stage.mk .strings used (text ++ 0 :: beyond)).rounds config pools rand),
          content.length ≤ 2045) ∧
        text.length < 2 ^ 21) := by
  have hcopied : copiedRest BrokenLiteral (stringMove config.level pools rand) used text
      config.enableStringObfuscation = some text := by
    unfold copiedRest
    rw [hnormal, textScan_orCopy_normal (Nat.zero_le _), List.drop_zero, ite_self]
  have hkeeps : KeepsRest config pools rand .strings BrokenLiteral
      (stringMove config.level pools rand) used text beyond ↔
        ((Stage.mk .strings used (text ++ 0 :: beyond)).ending config pools rand).passed = false ∧
          (Stage.mk .strings used (text ++ 0 :: beyond)).output config pools rand = some text := by
    refine and_congr_right fun _ => ?_
    change (∃ out, _ ∧ copiedRest _ _ _ _ config.enableStringObfuscation = some out) ↔ _
    simp only [hcopied, Option.some_inj, exists_eq_right']
  rw [← hkeeps, keepsRest_strings_iff htext]
  refine forall_congr' fun henabled => and_congr_right fun hclosed => and_congr_right fun _ => ?_
  rw [← Stage.length_ending (Stage.mk .strings used (text ++ 0 :: beyond)) henabled,
    out_strings_normal hnormal htext hclosed]

/-- What the two passes over conditions have in common. -/
theorem keepsRest_brokenIf_iff {pass : Pass} (move : PassState → UInt8 → CString → Round)
    (htext : 0 ∉ text)
    (hrun : ∀ mem, pass.run config pools rand used mem =
      runPass (pass.enabled config) move used mem)
    (hfits : ∀ c t, pass.RoundFits c t)
    (hif : ∀ s c t n, ascii "if (" <+: c :: t → closeParen 1 (t.drop 3) = some n →
      (move s c t).extra = n + 3)
    (hother : ∀ s c t, ¬ ascii "if (" <+: c :: t → (move s c t).extra = 0)
    (heq : ∀ s c t, ¬ BrokenIf s c t →
      weight parenWeight ((c :: t).take ((move s c t).extra + 1)) =
        weight parenWeight (move s c t).out)
    (hlt : ∀ s c t, BrokenIf s c t →
      weight parenWeight ((c :: t).take ((move s c t).extra + 1)) <
        weight parenWeight (move s c t).out) :
    KeepsRest config pools rand pass BrokenIf move used text beyond ↔
      (pass.enabled config = true → ConditionsClosed 0 text ∧
        (Stage.mk pass used (text ++ 0 :: beyond)).written config pools rand <
          pass.resultSize) := by
  have hinside : ∀ s c t, ¬ BrokenIf s c t → (move s c t).extra ≤ t.length := by
    intro s c t h
    by_cases hc : ascii "if (" <+: c :: t
    · cases hn : closeParen 1 (t.drop 3) with
      | none => exact absurd ⟨hc, hn⟩ h
      | some n => exact (hif s c t n hc hn).trans_le (if_extra_le hc hn)
    · rw [hother s c t hc]
      exact Nat.zero_le _
  rw [keepsRest_iff htext hrun hinside fun s out => brokenIf_notice heq hlt s out,
    meets_brokenIf_iff hif hother, not_not]
  refine forall_congr' fun henabled => and_congr_right fun _ => ?_
  rw [Stage.safe_iff (Stage.mk pass used (text ++ 0 :: beyond)) henabled]
  exact and_iff_right fun r _ => hfits r.2.1 r.2.2

theorem keepsRest_flattening_iff (htext : 0 ∉ text) :
    KeepsRest config pools rand .flattening BrokenIf flattenMove used text beyond ↔
      (config.enableControlFlow = true → ConditionsClosed 0 text ∧
        (Stage.mk .flattening used (text ++ 0 :: beyond)).written config pools rand <
          3 * 2 ^ 20) :=
  keepsRest_brokenIf_iff flattenMove htext (fun _ => rfl) (fun _ _ => trivial)
    (fun _ _ _ _ => flattenMove_extra) (fun _ _ _ h => by simp [flattenMove, h])
    (fun _ _ _ => weight_flattenMove) (fun _ _ _ => weight_flattenMove_lt)

theorem keepsRest_predicates_iff (htext : 0 ∉ text) :
    KeepsRest config pools rand .predicates BrokenIf (opaqueMove pools rand) used text beyond ↔
      ConditionsClosed 0 text ∧
        (Stage.mk .predicates used (text ++ 0 :: beyond)).written config pools rand < 2 ^ 21 := by
  rw [@keepsRest_brokenIf_iff config pools rand used text beyond .predicates
    (opaqueMove pools rand) htext (fun _ => rfl) (fun _ _ => trivial)
    (fun _ _ _ _ => opaqueMove_extra) (fun _ _ _ h => by simp [opaqueMove, h, copyMove])
    (fun _ _ _ => weight_opaqueMove) (fun _ _ _ => weight_opaqueMove_lt)]
  exact forall_prop_of_true rfl

end Results

/-- Each pass stays inside a text and copies what it does not rewrite, exactly when the text has no
construct that begins and does not end, the literals fit their array, and what the pass writes fits
its result; at the lowest level that makes the obfuscation of strings the identity. -/
theorem scans_keep_rest_iff (config : Config) (pools : Pools) (rand : Draws) (used : Nat)
    (text : CString) (beyond : Bytes) (htext : 0 ∉ text) :
    (KeepsRest config pools rand .strings BrokenLiteral (stringMove config.level pools rand) used
        text beyond ↔
      (config.enableStringObfuscation = true → LiteralsClosed 0 text ∧
        (∀ content ∈ literalContents
            ((Stage.mk .strings used (text ++ 0 :: beyond)).rounds config pools rand),
          content.length ≤ 2045) ∧
        (Stage.mk .strings used (text ++ 0 :: beyond)).written config pools rand < 2 ^ 21)) ∧
      (KeepsRest config pools rand .flattening BrokenIf flattenMove used text beyond ↔
        (config.enableControlFlow = true → ConditionsClosed 0 text ∧
          (Stage.mk .flattening used (text ++ 0 :: beyond)).written config pools rand <
            3 * 2 ^ 20)) ∧
      (KeepsRest config pools rand .predicates BrokenIf (opaqueMove pools rand) used text beyond ↔
        ConditionsClosed 0 text ∧
          (Stage.mk .predicates used (text ++ 0 :: beyond)).written config pools rand < 2 ^ 21) ∧
      (config.level = .normal →
        ((((Stage.mk .strings used (text ++ 0 :: beyond)).ending config pools rand).passed =
              false ∧
            (Stage.mk .strings used (text ++ 0 :: beyond)).output config pools rand = some text) ↔
          (config.enableStringObfuscation = true → LiteralsClosed 0 text ∧
            (∀ content ∈ literalContents
                ((Stage.mk .strings used (text ++ 0 :: beyond)).rounds config pools rand),
              content.length ≤ 2045) ∧
            text.length < 2 ^ 21))) :=
  ⟨keepsRest_strings_iff htext, keepsRest_flattening_iff htext, keepsRest_predicates_iff htext,
    fun hnormal => strings_normal_iff hnormal htext⟩

def stringsAtNormal : Config :=
  { level := .normal, enableStringObfuscation := true, enableControlFlow := true
    enableArithmeticObfuscation := false, enableJunkCode := false, enablePolymorphic := false
    enableMetamorphic := false }

theorem scans_keep_rest_of_hello :
    (Stage.mk .strings 0 (ascii "puts(\"hello\");" ++ 0 :: [])).output stringsAtNormal zeroPools
        (.rightToLeft id) = some (ascii "puts(\"hello\");") ∧
      KeepsRest stringsAtNormal zeroPools (.rightToLeft id) .flattening BrokenIf flattenMove 0
        (ascii "puts(\"hello\");") [] := by
  have h := scans_keep_rest_iff stringsAtNormal zeroPools (.rightToLeft id) 0
    (ascii "puts(\"hello\");") [] (by decide)
  refine ⟨((h.2.2.2 rfl).2 fun _ => ?_).2, h.2.1.2 fun _ => ?_⟩
  · decide +kernel
  · decide +kernel

/-- A quote at the end takes the pointer past the terminator, an `if` that is not complete loses its
first four characters. -/
theorem incomplete_constructs_not_kept :
    ¬ KeepsRest stringsAtNormal zeroPools (.rightToLeft id) .strings BrokenLiteral
        (stringMove .normal zeroPools (.rightToLeft id)) 0 (ascii "x\"") [] ∧
      ¬ KeepsRest stringsAtNormal zeroPools (.rightToLeft id) .flattening BrokenIf flattenMove 0
        (ascii "if (x") [] ∧
      ¬ KeepsRest stringsAtNormal zeroPools (.rightToLeft id) .predicates BrokenIf
        (opaqueMove zeroPools (.rightToLeft id)) 0 (ascii "if (x") [] ∧
      (Stage.mk .strings 0 (ascii "\"x" ++ 0 :: [])).output stringsAtNormal zeroPools
        (.rightToLeft id) ≠ some (ascii "\"x") := by
  refine ⟨fun h => ?_, fun h => ?_, fun h => ?_, by decide +kernel⟩
  · exact absurd ((keepsRest_strings_iff (by decide)).1 h rfl).1 (by decide)
  · exact absurd ((keepsRest_flattening_iff (by decide)).1 h rfl).1 (by decide)
  · exact absurd ((keepsRest_predicates_iff (by decide)).1 h).1 (by decide)

end Obfuscator
end FileExchange
