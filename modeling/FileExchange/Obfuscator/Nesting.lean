import FileExchange.Obfuscator.Copying

/-!
# Obfuscator.Nesting — parentheses and braces in the output of the structural passes

* `nest`           : reading a text with a stack of open brackets;
* `ProperlyNested` : texts that close all of them in order;
* `HasIf`, `HasLoop` : the constructs for which a pass opens a bracket that it does not close.
-/

namespace FileExchange
namespace Obfuscator

open Lib Lib.Scanner

/-! ## Nesting -/

/-- Close the bracket that was opened last. -/
def closeBracket (b : UInt8) : List UInt8 → Option (List UInt8)
  | [] => none
  | d :: st => if d = b then some st else none

def nestStep (st : List UInt8) (c : UInt8) : Option (List UInt8) :=
  if c = 40 ∨ c = 123 then some (c :: st)
  else if c = 41 then closeBracket 40 st
  else if c = 125 then closeBracket 123 st
  else some st

/-- The open brackets after a text, the last one first; none if one is closed that is not open. -/
def nest : List UInt8 → CString → Option (List UInt8)
  | st, [] => some st
  | st, c :: t => (nestStep st c).bind fun st' => nest st' t

def ProperlyNested (t : CString) : Prop :=
  nest [] t = some []

instance (t : CString) : Decidable (ProperlyNested t) :=
  inferInstanceAs (Decidable (_ = _))

def isBracket (c : UInt8) : Bool :=
  c = 40 || c = 41 || c = 123 || c = 125

/-- One for an open bracket, and one less for a closed one. -/
def bracketWeight (c : UInt8) : Int :=
  if c = 40 ∨ c = 123 then 1 else if c = 41 ∨ c = 125 then -1 else 0

theorem closeBracket_eq_some {b : UInt8} {st st' : List UInt8} :
    closeBracket b st = some st' ↔ st = b :: st' := by
  cases st with
  | nil => simp [closeBracket]
  | cons d st => simp [closeBracket]

/-- What one character does to the open brackets. -/
theorem nestStep_cases {st st' : List UInt8} {c : UInt8} (h : nestStep st c = some st') :
    ((c = 40 ∨ c = 123) ∧ st' = c :: st) ∨ (c = 41 ∧ st = 40 :: st') ∨
      (c = 125 ∧ st = 123 :: st') ∨ (isBracket c = false ∧ st' = st) := by
  unfold nestStep at h
  split_ifs at h with hopen hparen hbrace
  · exact Or.inl ⟨hopen, (Option.some_inj.1 h).symm⟩
  · exact Or.inr (Or.inl ⟨hparen, closeBracket_eq_some.1 h⟩)
  · exact Or.inr (Or.inr (Or.inl ⟨hbrace, closeBracket_eq_some.1 h⟩))
  · rw [not_or] at hopen
    refine Or.inr (Or.inr (Or.inr ⟨?_, (Option.some_inj.1 h).symm⟩))
    simp [isBracket, hopen, hparen, hbrace]

theorem bracketWeight_of_not_isBracket {c : UInt8} (hc : isBracket c = false) :
    bracketWeight c = 0 := by
  simp only [isBracket, Bool.or_eq_false_iff, decide_eq_false_iff_not] at hc
  simp [bracketWeight, hc]

theorem nest_append (st : List UInt8) (a b : CString) :
    nest st (a ++ b) = (nest st a).bind fun st' => nest st' b := by
  induction a generalizing st with
  | nil =>
      rfl
  | cons c a ih =>
      rw [List.cons_append, nest, nest, Option.bind_assoc]
      simp only [ih]

theorem nestStep_of_not_isBracket {st : List UInt8} {c : UInt8} (hc : isBracket c = false) :
    nestStep st c = some st := by
  simp only [isBracket, Bool.or_eq_false_iff, decide_eq_false_iff_not] at hc
  simp [nestStep, hc]

/-- Only the brackets count. -/
theorem nest_filter (st : List UInt8) (t : CString) : nest st (t.filter isBracket) = nest st t := by
  induction t generalizing st with
  | nil =>
      rfl
  | cons c t ih =>
      cases hc : isBracket c with
      | true =>
          rw [List.filter_cons_of_pos hc]
          simp only [nest, ih]
      | false =>
          rw [List.filter_cons_of_neg (by simp [hc]), ih, nest, nestStep_of_not_isBracket hc,
            Option.bind_some]

theorem properlyNested_congr {t t' : CString} (h : t.filter isBracket = t'.filter isBracket) :
    ProperlyNested t ↔ ProperlyNested t' := by
  unfold ProperlyNested
  rw [← nest_filter, h, nest_filter]

/-- Reading a text changes the number of open brackets by its weight. -/
theorem weight_of_nest {t : CString} : ∀ {st st' : List UInt8}, nest st t = some st' →
    weight bracketWeight t = st'.length - st.length := by
  induction t with
  | nil =>
      intro st st' h
      cases h
      simp
  | cons c t ih =>
      intro st st' h
      rcases Option.bind_eq_some_iff.1 h with ⟨st₁, hstep, hrest⟩
      rw [weight_cons, ih hrest]
      rcases nestStep_cases hstep with ⟨hopen, rfl⟩ | ⟨rfl, rfl⟩ | ⟨rfl, rfl⟩ | ⟨hother, rfl⟩
      · rw [bracketWeight, if_pos hopen, List.length_cons]
        omega
      · rw [show bracketWeight 41 = -1 by decide, List.length_cons]
        omega
      · rw [show bracketWeight 125 = -1 by decide, List.length_cons]
        omega
      · rw [bracketWeight_of_not_isBracket hother]
        omega

theorem weight_of_properlyNested {t : CString} (h : ProperlyNested t) :
    weight bracketWeight t = 0 := by
  simpa using weight_of_nest h

/-- A parenthesis that is open in a text that closes everything is closed. -/
theorem closeParen_of_nest {t : CString} : ∀ {top st : List UInt8} {depth : Nat},
    nest (top ++ st) t = some [] → top.count 40 = depth + 1 →
      (closeParen (depth + 1) t).isSome = true := by
  induction t with
  | nil =>
      intro top st depth h hcount
      rw [(List.append_eq_nil_iff.1 (Option.some_inj.1 h)).1] at hcount
      cases hcount
  | cons c t ih =>
      intro top st depth h hcount
      rcases Option.bind_eq_some_iff.1 h with ⟨st₁, hstep, hrest⟩
      rw [closeParen, Option.isSome_map]
      have htop : ∃ b rest, top = b :: rest := by
        cases top with
        | nil => cases hcount
        | cons b rest => exact ⟨b, rest, rfl⟩
      rcases htop with ⟨b, rest, rfl⟩
      rcases nestStep_cases hstep with ⟨hopen, rfl⟩ | ⟨rfl, hst⟩ | ⟨rfl, hst⟩ | ⟨hother, rfl⟩
      · rcases hopen with rfl | rfl
        · refine @ih (40 :: b :: rest) st (depth + 1) hrest ?_
          rw [List.count_cons_self, hcount]
        · refine @ih (123 :: b :: rest) st depth hrest ?_
          rw [List.count_cons_of_ne (by decide), hcount]
      · -- the parenthesis that was opened last is closed
        cases hst
        rw [List.count_cons_self] at hcount
        cases depth with
        | zero => simp
        | succ depth => exact @ih rest st depth hrest (by simpa using hcount)
      · cases hst
        rw [List.count_cons_of_ne (by decide)] at hcount
        exact @ih rest st depth hrest hcount
      · have hne : c ≠ 40 ∧ c ≠ 41 := by
          constructor <;> (rintro rfl; exact absurd hother (by decide))
        rw [if_neg hne.1, if_neg hne.2]
        exact @ih (b :: rest) st depth hrest hcount

/-! ## Scans of nested texts -/

theorem weight_filter_isBracket (t : CString) :
    weight bracketWeight (t.filter isBracket) = weight bracketWeight t := by
  induction t with
  | nil =>
      rfl
  | cons c t ih =>
      cases hc : isBracket c with
      | true => rw [List.filter_cons_of_pos hc, weight_cons, weight_cons, ih]
      | false =>
          rw [List.filter_cons_of_neg (by simp [hc]), weight_cons, ih,
            bracketWeight_of_not_isBracket hc, zero_add]

section Scans

variable {move : PassState → UInt8 → CString → Round} {Q : PassState → UInt8 → CString → Prop}
  {I : CString → Prop} {text : CString}

/-- A pass of which some rounds keep all brackets and the others open more than they close leaves
a text nested exactly when there are no others. -/
theorem nested_textScan_iff (hdrop : ∀ t n, I t → I (t.drop n))
    (hkeep : ∀ s c t, ¬ Q s c t → (move s c t).out.filter isBracket =
      ((c :: t).take ((move s c t).extra + 1)).filter isBracket)
    (hgrow : ∀ s c t, I (c :: t) → Q s c t →
      weight bracketWeight ((c :: t).take ((move s c t).extra + 1)) <
        weight bracketWeight (move s c t).out)
    (hI : I text) (hnested : ProperlyNested text) {s : PassState} {out : CString}
    (hscan : textScan move 0 s text = some out) :
    ProperlyNested out ↔ ¬ Meets move Q 0 s text := by
  constructor
  · intro hout hmeets
    have hle : ∀ s c t, I (c :: t) →
        weight bracketWeight ((c :: t).take ((move s c t).extra + 1)) ≤
          weight bracketWeight (move s c t).out := by
      intro s c t hI
      by_cases hq : Q s c t
      · exact (hgrow s c t hI hq).le
      · rw [← weight_filter_isBracket, ← hkeep s c t hq, weight_filter_isBracket]
    have hlt := weight_textScan_lt move bracketWeight hdrop hle hgrow hI hmeets hscan
    rw [List.drop_zero, weight_of_properlyNested hnested, weight_of_properlyNested hout] at hlt
    exact absurd hlt (lt_irrefl 0)
  · intro hmeets
    have hfilter := filter_textScan_of_not_meets isBracket hkeep hmeets hscan
    rw [List.drop_zero] at hfilter
    exact (properlyNested_congr hfilter).2 hnested

variable {config : Config} {pools : Pools} {rand : Draws} {pass : Pass}

variable (config pools rand) in
/-- The pass leaves a text, and that is nested. -/
def NestedAfter (stage : Stage) : Prop :=
  ∃ out, stage.output config pools rand = some out ∧ ProperlyNested out

/-- A pass leaves a nested text exactly when it meets none of the other rounds and its result has
room for what the rounds that keep all brackets write. -/
theorem nestedAfter_iff {used : Nat} {beyond : Bytes} (htext : 0 ∉ text)
    (hnested : ProperlyNested text)
    (hrun : ∀ mem, pass.run config pools rand used mem =
      runPass (pass.enabled config) move used mem)
    (hsome : (textScan move 0 { used := used, counter := 0 } text).isSome = true)
    (hscan : ∀ out, textScan move 0 { used := used, counter := 0 } text = some out →
      (ProperlyNested out ↔ ¬ Meets move Q 0 { used := used, counter := 0 } text))
    (hfits : ¬ Meets move Q 0 { used := used, counter := 0 } text →
      ∀ r ∈ (Stage.mk pass used (text ++ 0 :: beyond)).rounds config pools rand,
        pass.RoundFits r.2.1 r.2.2)
    {size : Nat}
    (hsize : ∀ out, ¬ Meets move Q 0 { used := used, counter := 0 } text →
      textScan move 0 { used := used, counter := 0 } text = some out → out.length = size) :
    NestedAfter config pools rand (Stage.mk pass used (text ++ 0 :: beyond)) ↔
      (pass.enabled config = true → ¬ Meets move Q 0 { used := used, counter := 0 } text ∧
        size < pass.resultSize) := by
  cases henabled : pass.enabled config with
  | false =>
      have hending : (Stage.mk pass used (text ++ 0 :: beyond)).ending config pools rand =
          runPass false move used (text ++ 0 :: beyond) := henabled ▸ hrun _
      have hout : ((Stage.mk pass used (text ++ 0 :: beyond)).ending config pools rand).out =
          text := by
        rw [hending]
        exact takeWhile_text htext
      refine iff_of_true ⟨text, Stage.output_eq_some.2 ⟨fun h => ?_, hout⟩, hnested⟩ nofun
      rw [henabled] at h
      cases h
  | true =>
      have hending : (Stage.mk pass used (text ++ 0 :: beyond)).ending config pools rand =
          scan move 0 0 { used := used, counter := 0 } (text ++ 0 :: beyond) := by
        change pass.run config pools rand used _ = _
        rw [hrun, henabled]
        rfl
      rcases Option.isSome_iff_exists.1 hsome with ⟨out, hout⟩
      rcases (scan_text beyond htext).1 out hout with ⟨hresult, -, hstopped⟩
      rw [← hending] at hresult hstopped
      have hsafe := @Stage.safe_iff config pools rand (Stage.mk pass used (text ++ 0 :: beyond))
        henabled
      have hwritten : ¬ Meets move Q 0 { used := used, counter := 0 } text →
          (Stage.mk pass used (text ++ 0 :: beyond)).written config pools rand = size := by
        intro hmeets
        rw [← Stage.length_ending _ henabled, hresult, hsize out hmeets hout]
      rw [forall_prop_of_true rfl]
      constructor
      · rintro ⟨out', houtput, hnest⟩
        rcases Stage.output_eq_some.1 houtput with ⟨hfine, rfl⟩
        rw [hresult, hscan out hout] at hnest
        exact ⟨hnest, hwritten hnest ▸ (hsafe.1 (hfine henabled).1).2⟩
      · rintro ⟨hmeets, hroom⟩
        have hfine := hsafe.2 ⟨hfits hmeets, (hwritten hmeets).symm ▸ hroom⟩
        exact ⟨out, Stage.output_eq_some.2 ⟨fun _ => ⟨hfine, hstopped⟩, hresult⟩,
          (hscan out hout).2 hmeets⟩

end Scans

/-! ## The constructs -/

/-- Some `if (` stands in the text. -/
def HasIf (t : CString) : Prop :=
  ∃ u, u <:+ t ∧ ascii "if (" <+: u

/-- Some `for (` stands in the text, and `){` behind it. -/
def HasLoop (t : CString) : Prop :=
  ∃ u, u <:+ t ∧ ascii "for (" <+: u ∧ ascii ")\x7b" <:+: u

instance (t : CString) : Decidable (HasIf t) :=
  decidable_of_iff (∃ u ∈ t.tails, ascii "if (" <+: u) (by simp [HasIf, List.mem_tails])

instance (t : CString) : Decidable (HasLoop t) :=
  decidable_of_iff (∃ u ∈ t.tails, ascii "for (" <+: u ∧ ascii ")\x7b" <:+: u)
    (by simp [HasLoop, List.mem_tails])

def OpensIf (_ : PassState) (c : UInt8) (t : CString) : Prop :=
  ascii "if (" <+: c :: t

def OpensIfOrLoop (_ : PassState) (c : UInt8) (t : CString) : Prop :=
  ascii "if (" <+: c :: t ∨ (ascii "for (" <+: c :: t ∧ ascii ")\x7b" <:+: c :: t)

/-- Every `if (` in the text is closed. -/
def IfsClosed (t : CString) : Prop :=
  ∀ u, u <:+ t → ascii "if (" <+: u → (closeParen 1 (u.drop 4)).isSome = true

theorem ifsClosed_drop (t : CString) (n : Nat) (h : IfsClosed t) : IfsClosed (t.drop n) :=
  fun u hu => h u (hu.trans (List.drop_suffix n t))

/-- In a nested text every `if (` is closed. -/
theorem ifsClosed_of_properlyNested {t : CString} (h : ProperlyNested t) : IfsClosed t := by
  rintro u ⟨pre, rfl⟩ ⟨rest, rfl⟩
  unfold ProperlyNested at h
  rw [nest_append] at h
  rcases Option.bind_eq_some_iff.1 h with ⟨st, _, hrest⟩
  have hopen : nest st (ascii "if (" ++ rest) = nest ([40] ++ st) rest := rfl
  rw [hopen] at hrest
  exact closeParen_of_nest hrest rfl

/-- Where every round outside of the conditions moves on by one, the first of them is met. -/
theorem meets_opensIf_iff {move : PassState → UInt8 → CString → Round}
    (hother : ∀ s c t, ¬ ascii "if (" <+: c :: t → (move s c t).extra = 0) {t : CString}
    {s : PassState} : Meets move OpensIf 0 s t ↔ HasIf t := by
  constructor
  · intro hmeets
    rcases exists_suffix_of_meets hmeets with ⟨_, c, u, hu, hif⟩
    exact ⟨c :: u, hu, hif⟩
  · rintro ⟨u, hu, hif⟩
    refine meets_of_suffix (P := fun u => ascii "if (" <+: u) (by decide) ?_ hif hu
    intro s c t u hc hif hu
    rw [hother s c t hc]
    rcases List.suffix_cons_iff.1 hu with rfl | hu
    · exact absurd hif hc
    · exact hu

/-! ## The passes over conditions -/

theorem bracketWeight_nameChars : ∀ c ∈ nameChars, bracketWeight c = 0 := by
  decide +kernel

theorem filter_braceOrCopy (c : UInt8) :
    (braceOrCopy c).filter isBracket = [c].filter isBracket := by
  unfold braceOrCopy
  split
  · next hc => subst hc; decide
  · rfl

theorem bracketWeight_flattenedIf (k : Nat) (condition : CString) :
    weight bracketWeight (flattenedIf k condition) = weight bracketWeight condition + 1 := by
  have hparts : weight bracketWeight (ascii "int __state_") = 0 ∧
      weight bracketWeight (ascii " = 0; do \x7b if (") = 2 ∧
      weight bracketWeight (ascii ") \x7b __state_") = 0 ∧
      weight bracketWeight (ascii " = 1; break; \x7d ") = -1 ∧
      weight bracketWeight (ascii "if (rand() % 1000 > 998) \x7b __state_") = 1 ∧
      weight bracketWeight (ascii " = ") = 0 ∧
      weight bracketWeight (ascii "; break; \x7d ") = -1 ∧
      weight bracketWeight (ascii "\x7d while(0); switch(__state_") = 0 ∧
      weight bracketWeight (ascii ") \x7b case 1: ") = 0 := by decide
  simp only [flattenedIf, weight_append, weight_dec bracketWeight bracketWeight_nameChars, hparts,
    List.range_succ, List.range_zero, List.nil_append, List.singleton_append, List.flatMap_cons,
    List.flatMap_nil, weight_nil]
  omega

theorem bracketWeight_opaqueCondition (pools : Pools) (rand : Draws) (s : PassState)
    (condition : CString) :
    weight bracketWeight (opaqueCondition pools rand s condition) =
      weight bracketWeight condition + 1 := by
  have hparts : weight bracketWeight (ascii "if (((") = 3 ∧
      weight bracketWeight (ascii ") && ((int)((uintptr_t)") = 1 ∧
      weight bracketWeight (ascii " * ") = 0 ∧ weight bracketWeight (ascii ") % ") = -1 ∧
      weight bracketWeight (ascii " != ") = 0 ∧ weight bracketWeight (ascii "))") = -2 := by decide
  simp only [opaqueCondition, weight_append, weight_dec bracketWeight bracketWeight_nameChars,
    weight_variableName bracketWeight bracketWeight_nameChars, hparts]
  omega

section Results

variable {config : Config} {pools : Pools} {rand : Draws} {used : Nat} {text : CString}
  {beyond : Bytes}

/-- A pass over conditions that opens one bracket more for each of them leaves a text nested
exactly when there is none and the result has room for the other characters. -/
theorem nestedAfter_conditions_iff {pass : Pass} {move : PassState → UInt8 → CString → Round}
    (htext : 0 ∉ text) (hnested : ProperlyNested text)
    (hrun : ∀ mem, pass.run config pools rand used mem =
      runPass (pass.enabled config) move used mem)
    (hfits : ∀ c t, pass.RoundFits c t)
    (hif : ∀ s c t n, ascii "if (" <+: c :: t → closeParen 1 (t.drop 3) = some n →
      (move s c t).extra = n + 3 ∧
        weight bracketWeight (move s c t).out =
          weight bracketWeight ((t.drop 3).take (n - 1)) + 1)
    (hother : ∀ s c t, ¬ ascii "if (" <+: c :: t → (move s c t).extra = 0 ∧
      (move s c t).out.filter isBracket = [c].filter isBracket)
    (size : CString → Nat) (hnil : size [] = 0)
    (hsize : ∀ s c t, ¬ ascii "if (" <+: c :: t →
      size (c :: t) = (move s c t).out.length + size t) :
    NestedAfter config pools rand (Stage.mk pass used (text ++ 0 :: beyond)) ↔
      (pass.enabled config = true → ¬ HasIf text ∧ size text < pass.resultSize) := by
  have hclosed := ifsClosed_of_properlyNested hnested
  -- in a nested text no condition is incomplete
  have hbroken : ∀ {s}, ¬ Meets move BrokenIf 0 s text := by
    intro s hmeets
    rcases exists_suffix_of_meets hmeets with ⟨_, c, u, hu, hc, hnone⟩
    have hsome := hclosed (c :: u) hu hc
    rw [List.drop_succ_cons, hnone] at hsome
    cases hsome
  have hinside : ∀ s c t, ¬ BrokenIf s c t → (move s c t).extra ≤ t.length := by
    intro s c t h
    by_cases hc : ascii "if (" <+: c :: t
    · cases hn : closeParen 1 (t.drop 3) with
      | none => exact absurd ⟨hc, hn⟩ h
      | some n => exact (hif s c t n hc hn).1.trans_le (if_extra_le hc hn)
    · rw [(hother s c t hc).1]
      exact Nat.zero_le _
  rw [← @meets_opensIf_iff move (fun s c t h => (hother s c t h).1) text
    { used := used, counter := 0 }]
  refine nestedAfter_iff htext hnested hrun
    (isSome_textScan_of_not_meets hinside (Nat.zero_le _) hbroken) (fun out hscan => ?_)
    (fun _ r _ => hfits r.2.1 r.2.2) (fun out hmeets hscan => ?_)
  · refine nested_textScan_iff ifsClosed_drop ?_ ?_ hclosed hnested hscan
    · intro s c t hc
      rw [(hother s c t hc).1, (hother s c t hc).2]
      rfl
    · intro s c t hclosed hc
      rcases Option.isSome_iff_exists.1 (hclosed (c :: t) List.suffix_rfl hc) with ⟨n, hn⟩
      rw [List.drop_succ_cons] at hn
      rcases hif s c t n hc hn with ⟨hextra, hout⟩
      have hfront : weight bracketWeight (ascii "if (") = 1 := by decide
      have hback : bracketWeight 41 = -1 := by decide
      rw [hextra, hout, weight_take_if bracketWeight hc hn, hfront, hback]
      omega
  · refine length_textScan_of_not_meets size hnil ?_ hmeets hscan
    intro s c t hc
    rw [(hother s c t hc).1]
    exact hsize s c t hc

theorem nestedAfter_flattening_iff (htext : 0 ∉ text) (hnested : ProperlyNested text) :
    NestedAfter config pools rand (Stage.mk .flattening used (text ++ 0 :: beyond)) ↔
      (config.enableControlFlow = true → ¬ HasIf text ∧
        text.length + 8 * text.count 125 < 3 * 2 ^ 20) := by
  refine @nestedAfter_conditions_iff config pools rand used text beyond .flattening flattenMove
    htext hnested (fun _ => rfl) (fun _ _ => trivial) ?_ ?_
    (fun t => t.length + 8 * t.count 125) rfl ?_
  · intro s c t n hif hn
    refine ⟨flattenMove_extra hif hn, ?_⟩
    simp [flattenMove, hif, hn, bracketWeight_flattenedIf]
  · intro s c t hif
    simp only [flattenMove, if_neg hif, filter_braceOrCopy, and_self]
  · intro s c t hif
    simp only [flattenMove, if_neg hif, length_braceOrCopy, List.length_cons, List.count_cons,
      beq_iff_eq]
    split
    · omega
    · omega

theorem nestedAfter_predicates_iff (htext : 0 ∉ text) (hnested : ProperlyNested text) :
    NestedAfter config pools rand (Stage.mk .predicates used (text ++ 0 :: beyond)) ↔
      ¬ HasIf text ∧ text.length < 2 ^ 21 := by
  rw [@nestedAfter_conditions_iff config pools rand used text beyond .predicates
    (opaqueMove pools rand) htext hnested (fun _ => rfl) (fun _ _ => trivial) _ _ List.length rfl _]
  · exact forall_prop_of_true rfl
  · intro s c t n hif hn
    refine ⟨opaqueMove_extra hif hn, ?_⟩
    simp [opaqueMove, hif, hn, bracketWeight_opaqueCondition]
  · intro s c t hif
    simp [opaqueMove, hif, copyMove]
  · intro s c t hif
    simp [opaqueMove, hif, copyMove, Nat.add_comm]

end Results

/-! ## `polymorphic_transform` -/

theorem polymorphicMove_if {s : PassState} {c : UInt8} {t : CString}
    (h : ascii "if (" <+: c :: t) :
    polymorphicMove s c t = { out := ascii "if ((", extra := 3, state := s } :=
  if_pos h

/-- What `strstr` finds behind `for (` begins behind it. -/
theorem five_le_of_findSub {t : CString} {m : Nat} (hfor : ascii "for (" <+: t)
    (hm : findSub (ascii ")\x7b") t = some m) : 5 ≤ m := by
  by_contra hlt
  rcases hfor with ⟨tail, rfl⟩
  rcases prefix_of_findSub hm with ⟨behind, hbehind⟩
  have hhead : ((ascii "for (" ++ tail).drop m)[0]? = some 41 := by
    rw [← hbehind]
    rfl
  rw [List.getElem?_drop, Nat.add_zero, List.getElem?_append_left (Nat.lt_of_not_le hlt)] at hhead
  have hnone : ∀ m < 5, (ascii "for (")[m]? ≠ some 41 := by decide
  exact hnone m (Nat.lt_of_not_le hlt) hhead

/-- How a loop is rewritten. -/
theorem polymorphicMove_loop {s : PassState} {c : UInt8} {t : CString}
    (hfor : ascii "for (" <+: c :: t) (hend : ascii ")\x7b" <:+: c :: t) :
    ∃ rest behind, c :: t = ascii "for (" ++ rest ++ ascii ")\x7b" ++ behind ∧
      polymorphicMove s c t =
        { out := ascii "\x7b int " ++ rest ++ ascii "; while(1) \x7b"
          extra := rest.length + 6, state := s } := by
  rcases Option.isSome_iff_exists.1 (findSub_isSome_iff.2 hend) with ⟨m, hm⟩
  have hfive := five_le_of_findSub hfor hm
  rcases prefix_of_findSub hm with ⟨behind, hbehind⟩
  have hfirst : c = 102 := by
    rcases hfor with ⟨tail, htail⟩
    cases htail
    rfl
  have hnot : ¬ ascii "if (" <+: c :: t ∧ ¬ ascii "++" <+: c :: t ∧ ¬ ascii "--" <+: c :: t := by
    subst hfirst
    refine ⟨?_, ?_, ?_⟩ <;>
      (rintro ⟨rest, hrest⟩; exact absurd (List.cons.inj hrest).1 (by decide))
  rcases hfor with ⟨tail, htail⟩
  have hdrop : (c :: t).drop 5 = tail := by
    rw [← htail]
    rfl
  have htake : (tail.take (m - 5)).length = m - 5 := by
    have hlen := congrArg List.length hbehind
    rw [List.length_append, List.length_drop, ← htail, List.length_append] at hlen
    have hfor5 : (ascii "for (").length = 5 := rfl
    have hend2 : (ascii ")\x7b").length = 2 := rfl
    rw [List.length_take]
    omega
  refine ⟨tail.take (m - 5), behind, ?_, ?_⟩
  · rw [List.append_assoc, hbehind, List.append_assoc, ← htail, List.drop_append,
      List.drop_of_length_le hfive, List.nil_append]
    rw [show (ascii "for (").length = 5 from rfl, List.take_append_drop]
  · have hextra : m + 1 = m - 5 + 6 := by omega
    unfold polymorphicMove
    rw [if_neg hnot.1, if_neg hnot.2.1, if_neg hnot.2.2, if_pos ⟨tail, htail⟩, hm, htake, ← hextra,
      ← hdrop]
    rfl

/-- Outside of conditions and loops, a round copies a character or rewrites `++` or `--`. -/
theorem polymorphicMove_cases {s : PassState} {c : UInt8} {t : CString}
    (h : ¬ OpensIfOrLoop s c t) :
    polymorphicMove s c t = copyMove s c ∨
      ∃ rest, (c = 43 ∨ c = 45) ∧ t = c :: rest ∧ (polymorphicMove s c t).extra = 1 ∧
        (polymorphicMove s c t).out.filter isBracket = [] := by
  rw [OpensIfOrLoop, not_or, not_and] at h
  unfold polymorphicMove
  rw [if_neg h.1]
  split_ifs with hplus hminus hfor
  · rcases hplus with ⟨rest, hrest⟩
    cases hrest
    exact Or.inr ⟨rest, Or.inl rfl, rfl, rfl, rfl⟩
  · rcases hminus with ⟨rest, hrest⟩
    cases hrest
    exact Or.inr ⟨rest, Or.inr rfl, rfl, rfl, rfl⟩
  · have hnone : findSub (ascii ")\x7b") (c :: t) = none := by
      rw [← Option.not_isSome_iff_eq_none, findSub_isSome_iff]
      exact h.2 hfor
    rw [hnone]
    exact Or.inl rfl
  · exact Or.inl rfl

theorem meets_opensIfOrLoop_iff {t : CString} {s : PassState} :
    Meets polymorphicMove OpensIfOrLoop 0 s t ↔ HasIf t ∨ HasLoop t := by
  constructor
  · intro hmeets
    rcases exists_suffix_of_meets hmeets with ⟨_, c, u, hu, hif | hloop⟩
    · exact Or.inl ⟨c :: u, hu, hif⟩
    · exact Or.inr ⟨c :: u, hu, hloop⟩
  · intro h
    have hconstruct : ∃ u, u <:+ t ∧
        (ascii "if (" <+: u ∨ (ascii "for (" <+: u ∧ ascii ")\x7b" <:+: u)) := by
      rcases h with ⟨u, hu, hif⟩ | ⟨u, hu, hloop⟩
      · exact ⟨u, hu, Or.inl hif⟩
      · exact ⟨u, hu, Or.inr hloop⟩
    rcases hconstruct with ⟨u, hu, hu'⟩
    refine meets_of_suffix
      (P := fun u => ascii "if (" <+: u ∨ (ascii "for (" <+: u ∧ ascii ")\x7b" <:+: u))
      (by decide) ?_ hu' hu
    intro s c t u hc hu hsuffix
    rcases List.suffix_cons_iff.1 hsuffix with rfl | hsuffix
    · exact absurd hu hc
    · rcases polymorphicMove_cases hc with hcopy | ⟨rest, hsign, rfl, hextra, _⟩
      · rw [hcopy]
        exact hsuffix
      · rw [hextra]
        -- no construct begins with the second sign
        rcases List.suffix_cons_iff.1 hsuffix with rfl | hsuffix
        · exfalso
          rcases hu with ⟨tail, htail⟩ | ⟨⟨tail, htail⟩, _⟩ <;>
            (rcases hsign with rfl | rfl <;>
              exact absurd (List.cons.inj htail).1 (by decide))
        · exact hsuffix

theorem polymorphicMove_extra_le (s : PassState) (c : UInt8) (t : CString) :
    (polymorphicMove s c t).extra ≤ t.length := by
  by_cases h : OpensIfOrLoop s c t
  · rcases h with hif | ⟨hfor, hend⟩
    · rw [polymorphicMove_if hif]
      exact Nat.le_of_succ_le_succ hif.length_le
    · rcases @polymorphicMove_loop s c t hfor hend with ⟨rest, behind, htext, hround⟩
      have hlen := congrArg List.length htext
      have hfor5 : (ascii "for (").length = 5 := rfl
      have hend2 : (ascii ")\x7b").length = 2 := rfl
      simp only [List.length_cons, List.length_append, hfor5, hend2] at hlen
      rw [hround]
      change rest.length + 6 ≤ t.length
      omega
  · rcases polymorphicMove_cases h with hcopy | ⟨rest, _, rfl, hextra, _⟩
    · rw [hcopy]
      exact Nat.zero_le _
    · rw [hextra, List.length_cons]
      exact Nat.succ_le_succ (Nat.zero_le _)

/-- A condition or a loop opens one bracket more than it closes. -/
theorem bracketWeight_polymorphicMove {s : PassState} {c : UInt8} {t : CString}
    (h : OpensIfOrLoop s c t) :
    weight bracketWeight ((c :: t).take ((polymorphicMove s c t).extra + 1)) <
      weight bracketWeight (polymorphicMove s c t).out := by
  rcases h with hif | ⟨hfor, hend⟩
  · rw [polymorphicMove_if hif, cons_eq_if_append hif]
    change weight bracketWeight (ascii "if (") < weight bracketWeight (ascii "if ((")
    decide
  · rcases @polymorphicMove_loop s c t hfor hend with ⟨rest, behind, htext, hround⟩
    have hparts : weight bracketWeight (ascii "for (") = 1 ∧
        weight bracketWeight (ascii ")\x7b") = 0 ∧ weight bracketWeight (ascii "\x7b int ") = 1 ∧
        weight bracketWeight (ascii "; while(1) \x7b") = 1 := by decide
    have htake : (c :: t).take (rest.length + 6 + 1) = ascii "for (" ++ rest ++ ascii ")\x7b" := by
      rw [htext]
      refine List.take_left' ?_
      have hfor5 : (ascii "for (").length = 5 := rfl
      have hend2 : (ascii ")\x7b").length = 2 := rfl
      simp only [List.length_append, hfor5, hend2]
      omega
    rw [hround]
    simp only [htake, weight_append, hparts]
    omega

/-- How many times the pass finds two plus or two minus signs. -/
def signPairs : CString → Nat
  | c :: d :: t => if (c = 43 ∨ c = 45) ∧ d = c then signPairs t + 1 else signPairs (d :: t)
  | _ => 0

/-- Outside of conditions and loops, a round writes three characters more for such a pair. -/
theorem size_polymorphicMove {s : PassState} {c : UInt8} {t : CString}
    (h : ¬ OpensIfOrLoop s c t) :
    (c :: t).length + 3 * signPairs (c :: t) = (polymorphicMove s c t).out.length +
      ((t.drop (polymorphicMove s c t).extra).length +
        3 * signPairs (t.drop (polymorphicMove s c t).extra)) := by
  have hcopy : ¬ ascii "++" <+: c :: t → ¬ ascii "--" <+: c :: t →
      signPairs (c :: t) = signPairs t := by
    intro hplus hminus
    cases t with
    | nil => rfl
    | cons d t =>
        rw [signPairs, if_neg]
        rintro ⟨rfl | rfl, rfl⟩
        · exact hplus ⟨t, rfl⟩
        · exact hminus ⟨t, rfl⟩
  rw [OpensIfOrLoop, not_or, not_and] at h
  unfold polymorphicMove
  rw [if_neg h.1]
  split_ifs with hplus hminus hfor
  · rcases hplus with ⟨rest, hrest⟩
    have hc : c = 43 ∧ t = 43 :: rest := by
      cases hrest
      exact ⟨rfl, rfl⟩
    rcases hc with ⟨rfl, rfl⟩
    change _ = 5 + (rest.length + 3 * signPairs rest)
    rw [signPairs, if_pos (by decide), List.length_cons, List.length_cons]
    omega
  · rcases hminus with ⟨rest, hrest⟩
    have hc : c = 45 ∧ t = 45 :: rest := by
      cases hrest
      exact ⟨rfl, rfl⟩
    rcases hc with ⟨rfl, rfl⟩
    change _ = 5 + (rest.length + 3 * signPairs rest)
    rw [signPairs, if_pos (by decide), List.length_cons, List.length_cons]
    omega
  · have hnone : findSub (ascii ")\x7b") (c :: t) = none := by
      rw [← Option.not_isSome_iff_eq_none, findSub_isSome_iff]
      exact h.2 hfor
    rw [hnone, hcopy hplus hminus]
    simp [copyMove]
    omega
  · rw [hcopy hplus hminus]
    simp [copyMove]
    omega

theorem nestedAfter_polymorphic_iff {config : Config} {pools : Pools} {rand : Draws} {used : Nat}
    {text : CString} {beyond : Bytes} (htext : 0 ∉ text) (hnested : ProperlyNested text) :
    NestedAfter config pools rand (Stage.mk .polymorphic used (text ++ 0 :: beyond)) ↔
      (config.enablePolymorphic = true → (¬ HasIf text ∧ ¬ HasLoop text) ∧
        text.length + 3 * signPairs text < 3 * 2 ^ 20) := by
  have hnever : ∀ {s}, ¬ Meets polymorphicMove (fun _ _ _ => False) 0 s text := by
    intro s hmeets
    rcases exists_suffix_of_meets hmeets with ⟨_, _, _, _, hfalse⟩
    exact hfalse
  rw [← not_or, ← @meets_opensIfOrLoop_iff text { used := used, counter := 0 }]
  refine nestedAfter_iff htext hnested (fun _ => rfl)
    (isSome_textScan_of_not_meets (fun s c t _ => polymorphicMove_extra_le s c t)
      (Nat.zero_le _) hnever) (fun out hscan => ?_) ?_ (fun out hmeets hscan => ?_)
  · refine nested_textScan_iff (I := fun _ => True) (fun _ _ _ => trivial) ?_
      (fun _ _ _ _ => bracketWeight_polymorphicMove) trivial hnested hscan
    intro s c t h
    rcases polymorphicMove_cases h with hcopy | ⟨rest, hsign, rfl, hextra, hout⟩
    · rw [hcopy]
      rfl
    · rw [hextra, hout]
      rcases hsign with rfl | rfl <;> rfl
  · -- without loops nothing is copied to `loop_temp`
    intro hmeets r hr hfor loopEnd hend
    have hsuffix := @suffix_of_mem_rounds _ _ polymorphicMove _ 0 polymorphicMove_extra_le _ _ 0 _
      (Nat.zero_le _) hr
    rw [takeWhile_text htext] at hsuffix
    rw [meets_opensIfOrLoop_iff, not_or] at hmeets
    exact absurd ⟨_, hsuffix, hfor, findSub_isSome_iff.1 (Option.isSome_of_eq_some hend)⟩ hmeets.2
  · exact length_textScan_of_not_meets (fun t => t.length + 3 * signPairs t) rfl
      (fun s c t h => size_polymorphicMove h) hmeets hscan

/-! ## The three passes -/

/-- Each structural pass leaves a nested text nested exactly when it meets nothing that it
rewrites, a condition or for `polymorphic_transform` also a loop, and its result has room for the
text, with three characters more for each `++` and `--` or eight for each closing brace. -/
theorem structural_passes_nested_iff (config : Config) (pools : Pools) (rand : Draws) (used : Nat)
    (text : CString) (beyond : Bytes) (htext : 0 ∉ text) (hnested : ProperlyNested text) :
    (NestedAfter config pools rand (Stage.mk .polymorphic used (text ++ 0 :: beyond)) ↔
        (config.enablePolymorphic = true → (¬ HasIf text ∧ ¬ HasLoop text) ∧
          text.length + 3 * signPairs text < 3 * 2 ^ 20)) ∧
      (NestedAfter config pools rand (Stage.mk .flattening used (text ++ 0 :: beyond)) ↔
        (config.enableControlFlow = true → ¬ HasIf text ∧
          text.length + 8 * text.count 125 < 3 * 2 ^ 20)) ∧
      (NestedAfter config pools rand (Stage.mk .predicates used (text ++ 0 :: beyond)) ↔
        ¬ HasIf text ∧ text.length < 2 ^ 21) :=
  ⟨nestedAfter_polymorphic_iff htext hnested, nestedAfter_flattening_iff htext hnested,
    nestedAfter_predicates_iff htext hnested⟩

theorem structural_passes_nested_of_call :
    NestedAfter (everything .normal) zeroPools (.rightToLeft id)
        (Stage.mk .polymorphic 0 (ascii "\x7b f(i++); \x7d" ++ 0 :: [])) ∧
      NestedAfter (everything .normal) zeroPools (.rightToLeft id)
        (Stage.mk .flattening 0 (ascii "\x7b f(i++); \x7d" ++ 0 :: [])) ∧
      NestedAfter (everything .normal) zeroPools (.rightToLeft id)
        (Stage.mk .predicates 0 (ascii "\x7b f(i++); \x7d" ++ 0 :: [])) := by
  have hif : ¬ HasIf (ascii "\x7b f(i++); \x7d") := by decide
  have hloop : ¬ HasLoop (ascii "\x7b f(i++); \x7d") := by decide
  have h := structural_passes_nested_iff (everything .normal) zeroPools (.rightToLeft id) 0
    (ascii "\x7b f(i++); \x7d") [] (by decide) (by decide)
  exact ⟨h.1.2 fun _ => ⟨⟨hif, hloop⟩, by decide⟩, h.2.1.2 fun _ => ⟨hif, by decide⟩,
    h.2.2.2 ⟨hif, by decide⟩⟩

/-- A single condition is enough for each of the passes to open a bracket that nothing closes, and
a loop for one of them. -/
theorem condition_not_nested :
    ProperlyNested (ascii "if (x) \x7b\x7d") ∧ ProperlyNested (ascii "for (;;)\x7b\x7d") ∧
      ¬ NestedAfter (everything .normal) zeroPools (.rightToLeft id)
        (Stage.mk .polymorphic 0 (ascii "if (x) \x7b\x7d" ++ 0 :: [])) ∧
      ¬ NestedAfter (everything .normal) zeroPools (.rightToLeft id)
        (Stage.mk .polymorphic 0 (ascii "for (;;)\x7b\x7d" ++ 0 :: [])) ∧
      ¬ NestedAfter (everything .normal) zeroPools (.rightToLeft id)
        (Stage.mk .flattening 0 (ascii "if (x) \x7b\x7d" ++ 0 :: [])) ∧
      ¬ NestedAfter (everything .normal) zeroPools (.rightToLeft id)
        (Stage.mk .predicates 0 (ascii "if (x) \x7b\x7d" ++ 0 :: [])) := by
  have hnested : ProperlyNested (ascii "if (x) \x7b\x7d") := by decide
  have hloop : ProperlyNested (ascii "for (;;)\x7b\x7d") := by decide
  have hif : HasIf (ascii "if (x) \x7b\x7d") := by decide
  have hfor : HasLoop (ascii "for (;;)\x7b\x7d") := by decide
  refine ⟨hnested, hloop, fun h => ?_, fun h => ?_, fun h => ?_, fun h => ?_⟩
  · exact ((nestedAfter_polymorphic_iff (by decide) hnested).1 h rfl).1.1 hif
  · exact ((nestedAfter_polymorphic_iff (by decide) hloop).1 h rfl).1.2 hfor
  · exact ((nestedAfter_flattening_iff (by decide) hnested).1 h rfl).1 hif
  · exact ((nestedAfter_predicates_iff (by decide) hnested).1 h).1 hif

end Obfuscator
end FileExchange
