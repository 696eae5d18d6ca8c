import FileExchange.Obfuscator.Arrays

/-!
# Obfuscator.Buffers — the buffer that the passes copy their results to

* `Stage.copied`   : what a pass copies back, up to the first terminator in its result;
* `Stage.Inside`   : all writes of a pass stay inside;
* `Stage.HasRoom`  : there is room for what it writes;
* `BuffersSuffice` : all writes of the whole obfuscation stay inside.
-/

namespace FileExchange
namespace Obfuscator

open Lib Lib.Scanner Lib.Printf

/-! ## Texts without terminators -/

theorem zero_not_mem_dec (n : Nat) : (0 : UInt8) ∉ dec n :=
  not_mem_dec (by decide) n

theorem zero_not_mem_secureRandomName (rand : Nat → Nat) (length : Nat) :
    (0 : UInt8) ∉ secureRandomName rand length := fun h =>
  absurd (mem_nameChars_of_mem_secureRandomName h) (by decide +kernel)

theorem zero_not_mem_variableName (pools : Pools) (i : Nat) : 0 ∉ pools.variableNames i := by
  rcases pools.variableNames_eq i with ⟨rand, r, hname⟩
  rw [hname]
  exact zero_not_mem_secureRandomName _ _

theorem zero_not_mem_stringPool (pools : Pools) (i : Nat) : 0 ∉ pools.stringPool i := by
  rcases pools.stringPool_eq i with ⟨rand, r, hname⟩
  rw [hname]
  exact zero_not_mem_secureRandomName _ _

theorem zero_not_mem_formatInt (n : Int) : (0 : UInt8) ∉ formatInt n := by
  unfold formatInt formatInt64
  split
  · exact List.not_mem_cons_of_ne_of_not_mem (by decide) (zero_not_mem_dec _)
  · exact zero_not_mem_dec _

section Moves

variable {config : Config} {pools : Pools} {rand : Draws} {s : PassState} {c : UInt8} {t : CString}

theorem zero_not_mem_head (h : 0 ∉ c :: t) : 0 ∉ [c] := fun hmem =>
  h (List.mem_singleton.1 hmem ▸ List.mem_cons_self)

theorem zero_not_mem_condition (h : 0 ∉ c :: t) (n : Nat) : 0 ∉ (t.drop 3).take n := fun hmem =>
  h (List.mem_cons_of_mem c (List.mem_of_mem_drop (List.mem_of_mem_take hmem)))

theorem zero_not_mem_polymorphicMove (h : 0 ∉ c :: t) : 0 ∉ (polymorphicMove s c t).out := by
  have hc := zero_not_mem_head h
  have hif : (0 : UInt8) ∉ ascii "if ((" ∧ (0 : UInt8) ∉ ascii " += 1" ∧
      (0 : UInt8) ∉ ascii " -= 1" := by decide
  unfold polymorphicMove
  split
  · exact hif.1
  split
  · exact hif.2.1
  split
  · exact hif.2.2
  split
  · split
    · exact hc
    · next loopEnd _ =>
        have hloop : 0 ∉ loopTemp (c :: t) loopEnd := fun hmem =>
          h (List.mem_of_mem_drop (List.mem_of_mem_take hmem))
        simp only [List.mem_append, hloop, or_false]
        decide
  · exact hc

theorem zero_not_mem_metamorphicMove (h : 0 ∉ c :: t) : 0 ∉ (metamorphicMove rand s c t).out := by
  have hc := zero_not_mem_head h
  have hvalue : 0 ∉ returnValue t := fun hmem => h (List.mem_cons_of_mem c
    (List.mem_of_mem_drop ((List.takeWhile_prefix _).subset hmem)))
  unfold metamorphicMove
  split
  · split
    · simp only [List.mem_append, zero_not_mem_dec, or_false]
      decide
    · exact hc
  split
  · simp only [List.mem_append, zero_not_mem_dec, hvalue, or_false]
    decide
  · exact hc

theorem zero_not_mem_stringMove (h : 0 ∉ c :: t) (hend : ¬ (c = 34 ∧ t = [])) :
    0 ∉ (stringMove config.level pools rand s c t).out := by
  have hc := zero_not_mem_head h
  unfold stringMove
  split
  · next hquote =>
      split
      · next n _ =>
          have hcontent : 0 ∉ t.take n := fun hmem => h (List.mem_cons_of_mem c
            (List.mem_of_mem_take hmem))
          dsimp only [obfuscatedLiteral]
          split
          · have hnumbers : 0 ∉ (t.take n).flatMap fun c => dec (obfuscated c) ++ ascii "," := by
              simp only [List.mem_flatMap, List.mem_append, zero_not_mem_dec, false_or, not_exists]
              exact fun _ hcomma => absurd hcomma.2 (by decide)
            simp only [encryptedLiteral, List.mem_append, zero_not_mem_dec, hnumbers, or_false]
            decide
          split
          · simp only [List.mem_append, zero_not_mem_stringPool, or_false]
            decide
          · simp only [List.mem_append, hcontent, or_false]
            decide
      · cases t with
        | nil => exact absurd ⟨hquote, rfl⟩ hend
        | cons d t => exact zero_not_mem_head (List.not_mem_of_not_mem_cons h)
  · exact hc

theorem zero_not_mem_braceOrCopy {b : UInt8} (hb : b ≠ 0) : 0 ∉ braceOrCopy b := by
  unfold braceOrCopy
  split
  · decide
  · exact fun hmem => hb (List.mem_singleton.1 hmem).symm

/-- The character behind an `if (` whose parenthesis is not closed. -/
theorem headD_ne_zero (h : 0 ∉ c :: t) (hif : ascii "if (" <+: c :: t)
    (hend : c :: t ≠ ascii "if (") : (t.drop 3).headD 0 ≠ 0 := by
  have htext := cons_eq_if_append hif
  cases hrest : t.drop 3 with
  | nil =>
      rw [hrest, List.append_nil] at htext
      exact absurd htext hend
  | cons b rest =>
      intro hzero
      have hb : b = 0 := hzero
      have hmem : b ∈ t.drop 3 := hrest ▸ List.mem_cons_self
      exact h (List.mem_cons_of_mem c (List.mem_of_mem_drop (hb ▸ hmem)))

theorem zero_not_mem_flattenMove (h : 0 ∉ c :: t) (hend : c :: t ≠ ascii "if (") :
    0 ∉ (flattenMove s c t).out := by
  unfold flattenMove
  split
  · next hif =>
      split
      · next n _ =>
          have hcondition := zero_not_mem_condition h (n - 1)
          simp only [flattenedIf, List.mem_append, zero_not_mem_dec, hcondition, or_false,
            List.range_succ, List.range_zero, List.nil_append, List.singleton_append,
            List.flatMap_cons, List.flatMap_nil, List.append_nil]
          decide
      · exact zero_not_mem_braceOrCopy (headD_ne_zero h hif hend)
  · exact zero_not_mem_braceOrCopy fun hc => h (hc ▸ List.mem_cons_self)

theorem zero_not_mem_opaqueMove (h : 0 ∉ c :: t) (hend : c :: t ≠ ascii "if (") :
    0 ∉ (opaqueMove pools rand s c t).out := by
  unfold opaqueMove
  split
  · next hif =>
      split
      · next n _ =>
          have hcondition := zero_not_mem_condition h (n - 1)
          simp only [opaqueCondition, List.mem_append, zero_not_mem_dec,
            zero_not_mem_variableName, hcondition, or_false]
          decide
      · exact fun hmem => headD_ne_zero h hif hend (List.mem_singleton.1 hmem).symm
  · exact zero_not_mem_head h

theorem zero_not_mem_arithmeticFormat (method : Nat) : 0 ∉ arithmeticFormat method := by
  unfold arithmeticFormat
  split <;> decide

theorem zero_not_mem_arithmeticMove (h : 0 ∉ c :: t) : 0 ∉ (arithmeticMove rand s c t).out := by
  have hnumber : 0 ∉ numStr c t := fun hmem => h
    ((List.mem_cons.1 hmem).elim (fun hc => hc ▸ List.mem_cons_self)
      fun hmem => List.mem_cons_of_mem c ((List.takeWhile_prefix _).subset hmem))
  unfold arithmeticMove
  split
  · dsimp only
    split
    · intro hmem
      rcases mem_sprintf hmem with hmem | ⟨a, ha, hmem⟩
      · exact zero_not_mem_arithmeticFormat _ hmem
      · rcases List.mem_map.1 ha with ⟨n, _, rfl⟩
        exact zero_not_mem_formatInt n hmem
    · exact hnumber
  · exact zero_not_mem_head h

end Moves

/-! ### Passes over the whole text -/

theorem skipIncludes_suffix (text : CString) : ∀ inside, skipIncludes inside text <:+ text := by
  induction text with
  | nil =>
      intro inside
      cases inside <;> exact List.suffix_rfl
  | cons c t ih =>
      intro inside
      cases inside with
      | true =>
          rw [skipIncludes]
          split
          · exact (ih false).trans (List.suffix_cons c t)
          · exact (ih true).trans (List.suffix_cons c t)
      | false =>
          rw [skipIncludes]
          split
          · exact (ih true).trans (List.suffix_cons c t)
          · exact List.suffix_rfl

theorem zero_not_mem_importObfuscation {text : CString} (h : 0 ∉ text) :
    0 ∉ importObfuscation text := by
  have hheaders : 0 ∉ obfuscatedHeaders := by decide +kernel
  have hrest : 0 ∉ skipIncludes false text := fun hmem =>
    h ((skipIncludes_suffix text false).subset hmem)
  simp only [importObfuscation, List.mem_append, hheaders, hrest, or_false, not_false_eq_true]

theorem zero_not_mem_antiDebugFunctions {text : CString} (h : 0 ∉ text) :
    0 ∉ antiDebugFunctions text := by
  have hcode : 0 ∉ antiDebugCode := by decide +kernel
  have hhead : 0 ∉ mainHead := by decide +kernel
  unfold antiDebugFunctions
  split
  · next mainPos _ =>
      have hfront : 0 ∉ text.take mainPos := fun hmem => h (List.mem_of_mem_take hmem)
      have hback : 0 ∉ behindBrace (text.drop mainPos) := fun hmem => h (List.mem_of_mem_drop
        ((List.dropWhile_suffix _).subset (List.mem_of_mem_drop hmem)))
      simp only [List.mem_append, hcode, hhead, hfront, hback, or_false, not_false_eq_true]
  · simp only [List.mem_append, hcode, h, or_false, not_false_eq_true]

theorem exists_digit_of_mem_toDigits {n : Nat} {c : Char} (h : c ∈ Nat.toDigits 16 n) :
    ∃ d < 16, c = Nat.digitChar d := by
  induction n using Nat.strong_induction_on with
  | _ n ih =>
      rcases Nat.lt_or_ge n 16 with hsmall | hlarge
      · rw [Nat.toDigits_of_lt_base hsmall, List.mem_singleton] at h
        exact ⟨n, hsmall, h⟩
      · rw [← Nat.div_add_mod n 16, ← Nat.toDigits_append_toDigits (by decide) (by omega)
          (Nat.mod_lt n (by decide))] at h
        rcases List.mem_append.1 h with h | h
        · exact ih (n / 16) (by omega) h
        · rw [Nat.toDigits_of_lt_base (Nat.mod_lt n (by decide)), List.mem_singleton] at h
          exact ⟨n % 16, Nat.mod_lt n (by decide), h⟩

theorem zero_not_mem_formatHex (n : Nat) : (0 : UInt8) ∉ formatHex n := by
  have hdigits : ∀ d < 16, (Nat.digitChar d).toNat.toUInt8 ≠ 0 := by decide
  intro h
  rcases List.mem_map.1 h with ⟨c, hc, hzero⟩
  rcases exists_digit_of_mem_toDigits hc with ⟨d, hd, rfl⟩
  exact hdigits d hd hzero

theorem zero_not_mem_formatTenths (n : Nat) : (0 : UInt8) ∉ formatTenths n := by
  simp only [formatTenths, List.mem_append, zero_not_mem_dec, or_false]
  decide

theorem zero_not_mem_deadCodeOperands {r : Nat → Nat} {method : Nat} :
    ∀ a ∈ deadCodeOperands r method, 0 ∉ a := by
  unfold deadCodeOperands
  split <;>
    (simp only [List.forall_mem_cons, List.not_mem_nil, false_implies, implies_true, and_true]
     and_intros <;>
       first
         | exact zero_not_mem_dec _
         | exact zero_not_mem_formatHex _
         | exact zero_not_mem_formatTenths _)

theorem zero_not_mem_deadCodeFormat (method : Nat) : 0 ∉ deadCodeFormat method := by
  unfold deadCodeFormat
  split <;> decide +kernel

theorem zero_not_mem_deadCodeInjection {rand : Draws} {used : Nat} {text : CString}
    (h : 0 ∉ text) : 0 ∉ (deadCodeInjection rand used text).1 := by
  unfold deadCodeInjection
  split
  · exact List.not_mem_nil
  split
  · intro hmem
    rcases List.mem_append.1 hmem with hmem | hmem
    · exact h hmem
    · rcases mem_sprintf hmem with hmem | ⟨a, ha, hmem⟩
      · exact zero_not_mem_deadCodeFormat _ hmem
      · exact zero_not_mem_deadCodeOperands a ha hmem
  · exact h

/-! ## The copy back -/

/-- The round copies the terminator of the content, behind a construct that is not complete. -/
def Pass.CopiesEnd (c : UInt8) (t : CString) : Pass → Prop
  | strings => c = 34 ∧ t = []
  | flattening => c :: t = ascii "if ("
  | predicates => c :: t = ascii "if ("
  | _ => False

instance (c : UInt8) (t : CString) : ∀ pass : Pass, Decidable (pass.CopiesEnd c t)
  | .strings => inferInstanceAs (Decidable (_ ∧ _))
  | .flattening => inferInstanceAs (Decidable (_ = _))
  | .predicates => inferInstanceAs (Decidable (_ = _))
  | .imports => isFalse id
  | .polymorphic => isFalse id
  | .metamorphic => isFalse id
  | .antiDebug => isFalse id
  | .arithmetic => isFalse id
  | .deadCode => isFalse id

section Room

variable (config : Config) (pools : Pools) (rand : Draws)

namespace Stage

variable (stage : Stage)

/-- What `strcpy` copies back: the result up to its first terminator. -/
def copied : CString :=
  (stage.ending config pools rand).out.takeWhile (· ≠ 0)

/-- All writes of the pass stay inside: the copies to fixed arrays, what it appends to `result`, and
the copy from there to the `length` bytes and the terminator of the content. -/
def Inside (length : Nat) : Prop :=
  (∀ slice ∈ stage.slices config pools rand, slice.length ≤ slice.size) ∧
    (stage.ending config pools rand).out.length + 1 ≤ stage.pass.resultSize ∧
    ((stage.ending config pools rand).stopped = true →
      (stage.copied config pools rand).length + 1 ≤ length + 1)

/-- How many characters the pass writes in front of the first terminator that it copies. -/
def writtenBack : Nat :=
  match stage.pass.move config pools rand with
  | some _ =>
      (((stage.rounds config pools rand).takeWhile fun r =>
        ¬ stage.pass.CopiesEnd r.2.1 r.2.2).map fun r =>
          stage.pass.cost config pools rand r.1 r.2.1 r.2.2).sum
  | none => stage.written config pools rand

/-- The slices are short enough, and there is room for what the pass writes: in `result`, and in
the file's length for what is copied back, unless the pass runs off the memory. -/
def HasRoom (length : Nat) : Prop :=
  (∀ r ∈ stage.rounds config pools rand, stage.pass.RoundFits r.2.1 r.2.2) ∧
    stage.written config pools rand < stage.pass.resultSize ∧
    ((stage.ending config pools rand).stopped = true →
      stage.writtenBack config pools rand ≤ length)

end Stage

end Room

section Lemmas

variable {config : Config} {pools : Pools} {rand : Draws}

/-- Where the terminator is copied, nothing else is. -/
theorem out_of_copiesEnd {pass : Pass} {move : PassState → UInt8 → CString → Round}
    (hmove : pass.move config pools rand = some move) {s : PassState} {c : UInt8} {t : CString}
    (h : pass.CopiesEnd c t) : (move s c t).out = [0] := by
  cases pass <;> cases hmove
  case strings =>
    rcases h with ⟨rfl, rfl⟩
    rfl
  case flattening =>
    cases h
    rfl
  case predicates =>
    cases h
    rfl
  all_goals cases h

theorem zero_not_mem_of_not_copiesEnd {pass : Pass}
    {move : PassState → UInt8 → CString → Round}
    (hmove : pass.move config pools rand = some move) {s : PassState} {c : UInt8} {t : CString}
    (htext : 0 ∉ c :: t) (h : ¬ pass.CopiesEnd c t) : 0 ∉ (move s c t).out := by
  cases pass <;> cases hmove
  case polymorphic => exact zero_not_mem_polymorphicMove htext
  case metamorphic => exact zero_not_mem_metamorphicMove htext
  case strings => exact zero_not_mem_stringMove htext h
  case flattening => exact zero_not_mem_flattenMove htext h
  case predicates => exact zero_not_mem_opaqueMove htext h
  case arithmetic => exact zero_not_mem_arithmeticMove htext

/-- A pass with rounds scans the content. -/
theorem run_of_move {pass : Pass} {move : PassState → UInt8 → CString → Round}
    (hmove : pass.move config pools rand = some move) (henabled : pass.enabled config = true)
    (used : Nat) (mem : Bytes) : pass.run config pools rand used mem =
      scan move 0 0 { used := used, counter := 0 } mem := by
  have hrun : pass.run config pools rand used mem =
      runPass (pass.enabled config) move used mem := by
    cases pass <;> cases hmove <;> rfl
  rw [hrun, henabled]
  rfl

/-- The passes without rounds write no terminator. -/
theorem zero_not_mem_of_move_eq_none {pass : Pass} (hmove : pass.move config pools rand = none)
    {used : Nat} {mem : Bytes} : 0 ∉ (pass.run config pools rand used mem).out := by
  have htext : (0 : UInt8) ∉ mem.takeWhile (· ≠ 0) := fun hmem => by
    simpa using List.mem_takeWhile_imp hmem
  cases pass <;> cases hmove
  case imports => exact zero_not_mem_importObfuscation htext
  case antiDebug => exact zero_not_mem_antiDebugFunctions htext
  case deadCode => exact zero_not_mem_deadCodeInjection htext

/-- What is copied back is as long as the rounds in front of the first terminator cost. -/
theorem Stage.length_copied (stage : Stage) (henabled : stage.pass.enabled config = true) :
    (stage.copied config pools rand).length = stage.writtenBack config pools rand := by
  rw [Stage.writtenBack]
  cases hmove : stage.pass.move config pools rand with
  | none =>
      have hcopied : stage.copied config pools rand = (stage.ending config pools rand).out := by
        refine List.takeWhile_eq_self_iff.2 fun c hc => decide_eq_true ?_
        rintro rfl
        exact zero_not_mem_of_move_eq_none hmove hc
      rw [hcopied]
      exact stage.length_ending henabled
  | some move =>
      have hrounds : stage.rounds config pools rand = passRounds move stage.used stage.mem := by
        rw [Stage.rounds, hmove]
      have hout : (stage.ending config pools rand).out =
          (stage.rounds config pools rand).flatMap (given move) := by
        rw [Stage.ending, run_of_move hmove henabled, hrounds]
        exact scan_out 0
      have hcopied := @takeWhile_flatMap _ _ _ (0 : UInt8) (given move)
        (fun r => stage.pass.CopiesEnd r.2.1 r.2.2) _ (stage.rounds config pools rand)
        (fun r hr hend => by
          rw [hrounds] at hr
          rcases not_stop_of_mem_rounds hr with ⟨hc, ht⟩
          exact zero_not_mem_of_not_copiesEnd hmove
            (List.not_mem_cons_of_ne_of_not_mem hc.symm ht) hend)
        (fun r _ hend => out_of_copiesEnd hmove hend)
      dsimp only
      rw [Stage.copied, hout, hcopied, List.length_flatMap]
      simp only [given, length_move hmove]

/-- A pass writes inside its buffers exactly when there is room. -/
theorem Stage.inside_iff_hasRoom (stage : Stage) (henabled : stage.pass.enabled config = true)
    {length : Nat} :
    stage.Inside config pools rand length ↔ stage.HasRoom config pools rand length := by
  unfold Stage.Inside Stage.HasRoom
  rw [stage.slices_fit_iff, stage.length_ending henabled, stage.length_copied henabled,
    Nat.succ_le_iff, Nat.succ_le_succ_iff]

theorem pass_mem_of_mem_stages {heap : Nat → Bytes} {stage : Stage} :
    ∀ {ps : List Pass} {used : Nat} {buffer : Bytes},
      stage ∈ stages config pools rand heap ps used buffer → stage.pass ∈ ps := by
  intro ps
  induction ps with
  | nil =>
      intro used buffer h
      cases h
  | cons p ps ih =>
      intro used buffer h
      rcases List.mem_cons.1 h with rfl | h
      · exact List.mem_cons_self
      · split at h
        · exact List.mem_cons_of_mem p (ih h)
        · cases h

theorem length_overwrite {buffer : Bytes} {result : CString}
    (h : (result.takeWhile (· ≠ 0)).length + 1 ≤ buffer.length) :
    (overwrite buffer result).length = buffer.length := by
  simp only [overwrite, List.length_append, List.length_cons, List.length_drop]
  omega

/-- As long as all writes stay inside, every pass finds a terminated string in a buffer of the size
that was allocated. -/
theorem exists_buffer_of_mem_stages {heap : Nat → Bytes} {length : Nat} {stage : Stage} :
    ∀ {ps : List Pass} {used : Nat} {buffer : Bytes}, buffer.length = length + 1 → 0 ∈ buffer →
      (∀ stage ∈ stages config pools rand heap ps used buffer,
        stage.Inside config pools rand length) →
      stage ∈ stages config pools rand heap ps used buffer →
        ∃ buffer behind, stage.mem = buffer ++ behind ∧ buffer.length = length + 1 ∧
          0 ∈ buffer := by
  intro ps
  induction ps with
  | nil =>
      intro used buffer _ _ _ h
      cases h
  | cons p ps ih =>
      intro used buffer hlength hzero hinside h
      have hfirst := hinside _ List.mem_cons_self
      rcases List.mem_cons.1 h with rfl | h
      · exact ⟨buffer, heap ps.length, rfl, hlength, hzero⟩
      · split at h
        · next hstopped =>
            have hfits : ((p.run config pools rand used
                (buffer ++ heap ps.length)).out.takeWhile (· ≠ 0)).length + 1 ≤ buffer.length :=
              hlength ▸ hfirst.2.2 hstopped
            refine ih ((length_overwrite hfits).trans hlength) ?_ ?_ h
            · exact List.mem_append_right _ List.mem_cons_self
            · intro later hlater
              refine hinside later (List.mem_cons_of_mem _ ?_)
              rw [if_pos hstopped]
              exact hlater
        · cases h

end Lemmas

/-! ## The whole obfuscation -/

section Obfuscation

variable (config : Config) (pools : Pools) (rand : Draws) (heap : Nat → Bytes) (file : Bytes)

/-- Every write of every pass stays inside its buffer. -/
def BuffersSuffice : Prop :=
  ∀ stage ∈ obfuscateCodeAdvanced config pools rand heap file,
    stage.Inside config pools rand file.length

/-- The buffers suffice exactly when every pass that runs finds room for what it writes. -/
theorem buffersSuffice_iff :
    BuffersSuffice config pools rand heap file ↔
      ∀ stage ∈ obfuscateCodeAdvanced config pools rand heap file,
        stage.HasRoom config pools rand file.length := by
  refine forall₂_congr fun stage hstage => stage.inside_iff_hasRoom ?_
  exact (List.mem_filter.1 (pass_mem_of_mem_stages hstage)).2

/-- Without any switch there are two passes. -/
theorem obfuscateCodeAdvanced_plain :
    obfuscateCodeAdvanced (nothing .normal) pools rand heap file =
      [{ pass := .imports, used := 0, mem := file ++ [0] ++ heap 1 },
        { pass := .antiDebug, used := 0
          mem := overwrite (file ++ [0])
            (importObfuscation ((file ++ [0] ++ heap 1).takeWhile (· ≠ 0))) ++ heap 0 }] :=
  rfl

/-- Of a file of NULs, of which nothing is obfuscated, 1235 bytes suffice for the added code. -/
theorem buffersSuffice_zeros :
    BuffersSuffice (nothing .normal) zeroPools (.rightToLeft id) (fun _ => [])
      (List.replicate 1235 0) := by
  refine (buffersSuffice_iff _ zeroPools (.rightToLeft id) _ (List.replicate 1235 0)).2 ?_
  intro stage hstage
  rw [obfuscateCodeAdvanced_plain] at hstage
  rcases List.mem_cons.1 hstage with rfl | hstage
  · refine ⟨fun _ hr => absurd hr List.not_mem_nil, ?_, fun _ => ?_⟩
    · decide +kernel
    · decide +kernel
  · rcases List.mem_singleton.1 hstage with rfl
    refine ⟨fun _ hr => absurd hr List.not_mem_nil, ?_, fun _ => ?_⟩
    · decide +kernel
    · decide +kernel

theorem takeWhile_append_zero (rest : Bytes) :
    ∀ file : Bytes, (file ++ [0] ++ rest).takeWhile (· ≠ 0) = file.takeWhile (· ≠ 0)
  | [] => by simp
  | b :: file => by
      rw [List.cons_append, List.cons_append, List.takeWhile_cons, List.takeWhile_cons,
        takeWhile_append_zero rest file]

/-- No file suffices whose `#include` lines are shorter than the headers put in their place,
whatever is switched on. -/
theorem headers_fit (h : BuffersSuffice config pools rand heap file) :
    699 + (skipIncludes false (file.takeWhile (· ≠ 0))).length ≤ file.length := by
  have himports := h _ List.mem_cons_self
  have hcopied := Nat.le_of_succ_le_succ (himports.2.2 rfl)
  rw [Stage.length_copied _ rfl] at hcopied
  rw [← takeWhile_append_zero _ file]
  exact hcopied

/-- The headers alone overflow the single byte that an empty file gets. -/
theorem not_buffersSuffice_empty :
    ¬ BuffersSuffice (everything .quantum) zeroPools (.rightToLeft id) (fun _ => []) [] := by
  intro h
  have hfit := headers_fit _ _ _ _ _ h
  exact absurd hfit (by decide)

end Obfuscation

end Obfuscator
end FileExchange
