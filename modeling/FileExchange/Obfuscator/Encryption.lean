import FileExchange.Obfuscator.Arrays

/-!
# Obfuscator.Encryption — reading an encrypted string literal back

* `recoverContent`            : the bytes behind `__DECRYPT_STRk(n1,...,nm,0)`;
* `recover_encryptedLiteral`  : they are those of the literal;
* `EncryptsReversibly`        : the result of the pass has such a text for every literal.
-/

namespace FileExchange
namespace Obfuscator

open Lib Lib.Scanner

/-- The byte that was obfuscated to a number. -/
def deobfuscated (n : Nat) : UInt8 :=
  ((n / 0x4D - 0x29) ^^^ 0xAA).toUInt8

/-- The numbers between the parenthesis and the last comma, each turned back into its byte. -/
def recoverContent (emitted : CString) : CString :=
  ((((emitted.dropWhile (· ≠ 40)).drop 1).splitOn 44).dropLast).map fun numeral =>
    deobfuscated (Decimal.ofBytes numeral)

/-! ## One byte -/

@[simp] theorem deobfuscated_obfuscated (c : UInt8) : deobfuscated (obfuscated c) = c := by
  have hstep : obfuscated c / 0x4D - 0x29 = c.toNat ^^^ 0xAA := by
    rw [obfuscated, Nat.mul_div_cancel _ (by decide), Nat.add_sub_cancel]
  rw [deobfuscated, hstep, Nat.xor_assoc, Nat.xor_self, Nat.xor_zero]
  exact UInt8.ofNat_toNat

/-! ## A literal -/

/-- The numbers of a list of bytes, and the terminator. -/
theorem splitOn_obfuscated (content : CString) :
    (content.flatMap (fun c => dec (obfuscated c) ++ ascii ",") ++ ascii "0)").splitOn 44 =
      content.map (fun c => dec (obfuscated c)) ++ [ascii "0)"] := by
  induction content with
  | nil =>
      exact List.splitOn_eq_singleton (by decide)
  | cons c content ih =>
      rw [List.flatMap_cons, List.append_assoc, List.append_assoc, List.map_cons, List.cons_append,
        ← ih]
      exact List.splitOn_append_cons_self_of_not_mem (not_mem_dec (by decide) _) _

theorem recover_encryptedLiteral (k : Nat) (content : CString) :
    recoverContent (encryptedLiteral k content) = content := by
  have hname : ∀ b ∈ ascii "__DECRYPT_STR" ++ dec k, decide (b ≠ 40) = true := by
    intro b hb
    refine decide_eq_true ?_
    rintro rfl
    rcases List.mem_append.1 hb with hb | hb
    · exact absurd hb (by decide)
    · exact not_mem_dec (by decide) k hb
  have hbody : ((encryptedLiteral k content).dropWhile (· ≠ 40)).drop 1 =
      content.flatMap (fun c => dec (obfuscated c) ++ ascii ",") ++ ascii "0)" := by
    rw [encryptedLiteral, List.append_assoc, List.append_assoc,
      List.dropWhile_append_of_pos hname]
    rfl
  rw [recoverContent, hbody, splitOn_obfuscated, List.dropLast_concat, List.map_map]
  simp [Function.comp_def, dec]

/-! ## The literals of a content -/

/-- The content of the literal that a round comes to, if there is one. -/
def literalAt (r : PassRound) : Option CString :=
  if r.2.1 = 34 then (literalEnd 34 r.2.2).map fun n => r.2.2.take n else none

def literalContents (rounds : List PassRound) : List CString :=
  rounds.filterMap literalAt

theorem literalAt_eq_some {r : PassRound} {content : CString} :
    literalAt r = some content ↔
      r.2.1 = 34 ∧ ∃ n, literalEnd 34 r.2.2 = some n ∧ r.2.2.take n = content := by
  unfold literalAt
  split
  · next hc => simp [hc]
  · next hc => simp [hc]

/-- The array for a literal is large enough for contents of up to 2045 bytes. -/
theorem roundFits_strings_iff (r : PassRound) :
    Pass.strings.RoundFits r.2.1 r.2.2 ↔ ∀ content ∈ literalAt r, content.length ≤ 2045 := by
  have htake : ∀ n, literalEnd 34 r.2.2 = some n → (r.2.2.take n).length = n := fun n hn => by
    rw [List.length_take, Nat.min_eq_left (literalEnd_lt hn).le]
  constructor
  · intro hfits content hcontent
    rcases literalAt_eq_some.1 hcontent with ⟨hc, n, hn, rfl⟩
    rw [htake n hn]
    exact hfits hc n hn
  · intro hshort hc n hn
    rw [← htake n hn]
    exact hshort _ (literalAt_eq_some.2 ⟨hc, n, hn, rfl⟩)

section Strings

variable (config : Config) (pools : Pools) (rand : Draws) (used : Nat) (mem : Bytes)

/-- For each literal that the pass comes to, there stands in `result` in its place what its content
can be read back from; no two contents are written alike, no byte is written as the terminator, and
no arithmetic leaves the range of `int`. -/
def EncryptsReversibly : Prop :=
  (∀ earlier r later content,
    (Stage.mk .strings used mem).rounds config pools rand = earlier ++ r :: later →
    literalAt r = some content →
      ∃ k, (Stage.mk .strings used mem).output config pools rand =
          some (earlier.flatMap (given (stringMove config.level pools rand)) ++
            encryptedLiteral k content ++
            later.flatMap (given (stringMove config.level pools rand))) ∧
        recoverContent (encryptedLiteral k content) = content) ∧
    (∀ k k' content content', encryptedLiteral k content = encryptedLiteral k' content' →
      content = content') ∧
    ∀ c : UInt8, c.toNat ^^^ 0xAA ≤ 2147483647 ∧ (c.toNat ^^^ 0xAA) + 0x29 ≤ 2147483647 ∧
      obfuscated c ≤ 2147483647 ∧ obfuscated c ≠ 0

variable {config pools rand used mem}

/-- The arrays of the pass. -/
theorem safe_strings_iff (henabled : config.enableStringObfuscation = true) :
    (Stage.mk .strings used mem).Safe config pools rand ↔
      (∀ content ∈ literalContents ((Stage.mk .strings used mem).rounds config pools rand),
        content.length ≤ 2045) ∧
      (Stage.mk .strings used mem).written config pools rand < 2 ^ 21 := by
  rw [Stage.safe_iff (Stage.mk .strings used mem) henabled]
  refine and_congr ?_ Iff.rfl
  simp only [literalContents, List.forall_mem_filterMap]
  exact forall₂_congr fun r _ => roundFits_strings_iff r

theorem given_literal (hlevel : Level.extreme.toNat ≤ config.level.toNat) {r : PassRound}
    {content : CString} (hcontent : literalAt r = some content) :
    given (stringMove config.level pools rand) r =
      encryptedLiteral (rand r.1.used % 1000) content := by
  rcases literalAt_eq_some.1 hcontent with ⟨hc, n, hn, rfl⟩
  simp [given, stringMove, hc, hn, obfuscatedLiteral, hlevel]

/-- A content that begins with a literal. -/
theorem exists_rounds_literal {t : CString} {n : Nat} (beyond : Bytes) (ht : 0 ∉ t)
    (hn : literalEnd 34 t = some n) :
    ∃ r later, (Stage.mk .strings used (34 :: (t ++ 0 :: beyond))).rounds config pools rand =
      r :: later ∧ literalAt r = some (t.take n) := by
  let move := stringMove config.level pools rand
  let s : PassState := { used := used, counter := 0 }
  refine ⟨(s, 34, t), Scanner.rounds move 0 (move s 34 t).extra (move s 34 t).state
    (t ++ 0 :: beyond), ?_, literalAt_eq_some.2 ⟨rfl, n, hn, rfl⟩⟩
  change Scanner.rounds move 0 0 s (34 :: (t ++ 0 :: beyond)) = _
  rw [Scanner.rounds, if_neg (by decide), takeWhile_text ht]

end Strings

/-- From the level `OBFUSCATION_EXTREME` on, the literals can be read back from the result exactly
when there is none, or all are short enough and the results fit. -/
theorem string_encryption_reversible_iff (config : Config) (pools : Pools) (rand : Draws)
    (used : Nat) (mem : Bytes) (hlevel : Level.extreme.toNat ≤ config.level.toNat)
    (henabled : config.enableStringObfuscation = true) :
    EncryptsReversibly config pools rand used mem ↔
      literalContents ((Stage.mk .strings used mem).rounds config pools rand) = [] ∨
        (((Stage.mk .strings used mem).ending config pools rand).stopped = true ∧
          (∀ content ∈ literalContents ((Stage.mk .strings used mem).rounds config pools rand),
            content.length ≤ 2045) ∧
          (Stage.mk .strings used mem).written config pools rand < 2 ^ 21) := by
  have houtput : ∀ out, (Stage.mk .strings used mem).output config pools rand = some out ↔
      (((Stage.mk .strings used mem).Safe config pools rand ∧
        ((Stage.mk .strings used mem).ending config pools rand).stopped = true) ∧
        ((Stage.mk .strings used mem).ending config pools rand).out = out) := by
    intro out
    rw [Stage.output_eq_some]
    exact and_congr_left fun _ => forall_prop_of_true henabled
  rw [← safe_strings_iff henabled, and_comm (b := Stage.Safe _ _ _ _)]
  constructor
  · rintro ⟨hread, -, -⟩
    rw [or_iff_not_imp_left]
    intro hliteral
    rcases List.exists_mem_of_ne_nil _ hliteral with ⟨content, hmem⟩
    rcases List.mem_filterMap.1 hmem with ⟨r, hr, hcontent⟩
    rcases List.append_of_mem hr with ⟨earlier, later, hrounds⟩
    rcases hread earlier r later content hrounds hcontent with ⟨k, hout, -⟩
    exact ((houtput _).1 hout).1
  · intro hfits
    refine ⟨?_, ?_, ?_⟩
    · intro earlier r later content hrounds hcontent
      refine ⟨rand r.1.used % 1000, ?_, recover_encryptedLiteral _ _⟩
      have hmem : content ∈
          literalContents ((Stage.mk .strings used mem).rounds config pools rand) := by
        refine List.mem_filterMap.2 ⟨r, ?_, hcontent⟩
        rw [hrounds]
        exact List.mem_append_right earlier List.mem_cons_self
      refine (houtput _).2 ⟨hfits.resolve_left (List.ne_nil_of_mem hmem), ?_⟩
      have hscan : ((Stage.mk .strings used mem).ending config pools rand).out =
          ((Stage.mk .strings used mem).rounds config pools rand).flatMap
            (given (stringMove config.level pools rand)) := by
        change (runPass config.enableStringObfuscation _ used mem).out = _
        rw [runPass, if_pos henabled]
        exact scan_out 0
      rw [hscan, hrounds, List.flatMap_append, List.flatMap_cons, given_literal hlevel hcontent,
        List.append_assoc]
    · intro k k' content content' heq
      rw [← recover_encryptedLiteral k content, heq, recover_encryptedLiteral]
    · intro c
      have hbounds := obfuscated_bounds c
      omega

theorem string_encryption_reversible_abc :
    EncryptsReversibly (everything .quantum) zeroPools (.rightToLeft id) 7
      (ascii "puts(\"abc\");" ++ [0]) :=
  (string_encryption_reversible_iff (everything .quantum) zeroPools (.rightToLeft id) 7
    (ascii "puts(\"abc\");" ++ [0]) (by decide) rfl).2
    (Or.inr ⟨by decide +kernel, by decide +kernel, by decide +kernel⟩)

theorem literalEnd_replicate (n : Nat) (rest : CString) :
    ∀ before, before ≠ 92 → literalEnd before (List.replicate n 97 ++ 34 :: rest) = some n := by
  induction n with
  | zero =>
      intro before hbefore
      simp [literalEnd, hbefore]
  | succ n ih =>
      intro before _
      rw [List.replicate_succ, List.cons_append, literalEnd,
        if_neg (fun h => absurd h.1 (by decide)), ih 97 (by decide), Option.map_some]

/-- The terminator behind a literal with 2046 characters goes past its array. -/
theorem long_literal_not_reversible :
    ¬ EncryptsReversibly (everything .extreme) zeroPools (.rightToLeft id) 0
      (34 :: (List.replicate 2046 97 ++ [34] ++ [0])) := by
  intro hread
  have htext : (0 : UInt8) ∉ List.replicate 2046 97 ++ [34] := fun h =>
    (List.mem_append.1 h).elim (fun h => absurd (List.eq_of_mem_replicate h) (by decide))
      (fun h => absurd h (by decide))
  rcases @exists_rounds_literal (everything .extreme) zeroPools (.rightToLeft id) 0 _ _ [] htext
    (literalEnd_replicate 2046 [] 34 (by decide)) with ⟨r, later, hrounds, hcontent⟩
  rw [List.take_left' List.length_replicate] at hcontent
  rcases hread.1 [] r later _ hrounds hcontent with ⟨k, hout, -⟩
  have hshort := ((safe_strings_iff rfl).1 ((Stage.output_eq_some.1 hout).1 rfl).1).1
    (List.replicate 2046 97)
    (List.mem_filterMap.2 ⟨r, by rw [hrounds]; exact List.mem_cons_self, hcontent⟩)
  rw [List.length_replicate] at hshort
  omega

end Obfuscator
end FileExchange
