import Mathlib.Data.List.Perm.Basic
import FileExchange.Journal

/-!
# Journal.FreshKey — the key that `get_next_proc_key` returns

The scan converts every key with `strtol` and looks at `errno`, which it never clears: one key
that is out of range makes it skip all keys behind it.

* `Denotes`      : what integer a key stands for;
* `scanKeys_spec` : what the scan returns when no key is out of range;
* `freshKey_iff` : when the next key is new, independent of the order, and above all others.
-/

namespace FileExchange

open Lib

/-! ## Keys that stand for integers -/

/-- White space, a sign or none, and digits to the end. -/
def Denotes (key : CString) (n : Int) : Prop :=
  ∃ blanks digits, (∀ b ∈ blanks, isSpace b = true) ∧ digits ≠ [] ∧
    (∀ b ∈ digits, Decimal.isDigit b = true) ∧
      (((key = blanks ++ digits ∨ key = blanks ++ 43 :: digits) ∧ n = Decimal.ofBytes digits) ∨
        (key = blanks ++ 45 :: digits ∧ n = -(Decimal.ofBytes digits : Int)))

/-- The keys that the scan takes into account: positive integers in the range of `long`. -/
def PositiveKey (key : CString) : Prop :=
  (strtol key).endptr = [] ∧ (strtol key).erange = false ∧ 0 < (strtol key).value

instance (key : CString) : Decidable (PositiveKey key) := by
  unfold PositiveKey
  infer_instance

section Keys

variable {key blanks digits : CString} {n : Int}

theorem dropWhile_isSpace_append (h : ∀ b ∈ blanks, isSpace b = true) {b : UInt8}
    (hb : isSpace b = false) (s : CString) :
    (blanks ++ b :: s).dropWhile isSpace = b :: s := by
  rw [List.dropWhile_append_of_pos h, List.dropWhile_cons_of_neg (by simp [hb])]

/-- `strtol` after white space and sign. -/
theorem strtol_eq {minus : Bool} {rest : CString}
    (h : strtolSign (key.dropWhile isSpace) = (minus, rest)) :
    ∃ n : Int, n = (if minus then -(Decimal.ofBytes (rest.takeWhile Decimal.isDigit) : Int)
          else Decimal.ofBytes (rest.takeWhile Decimal.isDigit)) ∧
      strtol key =
        if rest.takeWhile Decimal.isDigit = [] then { value := 0, endptr := key, erange := false }
        else if longMax < n then
          { value := longMax, endptr := rest.dropWhile Decimal.isDigit, erange := true }
        else if n < longMin then
          { value := longMin, endptr := rest.dropWhile Decimal.isDigit, erange := true }
        else { value := n, endptr := rest.dropWhile Decimal.isDigit, erange := false } := by
  refine ⟨_, rfl, ?_⟩
  simp only [strtol, h]

theorem strtol_value_le (key : CString) : (strtol key).value ≤ longMax := by
  rcases hsigned : strtolSign (key.dropWhile isSpace) with ⟨minus, rest⟩
  rcases strtol_eq hsigned with ⟨n, _, hstrtol⟩
  rw [hstrtol]
  split
  · exact show (0 : Int) ≤ longMax by decide
  · split
    · exact le_rfl
    · next hmax =>
        split
        · exact show longMin ≤ longMax by decide
        · exact not_lt.1 hmax

/-- What follows the white space decides. -/
theorem strtol_of_signed (minus : Bool) (hdigits : digits ≠ [])
    (hall : ∀ b ∈ digits, Decimal.isDigit b = true)
    (hsign : strtolSign (key.dropWhile isSpace) = (minus, digits))
    (hn : n = if minus then -(Decimal.ofBytes digits : Int) else Decimal.ofBytes digits)
    (hlow : longMin ≤ n) (hhigh : n ≤ longMax) :
    strtol key = { value := n, endptr := [], erange := false } := by
  have htake : digits.takeWhile Decimal.isDigit = digits := List.takeWhile_eq_self_iff.2 hall
  have hdrop : digits.dropWhile Decimal.isDigit = [] := List.dropWhile_eq_nil_iff.2 hall
  simp only [strtol, hsign, htake, hdrop, hdigits, if_false, ← hn, not_lt.2 hhigh, not_lt.2 hlow]

/-- `strtol` reads an integer in the range of `long` completely. -/
theorem strtol_of_denotes (h : Denotes key n) (hlow : longMin ≤ n) (hhigh : n ≤ longMax) :
    strtol key = { value := n, endptr := [], erange := false } := by
  rcases h with ⟨blanks, digits, hblanks, hdigits, hall, hkey⟩
  -- after the white space comes a sign, or the first digit
  cases digits with
  | nil =>
      exact absurd rfl hdigits
  | cons d ds =>
      have hd : Decimal.isDigit d = true := hall d (by simp)
      rcases hkey with ⟨hplain | hplus, hn⟩ | ⟨hminus, hn⟩
      · refine strtol_of_signed false hdigits hall ?_ hn hlow hhigh
        rw [hplain, dropWhile_isSpace_append hblanks (not_isSpace_of_isDigit hd),
          strtolSign_of_isDigit hd]
      · refine strtol_of_signed false hdigits hall ?_ hn hlow hhigh
        rw [hplus, dropWhile_isSpace_append hblanks (by decide)]
        rfl
      · refine strtol_of_signed true hdigits hall ?_ hn hlow hhigh
        rw [hminus, dropWhile_isSpace_append hblanks (by decide)]
        rfl

/-- What `strtol` reads completely, without an error and as a positive number. -/
theorem strtol_positive_cases (h : PositiveKey key) :
    ∃ digits, strtolSign (key.dropWhile isSpace) = (false, digits) ∧ digits ≠ [] ∧
      (∀ b ∈ digits, Decimal.isDigit b = true) ∧ (strtol key).value = Decimal.ofBytes digits := by
  rcases hsigned : strtolSign (key.dropWhile isSpace) with ⟨minus, rest⟩
  rcases strtol_eq hsigned with ⟨n, hn, hstrtol⟩
  rcases h with ⟨hend, herange, hpos⟩
  by_cases hdigits : rest.takeWhile Decimal.isDigit = []
  · rw [hstrtol, if_pos hdigits] at hpos
    exact absurd hpos (lt_irrefl 0)
  by_cases hmax : longMax < n
  · rw [hstrtol, if_neg hdigits, if_pos hmax] at herange
    cases herange
  by_cases hmin : n < longMin
  · rw [hstrtol, if_neg hdigits, if_neg hmax, if_pos hmin] at herange
    cases herange
  rw [if_neg hdigits, if_neg hmax, if_neg hmin] at hstrtol
  rw [hstrtol] at hend hpos ⊢
  -- the end pointer stands at the end, so everything is digits
  have hrest : rest.takeWhile Decimal.isDigit = rest := by
    have hsplit := List.takeWhile_append_dropWhile (p := Decimal.isDigit) (l := rest)
    rwa [show rest.dropWhile Decimal.isDigit = [] from hend, List.append_nil] at hsplit
  rw [hrest] at hn hdigits
  cases minus with
  | true =>
      rw [if_pos rfl] at hn
      dsimp only at hpos
      omega
  | false =>
      exact ⟨rest, rfl, hdigits, List.takeWhile_eq_self_iff.1 hrest, hn⟩

/-- A key that the scan takes into account denotes what `strtol` returns. -/
theorem denotes_of_positiveKey (h : PositiveKey key) : Denotes key (strtol key).value := by
  rcases strtol_positive_cases h with ⟨digits, hsigned, hdigits, hall, hvalue⟩
  have hblanks : ∀ b ∈ key.takeWhile isSpace, isSpace b = true := fun b hb =>
    List.mem_takeWhile_imp hb
  have hkey := List.takeWhile_append_dropWhile (p := isSpace) (l := key)
  rw [hvalue]
  refine ⟨key.takeWhile isSpace, digits, hblanks, hdigits, hall, Or.inl ⟨?_, rfl⟩⟩
  -- the sign, if there is one, is a plus
  cases hrest : key.dropWhile isSpace with
  | nil =>
      rw [hrest] at hsigned
      exact absurd (Prod.mk.inj hsigned).2.symm hdigits
  | cons b s =>
      rw [hrest] at hsigned hkey
      by_cases hminus : b = 45
      · simp [strtolSign, hminus] at hsigned
      · by_cases hsign : b = 43
        · have hs : s = digits := by simpa [strtolSign, hsign] using hsigned
          rw [hsign, hs] at hkey
          exact Or.inr hkey.symm
        · have hs : b :: s = digits := by simpa [strtolSign, hsign, hminus] using hsigned
          rw [hs] at hkey
          exact Or.inl hkey.symm

end Keys

/-! ## The scan -/

section Scan

variable {keys keys' : List CString} {errno maxKey : Int}

/-- Without a key to be taken into account the scan returns what it started with. -/
theorem scanKeys_of_forall_not (h : ∀ k ∈ keys, ¬ PositiveKey k) :
    (scanKeys keys errno maxKey).2 = maxKey := by
  induction keys generalizing errno with
  | nil =>
      rfl
  | cons k keys ih =>
      have hk : ¬ PositiveKey k := h k List.mem_cons_self
      have hrest := fun e : Int => @ih e fun k' hk' => h k' (List.mem_cons_of_mem _ hk')
      have hskip : ¬ ((if (strtol k).erange then erange else errno) = 0 ∧
          (strtol k).endptr = [] ∧ (strtol k).value > 0 ∧ (strtol k).value > maxKey) := by
        rintro ⟨herrno, hend, hpos, _⟩
        cases hrange : (strtol k).erange with
        | false =>
            exact hk ⟨hend, hrange, hpos⟩
        | true =>
            rw [hrange, if_pos rfl] at herrno
            exact absurd herrno (by decide)
      simp only [scanKeys, if_neg hskip]
      exact hrest _

/-- With `errno` 0 and no key out of range it returns the greatest key, or what it started with. -/
theorem scanKeys_spec (h : ∀ k ∈ keys, (strtol k).erange = false) :
    maxKey ≤ (scanKeys keys 0 maxKey).2 ∧
      (∀ k ∈ keys, PositiveKey k → (strtol k).value ≤ (scanKeys keys 0 maxKey).2) ∧
      ((scanKeys keys 0 maxKey).2 = maxKey ∨
        ∃ k ∈ keys, PositiveKey k ∧ (scanKeys keys 0 maxKey).2 = (strtol k).value) := by
  induction keys generalizing maxKey with
  | nil =>
      simp [scanKeys]
  | cons k keys ih =>
      have hk : (strtol k).erange = false := h k List.mem_cons_self
      have hih := fun m : Int => @ih m fun k' hk' => h k' (List.mem_cons_of_mem _ hk')
      simp only [scanKeys, hk, Bool.false_eq_true, if_false]
      split
      -- the key is the greatest so far
      · next htake =>
          rcases htake with ⟨_, hend, hpos, hgt⟩
          rcases hih (strtol k).value with ⟨hle, hall, hfrom⟩
          refine ⟨hgt.le.trans hle, ?_, Or.inr ?_⟩
          · intro k' hk' hpositive
            rcases List.mem_cons.1 hk' with rfl | hk'
            · exact hle
            · exact hall k' hk' hpositive
          · rcases hfrom with hsame | ⟨k', hk', hpositive, hvalue⟩
            · exact ⟨k, List.mem_cons_self, ⟨hend, hk, hpos⟩, hsame⟩
            · exact ⟨k', List.mem_cons_of_mem _ hk', hpositive, hvalue⟩
      · next hskip =>
          rcases hih maxKey with ⟨hle, hall, hfrom⟩
          refine ⟨hle, ?_, ?_⟩
          · intro k' hk' hpositive
            rcases List.mem_cons.1 hk' with rfl | hk'
            · have hsmall : ¬ (strtol k').value > maxKey := fun hgt =>
                hskip ⟨trivial, hpositive.1, hpositive.2.2, hgt⟩
              exact (not_lt.1 hsmall).trans hle
            · exact hall k' hk' hpositive
          · rcases hfrom with hsame | ⟨k', hk', hpositive, hvalue⟩
            · exact Or.inl hsame
            · exact Or.inr ⟨k', List.mem_cons_of_mem _ hk', hpositive, hvalue⟩

/-- Then the order of the keys does not matter. -/
theorem scanKeys_perm (hperm : keys'.Perm keys) (h : ∀ k ∈ keys, (strtol k).erange = false) :
    (scanKeys keys' 0 maxKey).2 = (scanKeys keys 0 maxKey).2 := by
  have h' : ∀ k ∈ keys', (strtol k).erange = false := fun k hk => h k (hperm.mem_iff.1 hk)
  rcases @scanKeys_spec keys maxKey h with ⟨hle, hall, hfrom⟩
  rcases @scanKeys_spec keys' maxKey h' with ⟨hle', hall', hfrom'⟩
  refine le_antisymm ?_ ?_
  · rcases hfrom' with hsame | ⟨k, hk, hpositive, hvalue⟩
    · exact hsame.le.trans hle
    · exact hvalue.le.trans (hall k (hperm.mem_iff.1 hk) hpositive)
  · rcases hfrom with hsame | ⟨k, hk, hpositive, hvalue⟩
    · exact hsame.le.trans hle'
    · exact hvalue.le.trans (hall' k (hperm.mem_iff.2 hk) hpositive)

/-- A key out of range in front makes the scan skip all the others. -/
theorem scanKeys_cons_of_erange {k : CString} (hk : (strtol k).erange = true) :
    (scanKeys (k :: keys) 0 maxKey).2 = maxKey := by
  have herrno : erange ≠ 0 := by decide
  simp only [scanKeys, hk, if_true, herrno, false_and, if_false]
  exact scanKeys_of_errno_ne_zero herrno

end Scan

/-! ## The next key -/

/-- What the next key should be: new, the same in whatever order the keys are stored, and the
numeral of a positive number above all keys that are integers in the range of `long`. -/
structure FreshKey (env : AppendEnv) (fileId : CString) (m : ProcMap) (key : CString) : Prop where
  new : key ∉ m.keys
  ordered : ∀ coll' m', procMap? coll' fileId = some m' → m'.keys.Perm m.keys →
    getNextProcKey env coll' fileId = some key
  greatest : ∃ n : Nat, 0 < n ∧ key = Decimal.toBytes n ∧
    ∀ k ∈ m.keys, ∀ z, Denotes k z → longMin ≤ z → z ≤ longMax → z < n

/-- When it is: no key counts, or all of them do and one more number is left.  The latter needs a
query that succeeds, library calls that leave `errno` at 0, and no key out of range. -/
def ScanCounts (env : AppendEnv) (m : ProcMap) : Prop :=
  (∀ k ∈ m.keys, ¬ PositiveKey k) ∨
    (env.find = true ∧ env.scanErrno = 0 ∧ (∀ k ∈ m.keys, (strtol k).erange = false) ∧
      ∀ k ∈ m.keys, PositiveKey k → (strtol k).value ≠ longMax)

instance (env : AppendEnv) (m : ProcMap) : Decidable (ScanCounts env m) := by
  unfold ScanCounts
  infer_instance

section Fresh

variable {env : AppendEnv} {coll : Collection} {fileId key : CString} {m : ProcMap}

theorem positiveKey_toBytes {n : Nat} (hpos : 0 < n) (h : (n : Int) ≤ longMax) :
    PositiveKey (Decimal.toBytes n) := by
  rw [PositiveKey, strtol_toBytes h]
  exact ⟨rfl, rfl, Int.natCast_pos.2 hpos⟩

theorem nextProcKey_of_scan {keys : List CString} {errno : Int} {n : Nat}
    (h : (scanKeys keys errno 0).2 = n) (hlt : (n : Int) < longMax) :
    nextProcKey keys errno = Decimal.toBytes (n + 1) := by
  rw [← nextProcKey_numerals hlt, nextProcKey, nextProcKey, h, scanKeys_numerals hlt.le]

theorem nextProcKey_of_forall_not {keys : List CString} (errno : Int)
    (h : ∀ k ∈ keys, ¬ PositiveKey k) : nextProcKey keys errno = Decimal.toBytes 1 :=
  nextProcKey_of_scan (scanKeys_of_forall_not h) (by decide)

/-- After `LONG_MAX` the counter is negative. -/
theorem nextProcKey_of_longMax {keys : List CString} {errno : Int}
    (h : (scanKeys keys errno 0).2 = longMax) (n : Nat) :
    nextProcKey keys errno ≠ Decimal.toBytes n := by
  have hminus : 45 ∈ nextProcKey keys errno := by
    rw [nextProcKey, h]
    decide
  intro heq
  rw [heq] at hminus
  exact absurd (Decimal.isDigit_of_mem_toBytes hminus) (by decide)

theorem keys_scannedMap (env : AppendEnv) (hm : procMap? coll fileId = some m) :
    (scannedMap env coll fileId).keys = if env.find then m.keys else [] := by
  rw [scannedMap, hm]
  split
  · rfl
  · rfl

/-- A key that is returned once is returned from every collection. -/
theorem getNextProcKey_of_some (h : getNextProcKey env coll fileId = some key) {coll' : Collection}
    {m' : ProcMap} (hm' : procMap? coll' fileId = some m') :
    getNextProcKey env coll' fileId =
      some (nextProcKey (if env.find then m'.keys else []) env.scanErrno) := by
  unfold getNextProcKey at h ⊢
  split at h
  · cases h
  · next hcoll =>
      split at h
      · cases h
      · next halloc =>
          rw [if_neg hcoll, if_neg halloc, keys_scannedMap env hm']

/-- Every order of the keys is that of some map. -/
theorem exists_procMap_of_mem {k : CString} (hk : k ∈ m.keys) :
    ∃ (m' : ProcMap) (rest : List CString), m'.keys = k :: rest ∧ m'.keys.Perm m.keys := by
  rcases List.mem_map.1 hk with ⟨e, he, rfl⟩
  have hperm : (e :: m.entries.erase e).Perm m.entries := (List.perm_cons_erase he).symm
  refine ⟨{ entries := e :: m.entries.erase e
            nodupKeys := (hperm.map Prod.fst).nodup_iff.2 m.nodupKeys }, _, rfl, ?_⟩
  exact hperm.map Prod.fst

/-- A collection in which the file has this map. -/
def journalOf (fileId : CString) (m : ProcMap) : Collection :=
  [{ entries := [(.id, .utf8 fileId), (.proc, .proc m)]
     nodupKeys := by simp }]

theorem procMap?_journalOf (fileId : CString) (m : ProcMap) :
    procMap? (journalOf fileId m) fileId = some m := by
  have hid : eventDocument? (journalOf fileId m) fileId = (journalOf fileId m).head? := by
    simp [eventDocument?, Collection.find, journalOf, OrderedMap.get?]
  rw [procMap?, hid]
  simp [journalOf, Document.proc?, OrderedMap.get?]

/-- The numeral after a bound of all keys that count is fresh, if it is returned in any order. -/
theorem FreshKey.of_bound {n : Nat} (hlt : (n : Int) < longMax)
    (hall : ∀ k ∈ m.keys, PositiveKey k → (strtol k).value ≤ n)
    (hordered : ∀ coll' m', procMap? coll' fileId = some m' → m'.keys.Perm m.keys →
      getNextProcKey env coll' fileId = some (Decimal.toBytes (n + 1))) :
    FreshKey env fileId m (Decimal.toBytes (n + 1)) := by
  refine ⟨?_, hordered, n + 1, Nat.succ_pos n, rfl, ?_⟩
  · intro hmem
    have hlong : ((n + 1 : Nat) : Int) ≤ longMax := by
      push_cast
      omega
    have hbelow := hall _ hmem (positiveKey_toBytes (Nat.succ_pos n) hlong)
    rw [strtol_toBytes hlong] at hbelow
    dsimp only at hbelow
    push_cast at hbelow
    omega
  · intro k hk z hz hlow hhigh
    have hstrtol := strtol_of_denotes hz hlow hhigh
    by_contra hpos
    push_cast at hpos
    -- such a key would count
    have hpositive : PositiveKey k := by
      rw [PositiveKey, hstrtol]
      exact ⟨rfl, rfl, by dsimp only; omega⟩
    have hbelow := hall k hk hpositive
    rw [hstrtol] at hbelow
    dsimp only at hbelow
    omega

theorem FreshKey.of_counts (hm : procMap? coll fileId = some m)
    (hkey : getNextProcKey env coll fileId = some key) (h : ScanCounts env m) :
    FreshKey env fileId m key := by
  rcases h with hnone | ⟨hfind, herrno, hrange, hmax⟩
  · -- no key counts, so the first one is returned
    have hordered : ∀ coll' m', procMap? coll' fileId = some m' → m'.keys.Perm m.keys →
        getNextProcKey env coll' fileId = some (Decimal.toBytes (0 + 1)) := by
      intro coll' m' hm' hperm
      rw [getNextProcKey_of_some hkey hm', nextProcKey_of_forall_not]
      intro k hk
      split at hk
      · exact hnone k (hperm.mem_iff.1 hk)
      · cases hk
    cases hkey.symm.trans (hordered coll m hm (List.Perm.refl _))
    exact FreshKey.of_bound (by decide) (fun k hk hpositive => absurd hpositive (hnone k hk))
      hordered
  · -- all keys count, and the greatest is below `LONG_MAX`
    rcases @scanKeys_spec m.keys 0 hrange with ⟨hle, hall, hfrom⟩
    obtain ⟨n, hn⟩ : ∃ n : Nat, (scanKeys m.keys 0 0).2 = n := Int.eq_ofNat_of_zero_le hle
    have hlt : (n : Int) < longMax := by
      rcases hfrom with hzero | ⟨k, hk, hpositive, hsame⟩
      · rw [← hn, hzero]
        decide
      · have hne := hmax k hk hpositive
        have hbound := strtol_value_le k
        rw [← hn, hsame]
        omega
    have hordered : ∀ coll' m', procMap? coll' fileId = some m' → m'.keys.Perm m.keys →
        getNextProcKey env coll' fileId = some (Decimal.toBytes (n + 1)) := by
      intro coll' m' hm' hperm
      have hsame := @scanKeys_perm m.keys m'.keys 0 hperm hrange
      rw [getNextProcKey_of_some hkey hm', if_pos hfind, herrno,
        nextProcKey_of_scan (hsame.trans hn) hlt]
    cases hkey.symm.trans (hordered coll m hm (List.Perm.refl _))
    exact FreshKey.of_bound hlt (hn ▸ hall) hordered

theorem FreshKey.counts (hm : procMap? coll fileId = some m)
    (hkey : getNextProcKey env coll fileId = some key) (h : FreshKey env fileId m key) :
    ScanCounts env m := by
  by_contra hcounts
  rw [ScanCounts, not_or] at hcounts
  rcases hcounts with ⟨hsome, hnot⟩
  push Not at hsome
  rcases hsome with ⟨k, hk, hpositive⟩
  rcases h.greatest with ⟨n, _, hn, habove⟩
  -- so the key is not "1"
  have hkn : (strtol k).value < n :=
    habove k hk _ (denotes_of_positiveKey hpositive)
      (le_of_lt (lt_trans (by decide) hpositive.2.2)) (strtol_value_le k)
  have hone : key ≠ Decimal.toBytes 1 := by
    intro hone
    have heq : n = 1 := Decimal.toBytes_injective (hn.symm.trans hone)
    have hpos := hpositive.2.2
    omega
  have hvalue : ∀ {coll' : Collection} {m' : ProcMap}, procMap? coll' fileId = some m' →
      m'.keys.Perm m.keys →
        key = nextProcKey (if env.find then m'.keys else []) env.scanErrno := by
    intro coll' m' hm' hperm
    exact Option.some.inj ((h.ordered coll' m' hm' hperm).symm.trans
      (getNextProcKey_of_some hkey hm'))
  have hown := hvalue hm (List.Perm.refl _)
  have hfind : env.find = true := by
    by_contra hfind
    rw [if_neg hfind, nextProcKey_nil] at hown
    exact hone hown
  have herrno : env.scanErrno = 0 := by
    by_contra herrno
    rw [nextProcKey_of_errno_ne_zero herrno] at hown
    exact hone hown
  have hrange : ∀ k' ∈ m.keys, (strtol k').erange = false := by
    intro k' hk'
    by_contra hrange
    rw [Bool.not_eq_false] at hrange
    -- in the order that has `k'` in front nothing else is seen
    rcases exists_procMap_of_mem hk' with ⟨m', rest, hkeys, hperm⟩
    have hother := hvalue (procMap?_journalOf fileId m') hperm
    rw [if_pos hfind, herrno, hkeys,
      @nextProcKey_of_scan _ _ 0 (scanKeys_cons_of_erange hrange) (by decide)] at hother
    exact hone hother
  refine hnot ⟨hfind, herrno, hrange, ?_⟩
  intro k' hk' hpositive' hmax
  rcases @scanKeys_spec m.keys 0 hrange with ⟨_, hall, hfrom⟩
  have hscan : (scanKeys m.keys 0 0).2 = longMax := by
    refine le_antisymm ?_ (hmax ▸ hall k' hk' hpositive')
    rcases hfrom with hzero | ⟨k₁, _, _, hsame⟩
    · rw [hzero]
      decide
    · rw [hsame]
      exact strtol_value_le k₁
  rw [if_pos hfind, herrno, hn] at hown
  exact nextProcKey_of_longMax hscan n hown.symm

/-- For every map and every surroundings in which a key is returned: it is new, does not depend on
the order of the keys and is above all of them if and only if the scan counts what it should. -/
theorem freshKey_iff (hm : procMap? coll fileId = some m)
    (hkey : getNextProcKey env coll fileId = some key) :
    FreshKey env fileId m key ↔ ScanCounts env m :=
  ⟨FreshKey.counts hm hkey, FreshKey.of_counts hm hkey⟩

end Fresh

/-- An event, for maps in which only the keys matter. -/
def sampleEvent : Event :=
  { date := 0, typeOfChanges := ascii "upload", status := ascii "success" }

/-- After the keys "2", " 7" and "x" comes "8". -/
theorem freshKey_eight :
    let m : ProcMap :=
      { entries := [(ascii "2", sampleEvent), (ascii " 7", sampleEvent), (ascii "x", sampleEvent)]
        nodupKeys := by decide }
    FreshKey (AppendEnv.ok 0 0) (ascii "f") m (ascii "8") := by
  intro m
  have hkey : getNextProcKey (AppendEnv.ok 0 0) (journalOf (ascii "f") m) (ascii "f") =
      some (ascii "8") := by decide
  exact (freshKey_iff (procMap?_journalOf _ m) hkey).2 (by decide)

/-- Behind a key that is out of range the key "1" is not seen: "1" is returned again, and "2" in
the other order. -/
theorem not_freshKey_out_of_range :
    let big := ascii "9223372036854775808"
    let m : ProcMap :=
      { entries := [(big, sampleEvent), (ascii "1", sampleEvent)], nodupKeys := by decide }
    let m' : ProcMap :=
      { entries := [(ascii "1", sampleEvent), (big, sampleEvent)], nodupKeys := by decide }
    getNextProcKey (AppendEnv.ok 0 0) (journalOf (ascii "f") m) (ascii "f") = some (ascii "1") ∧
      ascii "1" ∈ m.keys ∧
      getNextProcKey (AppendEnv.ok 0 0) (journalOf (ascii "f") m') (ascii "f") = some (ascii "2") ∧
      ¬ FreshKey (AppendEnv.ok 0 0) (ascii "f") m (ascii "1") := by
  intro big m m'
  have hmem : ascii "1" ∈ m.keys := by decide
  exact ⟨by decide, hmem, by decide, fun h => h.new hmem⟩

end FileExchange
