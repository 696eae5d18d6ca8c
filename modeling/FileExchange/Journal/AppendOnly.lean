import FileExchange.Journal

/-!
# Journal.AppendOnly — sequences of appends to one event log

`archetype.txt` describes the `proc` map as a log: every event gets the next index, for ever.
This module follows a sequence of non-overlapping calls of `append_proc_event`:

* `appendAll_entries` : with `errno` 0 at the scans, the log grows by one entry for each call;
* `appendAll_length`  : a scan that finds another `errno` costs one entry;
* `appendAll_logsExactly_iff` : the log is exact if and only if no scan but the first finds a
  stale `errno`.
-/

namespace FileExchange

open Lib

/-- One call of `append_proc_event(file_id, change_type, status)`. -/
structure AppendCall where
  env : AppendEnv
  changeType : CString
  status : CString
  deriving DecidableEq, Repr

/-- The event of a call. -/
def AppendCall.event (c : AppendCall) : Event :=
  { date := c.env.now, typeOfChanges := c.changeType, status := c.status }

/-- Non-overlapping calls on one file, as long as each of them returns true. -/
def appendAll (coll : Collection) (fileId : CString) : List AppendCall → Option Collection
  | [] => some coll
  | c :: calls =>
      let r := appendProcEvent c.env coll fileId c.changeType c.status
      if r.2 then appendAll r.1 fileId calls else none

/-- The log of the calls: the keys are `"1"` to `"n"`, and entry `i` is the event of call `i`. -/
def LogsExactly (m : ProcMap) (calls : List AppendCall) : Prop :=
  (∀ k, k ∈ m.keys ↔ k ∈ numerals calls.length) ∧
    ∀ i c, calls[i]? = some c → m.get? (Decimal.toBytes (i + 1)) = some c.event

/-! ## The entries a sequence of calls should add -/

/-- The entries for calls that come after `n` others. -/
def logEntries : Nat → List AppendCall → List (CString × Event)
  | _, [] => []
  | n, c :: calls => (Decimal.toBytes (n + 1), c.event) :: logEntries (n + 1) calls

theorem keys_logEntries (n : Nat) (calls : List AppendCall) :
    (logEntries n calls).map Prod.fst = (List.range' (n + 1) calls.length).map Decimal.toBytes := by
  induction calls generalizing n with
  | nil =>
      rfl
  | cons c calls ih =>
      simp [logEntries, List.range'_succ, ih (n + 1)]

theorem mem_logEntries {n i : Nat} {calls : List AppendCall} {c : AppendCall}
    (h : calls[i]? = some c) : (Decimal.toBytes (n + i + 1), c.event) ∈ logEntries n calls := by
  induction calls generalizing n i with
  | nil =>
      simp at h
  | cons d calls ih =>
      cases i with
      | zero =>
          have hd : d = c := by simpa using h
          simp [logEntries, hd]
      | succ i =>
          have hrec := ih (n := n + 1) (i := i) (by simpa using h)
          have hadd : n + (i + 1) + 1 = n + 1 + i + 1 := by omega
          rw [logEntries, hadd]
          exact List.mem_cons_of_mem _ hrec

theorem logsExactly_of_entries {m : ProcMap} {calls : List AppendCall}
    (h : m.entries = logEntries 0 calls) : LogsExactly m calls := by
  constructor
  · intro k
    rw [OrderedMap.keys, h, keys_logEntries]
    rfl
  · intro i c hc
    apply OrderedMap.get?_of_mem_entries
    rw [h]
    simpa using mem_logEntries (n := 0) hc

theorem nodup_numerals (n : Nat) : (numerals n).Nodup :=
  List.Nodup.map Decimal.toBytes_injective List.nodup_range'

theorem length_entries_of_logsExactly {m : ProcMap} {calls : List AppendCall}
    (h : LogsExactly m calls) : m.entries.length = calls.length := by
  -- two lists without duplicates and with the same members
  have hperm : m.keys.Perm (numerals calls.length) :=
    (List.perm_ext_iff_of_nodup m.nodup_keys (nodup_numerals _)).2 h.1
  simpa using hperm.length_eq

/-! ## Runs of calls -/

theorem appendAll_cons {coll coll' : Collection} {fileId : CString} {c : AppendCall}
    {calls : List AppendCall} (h : appendAll coll fileId (c :: calls) = some coll') :
    ∃ coll₁, appendProcEvent c.env coll fileId c.changeType c.status = (coll₁, true) ∧
      appendAll coll₁ fileId calls = some coll' := by
  simp only [appendAll] at h
  split at h
  · next hok =>
      exact ⟨_, Prod.ext rfl hok, h⟩
  · cases h

/-- The map after one successful call. -/
def AppendCall.appendTo (c : AppendCall) (m : ProcMap) : ProcMap :=
  m.set (nextProcKey m.keys c.env.scanErrno) c.event

theorem appendAll_cons_journals {coll coll' : Collection} {fileId : CString} {c : AppendCall}
    {calls : List AppendCall} {m : ProcMap} (hm : Journals coll fileId m)
    (hfind : c.env.find = true) (h : appendAll coll fileId (c :: calls) = some coll') :
    ∃ coll₁, Journals coll₁ fileId (c.appendTo m) ∧
      (c.appendTo m).entries.length ≤ maxBsonObjectSize ∧
      appendAll coll₁ fileId calls = some coll' := by
  rcases appendAll_cons h with ⟨coll₁, happ, hrest⟩
  rcases journals_appendProcEvent hm hfind happ with ⟨hj, hlen⟩
  exact ⟨coll₁, hj, hlen, hrest⟩

/-- With `errno` 0 at every scan, each call adds the next entry at the end. -/
theorem appendAll_entries {fileId : CString} {calls : List AppendCall} :
    ∀ {n : Nat} {coll coll' : Collection} {m : ProcMap},
      Journals coll fileId m → m.keys = numerals n → n ≤ maxBsonObjectSize →
      (∀ c ∈ calls, c.env.find = true) → (∀ c ∈ calls, c.env.scanErrno = 0) →
      appendAll coll fileId calls = some coll' →
      ∃ m', Journals coll' fileId m' ∧ m'.entries = m.entries ++ logEntries n calls := by
  induction calls with
  | nil =>
      intro n coll coll' m hm _ _ _ _ h
      cases h
      exact ⟨m, hm, by simp [logEntries]⟩
  | cons c calls ih =>
      intro n coll coll' m hm hkeys hn hfind herrno h
      rcases appendAll_cons_journals hm (hfind c (by simp)) h with ⟨coll₁, hm₁, hlen, hrest⟩
      -- the map has the keys of the first `n` calls, so this call takes the next one
      have hkey : nextProcKey m.keys c.env.scanErrno = Decimal.toBytes (n + 1) := by
        rw [herrno c (by simp), hkeys]
        apply nextProcKey_numerals
        unfold maxBsonObjectSize at hn
        unfold longMax
        omega
      have hfresh : Decimal.toBytes (n + 1) ∉ m.keys := by
        rw [hkeys]
        exact toBytes_not_mem_numerals (by omega)
      have hentries₁ : (c.appendTo m).entries =
          m.entries ++ [(Decimal.toBytes (n + 1), c.event)] := by
        rw [AppendCall.appendTo, hkey]
        exact OrderedMap.entries_set_of_not_mem hfresh _
      have hkeys₁ : (c.appendTo m).keys = numerals (n + 1) := by
        calc (c.appendTo m).keys
            = (m.entries ++ [(Decimal.toBytes (n + 1), c.event)]).map Prod.fst := by
              rw [OrderedMap.keys, hentries₁]
          _ = m.keys ++ [Decimal.toBytes (n + 1)] := by simp [OrderedMap.keys]
          _ = numerals (n + 1) := by rw [hkeys, numerals_succ]
      -- 16 MiB bound the number of entries, hence the size of the next key
      have hn₁ : n + 1 ≤ maxBsonObjectSize := by
        have hcount : (c.appendTo m).entries.length = n + 1 := by
          rw [← OrderedMap.length_keys, hkeys₁, length_numerals]
        omega
      obtain ⟨m', hm', hentries⟩ := ih hm₁ hkeys₁ hn₁
        (fun d hd => hfind d (by simp [hd])) (fun d hd => herrno d (by simp [hd])) hrest
      refine ⟨m', hm', ?_⟩
      rw [hentries, hentries₁]
      simp [logEntries]

/-- The calls whose scan finds a stale `errno`. -/
def AppendCall.stale (c : AppendCall) : Bool :=
  decide (c.env.scanErrno ≠ 0)

/-- Once the key `"1"` is taken, a call adds an entry unless its scan finds a stale `errno`:
that scan accepts no key, and the event replaces entry `"1"`. -/
theorem length_appendTo_le {m : ProcMap} (hone : Decimal.toBytes 1 ∈ m.keys) (c : AppendCall) :
    (c.appendTo m).entries.length + (if c.stale then 1 else 0) ≤ m.entries.length + 1 := by
  by_cases herrno : c.env.scanErrno = 0
  · have hstale : c.stale = false := by simp [AppendCall.stale, herrno]
    have hle := OrderedMap.length_entries_set_le m (nextProcKey m.keys c.env.scanErrno) c.event
    simpa [hstale, AppendCall.appendTo] using hle
  · have hstale : c.stale = true := by simp [AppendCall.stale, herrno]
    have hkeys : (c.appendTo m).keys = m.keys := by
      rw [AppendCall.appendTo, nextProcKey_of_errno_ne_zero herrno]
      exact OrderedMap.keys_set_of_mem hone _
    have hlen : (c.appendTo m).entries.length = m.entries.length := by
      rw [← OrderedMap.length_keys, hkeys, OrderedMap.length_keys]
    simp [hstale, hlen]

theorem one_mem_keys_appendTo {m : ProcMap} (hone : Decimal.toBytes 1 ∈ m.keys)
    (c : AppendCall) : Decimal.toBytes 1 ∈ (c.appendTo m).keys := by
  rw [AppendCall.appendTo, OrderedMap.keys_set]
  split
  · exact hone
  · exact List.mem_append_left _ hone

/-- Each stale scan costs the log one entry. -/
theorem appendAll_length {fileId : CString} {calls : List AppendCall} :
    ∀ {coll coll' : Collection} {m : ProcMap},
      Journals coll fileId m → Decimal.toBytes 1 ∈ m.keys →
      (∀ c ∈ calls, c.env.find = true) → appendAll coll fileId calls = some coll' →
      ∃ m', Journals coll' fileId m' ∧
        m'.entries.length + calls.countP AppendCall.stale ≤ m.entries.length + calls.length := by
  induction calls with
  | nil =>
      intro coll coll' m hm _ _ h
      cases h
      exact ⟨m, hm, by simp⟩
  | cons c calls ih =>
      intro coll coll' m hm hone hfind h
      -- induction on the calls; the key "1" stays taken
      rcases appendAll_cons_journals hm (hfind c (by simp)) h with ⟨coll₁, hm₁, _, hrest⟩
      obtain ⟨m', hm', hle⟩ := ih hm₁ (one_mem_keys_appendTo hone c)
        (fun d hd => hfind d (by simp [hd])) hrest
      have hone_le := length_appendTo_le hone c
      refine ⟨m', hm', ?_⟩
      rw [List.countP_cons, List.length_cons]
      omega

theorem journals_unique {coll : Collection} {fileId : CString} {m m' : ProcMap}
    (hm : Journals coll fileId m) (hm' : Journals coll fileId m') : m = m' := by
  cases hdoc : eventDocument? coll fileId with
  | none =>
      simp only [Journals, hdoc] at hm hm'
      exact hm.trans hm'.symm
  | some d =>
      simp only [Journals, hdoc] at hm hm'
      exact Option.some.inj (hm.symm.trans hm')

/-! ## The append-only property -/

/-- A sequence of successful calls on a file without event document leaves the exact log if
and only if `errno` is 0 at every scan but the first. -/
theorem appendAll_logsExactly_iff {coll coll' : Collection} {fileId : CString}
    {calls : List AppendCall} (hnone : eventDocument? coll fileId = none)
    (hfind : ∀ c ∈ calls, c.env.find = true) (h : appendAll coll fileId calls = some coll') :
    (∃ m, Journals coll' fileId m ∧ LogsExactly m calls) ↔
      ∀ c ∈ calls.tail, c.env.scanErrno = 0 := by
  have hm : Journals coll fileId OrderedMap.empty := by
    simp [Journals, hnone]
  cases calls with
  | nil =>
      cases h
      simp only [List.tail_nil, List.not_mem_nil, false_implies, implies_true, iff_true]
      exact ⟨_, hm, logsExactly_of_entries rfl⟩
  | cons c calls =>
      rcases appendAll_cons_journals hm (hfind c (by simp)) h with ⟨coll₁, hm₁, hlen₁, hrest⟩
      -- the first scan sees no key, so it cannot go wrong
      have hfirst : c.appendTo OrderedMap.empty =
          OrderedMap.empty.set (Decimal.toBytes 1) c.event := by
        rw [AppendCall.appendTo, OrderedMap.keys_empty, nextProcKey_nil]
      have hentries₁ : (c.appendTo OrderedMap.empty).entries =
          [(Decimal.toBytes 1, c.event)] := by
        rw [hfirst]
        exact OrderedMap.entries_set_of_not_mem (by simp) _
      have hkeys₁ : (c.appendTo OrderedMap.empty).keys = numerals 1 := by
        rw [OrderedMap.keys, hentries₁]
        rfl
      have hfind' : ∀ d ∈ calls, d.env.find = true := fun d hd => hfind d (by simp [hd])
      constructor
      · rintro ⟨m, hj, hlog⟩ d hd
        by_contra herrno
        have hone : Decimal.toBytes 1 ∈ (c.appendTo OrderedMap.empty).keys := by
          rw [hkeys₁]
          exact mem_numerals.2 ⟨1, le_refl _, le_refl _, rfl⟩
        -- one stale scan is enough: the log has fewer entries than there were calls
        rcases appendAll_length hm₁ hone hfind' hrest with ⟨m', hj', hle⟩
        have hm' : m' = m := journals_unique hj' hj
        have hcount : 0 < calls.countP AppendCall.stale :=
          List.countP_pos_iff.2 ⟨d, hd, by simp [AppendCall.stale, herrno]⟩
        have hlen := length_entries_of_logsExactly hlog
        subst hm'
        rw [hentries₁] at hle
        simp only [List.length_cons, List.length_nil] at hle hlen
        omega
      · intro herrno
        rcases appendAll_entries hm₁ hkeys₁ (by decide) hfind' herrno hrest with ⟨m', hj', hentries⟩
        refine ⟨m', hj', logsExactly_of_entries ?_⟩
        rw [hentries, hentries₁]
        rfl

/-- Two calls on one new file with `errno` 0. -/
theorem appendAll_logsExactly_clean :
    ∃ m, Journals [((baseDocument (ascii "d/a.txt")).set .proc (.proc
        ((OrderedMap.empty.set (ascii "1")
          { date := 7, typeOfChanges := ascii "modified", status := ascii "success" }).set
          (ascii "2")
          { date := 8, typeOfChanges := ascii "deleted", status := ascii "n/a" })))]
      (ascii "d/a.txt") m ∧
      LogsExactly m
        [{ env := AppendEnv.ok 0 7, changeType := ascii "modified", status := ascii "success" },
         { env := AppendEnv.ok 0 8, changeType := ascii "deleted", status := ascii "n/a" }] := by
  have hnew : eventDocument? [] (ascii "d/a.txt") = none := by decide
  exact (appendAll_logsExactly_iff hnew (by decide) (by decide)).2 (by decide)

/-- The daemon's own polling `read` leaves `EAGAIN` (11) in `errno`: the second event takes
the key `"1"` of the first. -/
theorem appendAll_loses_event_after_eagain :
    ∃ coll', appendAll [] (ascii "d/a.txt")
        [{ env := AppendEnv.ok 11 7, changeType := ascii "modified", status := ascii "success" },
         { env := AppendEnv.ok 11 8, changeType := ascii "deleted", status := ascii "n/a" }] =
          some coll' ∧
      ¬ ∃ m, Journals coll' (ascii "d/a.txt") m ∧
        LogsExactly m
          [{ env := AppendEnv.ok 11 7, changeType := ascii "modified", status := ascii "success" },
           { env := AppendEnv.ok 11 8, changeType := ascii "deleted", status := ascii "n/a" }] := by
  refine ⟨[(baseDocument (ascii "d/a.txt")).set .proc (.proc
    (OrderedMap.empty.set (ascii "1")
      { date := 8, typeOfChanges := ascii "deleted", status := ascii "n/a" }))], by decide, ?_⟩
  rintro ⟨m, hj, hkeys, _⟩
  have hm : m = OrderedMap.empty.set (ascii "1")
      { date := 8, typeOfChanges := ascii "deleted", status := ascii "n/a" } :=
    journals_unique hj (by decide)
  subst hm
  exact absurd ((hkeys (ascii "2")).2 (by decide)) (by decide)

end FileExchange
