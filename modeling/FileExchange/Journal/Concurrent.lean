import Mathlib.Data.List.FinRange
import FileExchange.Journal.AppendOnly
import FileExchange.Lib.Interleaving

/-!
# Journal.Concurrent — appends of several threads to one event log

The atomic steps of `append_proc_event` are its database commands: insert the base document,
read the `proc` map, `$set` one key.  Threads of the server and the daemon take turns with
these steps.

* `appendThreads`     : the thread system of calls on one file;
* `appendProcEvent_of_alone` : a call that runs without interruption is `appendProcEvent`;
* `logShape_run`      : the keys of a log stay the numerals, whatever the calls do;
* `eventsKept_iff`    : every event survives if and only if no other call's `$set` comes
  between the read and the `$set` of a call.
-/

namespace FileExchange

open Lib

/-! ## Threads -/

/-- Where a call of `append_proc_event` stands.  `setKey` also remembers the map that the scan
went through, and `done` the key that a successful call has set. -/
inductive AppendPc
  | insertBase
  | scan
  | setKey (seen : ProcMap) (key : CString)
  | done (key : Option CString)
  deriving DecidableEq

structure AppendThread where
  call : AppendCall
  pc : AppendPc
  deriving DecidableEq

/-- The next database command of a call. -/
def appendStep (fileId : CString) (coll : Collection) (t : AppendThread) :
    Option (Collection × AppendThread) :=
  match t.pc with
  | .insertBase =>
      let r := createBaseDocument t.call.env coll fileId
      if r.2 && t.call.env.eventCollection then some (r.1, { t with pc := .scan })
      else some (r.1, { t with pc := .done none })
  | .scan =>
      match getNextProcKey t.call.env coll fileId with
      | none => some (coll, { t with pc := .done none })
      | some key =>
          some (coll, { t with pc := .setKey (scannedMap t.call.env coll fileId) key })
  | .setKey _ key =>
      let r := setProcEvent t.call.env coll fileId key t.call.event
      some (r.1, { t with pc := .done (if r.2 then some key else none) })
  | .done _ => none

/-- Any number of calls on one file. -/
def appendThreads (fileId : CString) : ThreadSystem AppendCall Unit Collection AppendThread where
  spawn c := { call := c, pc := .insertBase }
  step _ coll t := appendStep fileId coll t

/-- A call that nobody interrupts does what `append_proc_event` does. -/
theorem appendProcEvent_of_alone (fileId : CString) (coll : Collection) (c : AppendCall) :
    ∃ gs key, (appendThreads fileId).runThread gs coll ((appendThreads fileId).spawn c) =
        some ((appendProcEvent c.env coll fileId c.changeType c.status).1,
          { call := c, pc := .done key }) ∧
      key.isSome = (appendProcEvent c.env coll fileId c.changeType c.status).2 := by
  cases hbase : createBaseDocument c.env coll fileId with
  | mk coll₁ ok =>
      by_cases hgo : (ok && c.env.eventCollection) = true
      -- the base document is there: scan, and then `$set` if the scan found a key
      · rcases Bool.and_eq_true_iff.1 hgo with ⟨rfl, hcoll⟩
        cases hkey : getNextProcKey c.env coll₁ fileId with
        | none =>
            refine ⟨[(), ()], none, ?_, ?_⟩
            · simp [ThreadSystem.runThread, appendThreads, appendStep, appendProcEvent, hbase,
                hcoll, hkey]
            · simp [appendProcEvent, hbase, hcoll, hkey]
        | some key =>
            cases hset : setProcEvent c.env coll₁ fileId key c.event with
            | mk coll₂ ok₂ =>
                refine ⟨[(), (), ()], if ok₂ then some key else none, ?_, ?_⟩
                · simp only [AppendCall.event] at hset
                  simp [ThreadSystem.runThread, appendThreads, appendStep, appendProcEvent, hbase,
                    hcoll, hkey, hset, AppendCall.event]
                · simp only [AppendCall.event] at hset
                  cases ok₂ <;> simp [appendProcEvent, hbase, hcoll, hkey, hset]
      -- the call ends after its first command
      · refine ⟨[()], none, ?_, ?_⟩
        · cases ok <;> simp_all [ThreadSystem.runThread, appendThreads, appendStep, appendProcEvent]
        · cases ok <;> simp_all [appendProcEvent]

/-! ## What one step does -/

section Steps

variable {fileId : CString} {coll coll' : Collection} {t t' : AppendThread} {m : ProcMap}

/-- A call is under way and its event document is there. -/
def AppendPc.needsDocument : AppendPc → Bool
  | .insertBase => false
  | .scan => true
  | .setKey _ _ => true
  | .done _ => false

/-- A step either leaves the map alone, or sets the key that the call had chosen. -/
theorem appendStep_cases (hm : Journals coll fileId m)
    (hdoc : t.pc.needsDocument = true → (eventDocument? coll fileId).isSome = true)
    (hkey : ∀ seen key, t.pc = .setKey seen key → key.length ≤ 31)
    (h : appendStep fileId coll t = some (coll', t')) :
    t'.call = t.call ∧
      ((eventDocument? coll fileId).isSome = true → (eventDocument? coll' fileId).isSome = true) ∧
      ((Journals coll' fileId m ∧
          ((t.pc = .insertBase ∧ t'.pc = .scan ∧ (eventDocument? coll' fileId).isSome = true) ∨
            (∃ seen, t.pc = .scan ∧ (seen = m ∨ seen = OrderedMap.empty) ∧
              t'.pc = .setKey seen (nextProcKey seen.keys t.call.env.scanErrno)) ∨
            t'.pc = .done none)) ∨
        ∃ seen key, t.pc = .setKey seen key ∧ t'.pc = .done (some key) ∧
          Journals coll' fileId (m.set key t.call.event) ∧
          (m.set key t.call.event).entries.length ≤ maxBsonObjectSize) := by
  unfold appendStep at h
  split at h
  -- `.insertBase`: the map stays as it is, with or without a new document
  · next hpc =>
      cases hbase : createBaseDocument t.call.env coll fileId with
      | mk coll₁ ok =>
          rcases journals_createBaseDocument hm hbase with ⟨hm₁, hdoc₁⟩
          have hkeep : (eventDocument? coll fileId).isSome = true →
              (eventDocument? coll₁ fileId).isSome = true := by
            intro hsome
            rcases createBaseDocument_cases t.call.env coll fileId with h' | ⟨_, h'⟩ | ⟨hn, h'⟩
            · cases hbase.symm.trans h'
              exact hsome
            · cases hbase.symm.trans h'
              exact hsome
            · simp [hn] at hsome
          simp only [hbase] at h
          split at h
          · next hok =>
              cases h
              rcases Bool.and_eq_true_iff.1 hok with ⟨rfl, _⟩
              exact ⟨rfl, hkeep, Or.inl ⟨hm₁, Or.inl ⟨hpc, rfl, hdoc₁ rfl⟩⟩⟩
          · cases h
            exact ⟨rfl, hkeep, Or.inl ⟨hm₁, Or.inr (Or.inr rfl)⟩⟩
  · next hpc =>
      -- `.scan`: the collection is only read
      have hsome := hdoc (by simp [hpc, AppendPc.needsDocument])
      split at h
      · cases h
        exact ⟨rfl, id, Or.inl ⟨hm, Or.inr (Or.inr rfl)⟩⟩
      · next key hnext =>
          cases h
          have hseen : scannedMap t.call.env coll fileId = m ∨
              scannedMap t.call.env coll fileId = OrderedMap.empty := by
            rw [scannedMap_of_journals hm hsome]
            split
            · exact Or.inl rfl
            · exact Or.inr rfl
          refine ⟨rfl, id, Or.inl ⟨hm, Or.inr (Or.inl ⟨_, hpc, hseen, ?_⟩)⟩⟩
          rw [getNextProcKey_eq_some hnext]
  · next seen key hpc =>
      have hsome := hdoc (by simp [hpc, AppendPc.needsDocument])
      cases hset : setProcEvent t.call.env coll fileId key t.call.event with
      | mk coll₁ ok =>
          simp only [hset, Option.some.injEq, Prod.mk.injEq] at h
          rcases h with ⟨rfl, rfl⟩
          cases ok with
          | false =>
              cases setProcEvent_of_false hset
              exact ⟨rfl, id, Or.inl ⟨hm, Or.inr (Or.inr rfl)⟩⟩
          | true =>
              rcases journals_setProcEvent (hkey seen key hpc) hm hsome hset with ⟨hj, hdoc', hlen⟩
              exact ⟨rfl, fun _ => hdoc', Or.inr ⟨seen, key, hpc, rfl, hj, hlen⟩⟩
  · cases h

/-! ## Pools -/

/-- The call has set this key. -/
def AppendPc.succeeded : AppendPc → Bool
  | .done (some _) => true
  | _ => false

/-- The calls that have reported success. -/
def successes (ts : List AppendThread) : Nat :=
  ts.countP fun t => t.pc.succeeded

/-- A `$set` that comes next would follow a read of the map as it still is. -/
def AppendPc.UpToDate (coll : Collection) (fileId : CString) : AppendPc → Prop
  | .setKey seen _ => Journals coll fileId seen
  | _ => True

instance (coll : Collection) (fileId : CString) (pc : AppendPc) :
    Decidable (pc.UpToDate coll fileId) := by
  cases pc <;> unfold AppendPc.UpToDate <;> infer_instance

/-- The schedule does not continue with a `$set` whose read is out of date. -/
def CleanStep (fileId : CString) (p : Pool Collection AppendThread) :
    Turn AppendCall Unit → Prop
  | .start _ => True
  | .advance i _ => ∀ t ∈ p.threads[i]?, t.pc.UpToDate p.shared fileId

instance (fileId : CString) (p : Pool Collection AppendThread) (e : Turn AppendCall Unit) :
    Decidable (CleanStep fileId p e) := by
  cases e <;> unfold CleanStep <;> infer_instance

/-- The map contains every call's event under a key of its own, none of them a key of `m₀`. -/
def EventsKept (fileId : CString) (m₀ : ProcMap) (p : Pool Collection AppendThread) : Prop :=
  ∃ m, Journals p.shared fileId m ∧
    ∃ keyOf : Fin p.threads.length → CString, Function.Injective keyOf ∧
      ∀ i, keyOf i ∉ m₀.keys ∧ m.get? (keyOf i) = some (p.threads.get i).call.event

/-- What holds in every pool of calls that scan with `errno` 0: `m` is the map, which has the
old keys, and the calls under way have an event document and a key that fits. -/
structure SoundPool (fileId : CString) (m₀ m : ProcMap) (p : Pool Collection AppendThread) :
    Prop where
  journals : Journals p.shared fileId m
  old : ∀ k ∈ m₀.keys, k ∈ m.keys
  calls : ∀ t ∈ p.threads, t.call.env.scanErrno = 0
  document : ∀ t ∈ p.threads, t.pc.needsDocument = true →
    (eventDocument? p.shared fileId).isSome = true
  chosen : ∀ t ∈ p.threads, ∀ seen key, t.pc = .setKey seen key → key = nextProcKey seen.keys 0

/-- Nothing is lost so far: the map has one numeral more for each success, and every read has
seen an initial part of it. -/
structure CleanPool (fileId : CString) (m₀ m : ProcMap) (p : Pool Collection AppendThread) :
    Prop extends SoundPool fileId m₀ m p where
  keys : m.keys = numerals (m₀.keys.length + successes p.threads)
  bound : m.entries.length ≤ maxBsonObjectSize
  seen : ∀ t ∈ p.threads, ∀ seen key, t.pc = .setKey seen key → seen.entries <+: m.entries
  kept : ∀ t ∈ p.threads, ∀ key, t.pc = .done (some key) →
    key ∉ m₀.keys ∧ m.get? key = some t.call.event
  distinct : ∀ (i j : Nat) (t u : AppendThread) (key : CString),
    p.threads[i]? = some t → p.threads[j]? = some u →
    t.pc = .done (some key) → u.pc = .done (some key) → i = j

/-- There are fewer new entries than successes, or a call has failed. -/
structure LossyPool (fileId : CString) (m₀ m : ProcMap) (p : Pool Collection AppendThread) :
    Prop extends SoundPool fileId m₀ m p where
  lossy : m.entries.length + 1 ≤ m₀.keys.length + successes p.threads ∨
    ∃ t ∈ p.threads, t.pc = .done none

/-! ## One turn of the schedule -/

variable {m₀ m' : ProcMap} {p : Pool Collection AppendThread} {i : Nat}

theorem successes_set (t' : AppendThread) (ht : p.threads[i]? = some t) :
    successes (p.threads.set i t') + (if t.pc.succeeded then 1 else 0) =
      successes p.threads + (if t'.pc.succeeded then 1 else 0) := by
  rcases List.getElem?_eq_some_iff.1 ht with ⟨hi, rfl⟩
  unfold successes
  rw [List.countP_set hi]
  have hpos : (if (p.threads[i].pc.succeeded) = true then 1 else 0) ≤
      p.threads.countP fun t => t.pc.succeeded := by
    split
    · next hs => exact List.countP_pos_iff.2 ⟨p.threads[i], List.getElem_mem hi, hs⟩
    · exact Nat.zero_le _
  omega

/-- A property of threads that the stepping thread has afterwards and the others keep. -/
theorem forall_mem_set {ts : List AppendThread} {P Q : AppendThread → Prop}
    (hall : ∀ u ∈ ts, P u) (hkeep : ∀ u, P u → Q u) (hnew : Q t') :
    ∀ u ∈ ts.set i t', Q u := by
  intro u hu
  rcases List.mem_or_eq_of_mem_set hu with hu | rfl
  · exact hkeep u (hall u hu)
  · exact hnew

/-- A step of a sound pool, with the map it leaves. -/
theorem SoundPool.advance (hp : SoundPool fileId m₀ m p) (ht : p.threads[i]? = some t)
    (h : appendStep fileId p.shared t = some (coll', t')) :
    t'.call = t.call ∧
      ((SoundPool fileId m₀ m { shared := coll', threads := p.threads.set i t' } ∧
          ((t.pc = .insertBase ∧ t'.pc = .scan) ∨
            (∃ seen, t.pc = .scan ∧ (seen = m ∨ seen = OrderedMap.empty) ∧
              t'.pc = .setKey seen (nextProcKey seen.keys 0)) ∨
            t'.pc = .done none)) ∨
        ∃ seen key, t.pc = .setKey seen key ∧ t'.pc = .done (some key) ∧
          SoundPool fileId m₀ (m.set key t.call.event)
            { shared := coll', threads := p.threads.set i t' } ∧
          (m.set key t.call.event).entries.length ≤ maxBsonObjectSize) := by
  have hmem : t ∈ p.threads := List.mem_of_getElem? ht
  have herrno : t.call.env.scanErrno = 0 := hp.calls t hmem
  have hkey : ∀ seen key, t.pc = .setKey seen key → key.length ≤ 31 := by
    intro seen key hpc
    rw [hp.chosen t hmem seen key hpc]
    exact length_nextProcKey_le _ _
  rcases appendStep_cases hp.journals (hp.document t hmem) hkey h with ⟨hcall, hdoc, hcases⟩
  have hcalls : ∀ u ∈ p.threads.set i t', u.call.env.scanErrno = 0 :=
    forall_mem_set hp.calls (fun _ hu => hu) (by rw [hcall]; exact herrno)
  refine ⟨hcall, ?_⟩
  -- the assertions of the other calls do not depend on this step
  rcases hcases with ⟨hm, hpc⟩ | ⟨seen, key, hpc, hpc', hm, hlen⟩
  · left
    refine ⟨{ journals := hm, old := hp.old, calls := hcalls, document := ?_, chosen := ?_ }, ?_⟩
    · refine forall_mem_set hp.document (fun _ hu hn => hdoc (hu hn)) fun hn => ?_
      rcases hpc with ⟨_, _, hd⟩ | ⟨_, hpc, _⟩ | hpc'
      · exact hd
      · exact hdoc (hp.document t hmem (by simp [hpc, AppendPc.needsDocument]))
      · simp [hpc', AppendPc.needsDocument] at hn
    · refine forall_mem_set hp.chosen (fun _ hu => hu) fun seen key hk => ?_
      rcases hpc with ⟨_, hpc', _⟩ | ⟨_, _, _, hpc'⟩ | hpc'
      · simp [hpc'] at hk
      · rw [hpc', herrno, AppendPc.setKey.injEq] at hk
        rw [← hk.2, hk.1]
      · simp [hpc'] at hk
    · rw [herrno] at hpc
      rcases hpc with ⟨hpc, hpc', _⟩ | hpc | hpc
      · exact Or.inl ⟨hpc, hpc'⟩
      · exact Or.inr (Or.inl hpc)
      · exact Or.inr (Or.inr hpc)
  · right
    refine ⟨seen, key, hpc, hpc',
      { journals := hm, old := ?_, calls := hcalls, document := ?_, chosen := ?_ }, hlen⟩
    · intro k hk
      rw [OrderedMap.keys_set]
      split
      · exact hp.old k hk
      · exact List.mem_append_left _ (hp.old k hk)
    · refine forall_mem_set hp.document (fun _ hu hn => hdoc (hu hn)) fun hn => ?_
      simp [hpc', AppendPc.needsDocument] at hn
    · refine forall_mem_set hp.chosen (fun _ hu => hu) fun seen key hk => ?_
      simp [hpc'] at hk

theorem forall_mem_concat {ts : List AppendThread} {P : AppendThread → Prop}
    (hall : ∀ u ∈ ts, P u) (hnew : P t) : ∀ u ∈ ts ++ [t], P u := by
  intro u hu
  rcases List.mem_append.1 hu with hu | hu
  · exact hall u hu
  · cases List.mem_singleton.1 hu
    exact hnew

/-- A call that has not started yet. -/
theorem SoundPool.start {c : AppendCall} (hp : SoundPool fileId m₀ m p)
    (hc : c.env.scanErrno = 0) :
    SoundPool fileId m₀ m { p with threads := p.threads ++ [{ call := c, pc := .insertBase }] } :=
  { journals := hp.journals
    old := hp.old
    calls := forall_mem_concat hp.calls hc
    document := forall_mem_concat hp.document (by simp [AppendPc.needsDocument])
    chosen := forall_mem_concat hp.chosen (by simp) }

theorem successes_concat (ts : List AppendThread) (c : AppendCall) :
    successes (ts ++ [{ call := c, pc := .insertBase }]) = successes ts := by
  simp [successes, AppendPc.succeeded]

theorem CleanPool.start {c : AppendCall} (hp : CleanPool fileId m₀ m p)
    (hc : c.env.scanErrno = 0) :
    CleanPool fileId m₀ m { p with threads := p.threads ++ [{ call := c, pc := .insertBase }] } :=
  { toSoundPool := hp.toSoundPool.start hc
    keys := by rw [successes_concat]; exact hp.keys
    bound := hp.bound
    seen := forall_mem_concat hp.seen (by simp)
    kept := forall_mem_concat hp.kept (by simp)
    distinct := by
      intro i j t u key ht hu htd hud
      -- the new call is not done, so both indices are those of old calls
      have hold : ∀ {k : Nat} {v : AppendThread},
          (p.threads ++ [{ call := c, pc := .insertBase }])[k]? = some v →
          v.pc = .done (some key) → p.threads[k]? = some v := by
        intro k v hk hv
        rcases Nat.lt_or_ge k p.threads.length with hlt | hge
        · rwa [List.getElem?_append_left hlt] at hk
        · rw [List.getElem?_append_right hge] at hk
          cases (List.mem_singleton.1 (List.mem_of_getElem? hk))
          cases hv
      exact hp.distinct i j t u key (hold ht htd) (hold hu hud) htd hud }

theorem LossyPool.start {c : AppendCall} (hp : LossyPool fileId m₀ m p)
    (hc : c.env.scanErrno = 0) :
    LossyPool fileId m₀ m { p with threads := p.threads ++ [{ call := c, pc := .insertBase }] } :=
  { toSoundPool := hp.toSoundPool.start hc
    lossy := by
      rw [successes_concat]
      rcases hp.lossy with hlen | ⟨t, ht, hpc⟩
      · exact Or.inl hlen
      · exact Or.inr ⟨t, List.mem_append_left _ ht, hpc⟩ }

/-- Only the stepping thread can have changed its place in the code. -/
theorem getElem?_of_getElem?_set {ts : List AppendThread} {k : Nat} {u : AppendThread}
    (h : (ts.set i t')[k]? = some u) : (k = i ∧ u = t') ∨ (k ≠ i ∧ ts[k]? = some u) := by
  by_cases hk : k = i
  · subst hk
    rcases List.getElem?_eq_some_iff.1 h with ⟨_, hget⟩
    exact Or.inl ⟨rfl, by simpa using hget.symm⟩
  · rw [List.getElem?_set_ne (Ne.symm hk)] at h
    exact Or.inr ⟨hk, h⟩

/-- A call that can take a step has not finished. -/
theorem pc_ne_done_of_step (h : appendStep fileId coll t = some (coll', t'))
    (key : Option CString) : t.pc ≠ .done key := by
  intro hpc
  simp [appendStep, hpc] at h

theorem succeeded_eq_false_of_step (h : appendStep fileId coll t = some (coll', t')) :
    t.pc.succeeded = false := by
  cases hpc : t.pc with
  | done key =>
      exact absurd hpc (pc_ne_done_of_step h key)
  | insertBase =>
      rfl
  | scan =>
      rfl
  | setKey seen key =>
      rfl

/-- A step that leaves the map alone keeps the pool clean. -/
theorem CleanPool.advance_of_same (hp : CleanPool fileId m₀ m p) (ht : p.threads[i]? = some t)
    (h : appendStep fileId p.shared t = some (coll', t'))
    (hsound : SoundPool fileId m₀ m { shared := coll', threads := p.threads.set i t' })
    (hfails : ∀ key, t'.pc ≠ .done (some key))
    (hseen : ∀ seen key, t'.pc = .setKey seen key → seen = m ∨ seen = OrderedMap.empty) :
    CleanPool fileId m₀ m { shared := coll', threads := p.threads.set i t' } := by
  have hnot : t'.pc.succeeded = false := by
    cases hpc : t'.pc with
    | done key =>
        cases key with
        | none => rfl
        | some key => exact absurd hpc (hfails key)
    | insertBase => rfl
    | scan => rfl
    | setKey seen key => rfl
  have hcount : successes (p.threads.set i t') = successes p.threads := by
    have hset := successes_set t' ht
    simpa [succeeded_eq_false_of_step h, hnot] using hset
  refine { toSoundPool := hsound, keys := ?_, bound := hp.bound, seen := ?_, kept := ?_,
           distinct := ?_ }
  · rw [hcount]
    exact hp.keys
  · refine forall_mem_set hp.seen (fun _ hu => hu) fun seen key hk => ?_
    rcases hseen seen key hk with rfl | rfl
    · exact List.prefix_refl _
    · exact List.nil_prefix
  · exact forall_mem_set hp.kept (fun _ hu => hu) fun key hk => absurd hk (hfails key)
  · intro j k u v key hu hv hud hvd
    rcases getElem?_of_getElem?_set hu with ⟨_, rfl⟩ | ⟨_, hu⟩
    · exact absurd hud (hfails key)
    · rcases getElem?_of_getElem?_set hv with ⟨_, rfl⟩ | ⟨_, hv⟩
      · exact absurd hvd (hfails key)
      · exact hp.distinct j k u v key hu hv hud hvd

/-- The next key of a clean pool is the numeral after the keys of the map. -/
theorem CleanPool.nextProcKey_eq (hp : CleanPool fileId m₀ m p) :
    nextProcKey m.keys 0 = Decimal.toBytes (m.keys.length + 1) := by
  have hbound : m.keys.length ≤ maxBsonObjectSize := by
    rw [OrderedMap.length_keys]
    exact hp.bound
  have hlong : (m.keys.length : Int) < longMax := by
    unfold maxBsonObjectSize at hbound
    unfold longMax
    omega
  have hkeys : m.keys = numerals m.keys.length := by
    rw [hp.keys, length_numerals]
  conv_lhs => rw [hkeys]
  exact nextProcKey_numerals hlong

theorem successes_set_done {key : CString} (ht : p.threads[i]? = some t)
    (h : appendStep fileId p.shared t = some (coll', t')) (hpc : t'.pc = .done (some key)) :
    successes (p.threads.set i t') = successes p.threads + 1 := by
  have hnew : t'.pc.succeeded = true := by
    rw [hpc]
    rfl
  have hset := successes_set t' ht
  simpa [succeeded_eq_false_of_step h, hnew] using hset

/-- A `$set` of the next key keeps the pool clean. -/
theorem CleanPool.advance_of_set {key : CString} (hp : CleanPool fileId m₀ m p)
    (ht : p.threads[i]? = some t) (h : appendStep fileId p.shared t = some (coll', t'))
    (hcall : t'.call = t.call) (hkey : key = nextProcKey m.keys 0)
    (hpc : t'.pc = .done (some key))
    (hsound : SoundPool fileId m₀ (m.set key t.call.event)
      { shared := coll', threads := p.threads.set i t' })
    (hlen : (m.set key t.call.event).entries.length ≤ maxBsonObjectSize) :
    CleanPool fileId m₀ (m.set key t.call.event)
      { shared := coll', threads := p.threads.set i t' } := by
  rw [hp.nextProcKey_eq] at hkey
  have hfresh : key ∉ m.keys := by
    rw [hkey, hp.keys, length_numerals]
    exact toBytes_not_mem_numerals (by omega)
  have hentries : (m.set key t.call.event).entries = m.entries ++ [(key, t.call.event)] :=
    OrderedMap.entries_set_of_not_mem hfresh _
  have hne : ∀ {key' : CString} {e : Event}, m.get? key' = some e → key' ≠ key := by
    rintro key' e hget rfl
    exact hfresh (OrderedMap.get?_isSome_iff.1 (by simp [hget]))
  have hdone : ∀ {key'}, t'.pc = .done (some key') → key' = key := by
    intro key' hk
    rw [hpc] at hk
    cases hk
    rfl
  refine { toSoundPool := hsound, keys := ?_, bound := hlen, seen := ?_, kept := ?_,
           distinct := ?_ }
  · rw [OrderedMap.keys_set_of_not_mem hfresh, successes_set_done ht h hpc, ← Nat.add_assoc,
      numerals_succ, ← hp.keys, hkey, hp.keys, length_numerals]
  · refine forall_mem_set hp.seen (fun u hu seen k hk => ?_) fun seen k hk => ?_
    · rw [hentries]
      exact (hu seen k hk).trans (List.prefix_append _ _)
    · simp [hpc] at hk
  · refine forall_mem_set hp.kept (fun u hu k hk => ?_) fun k hk => ?_
    · rcases hu k hk with ⟨hold, hget⟩
      exact ⟨hold, by rw [OrderedMap.get?_set_of_ne (hne hget), hget]⟩
    · cases hdone hk
      exact ⟨fun hmem => hfresh (hp.old key hmem), by rw [OrderedMap.get?_set_self, hcall]⟩
  · intro j k u v key' hu hv hud hvd
    rcases getElem?_of_getElem?_set hu with ⟨rfl, rfl⟩ | ⟨_, hu⟩
    · rcases getElem?_of_getElem?_set hv with ⟨rfl, rfl⟩ | ⟨_, hv⟩
      · rfl
      · have hget := (hp.kept v (List.mem_of_getElem? hv) key' hvd).2
        exact absurd (hdone hud) (hne hget)
    · have hget := (hp.kept u (List.mem_of_getElem? hu) key' hud).2
      rcases getElem?_of_getElem?_set hv with ⟨_, rfl⟩ | ⟨_, hv⟩
      · exact absurd (hdone hvd) (hne hget)
      · exact hp.distinct j k u v key' hu hv hud hvd

/-- A clean step of a clean pool. -/
theorem CleanPool.advance (hp : CleanPool fileId m₀ m p) (ht : p.threads[i]? = some t)
    (hclean : t.pc.UpToDate p.shared fileId)
    (h : appendStep fileId p.shared t = some (coll', t')) :
    ∃ m', CleanPool fileId m₀ m' { shared := coll', threads := p.threads.set i t' } := by
  rcases hp.toSoundPool.advance ht h with ⟨hcall, hsame | ⟨seen, key, hpc, hpc', hsound, hlen⟩⟩
  · rcases hsame with ⟨hsound, hpc⟩
    refine ⟨m, hp.advance_of_same ht h hsound ?_ ?_⟩
    · rcases hpc with ⟨_, hpc⟩ | ⟨_, _, _, hpc⟩ | hpc <;> simp [hpc]
    · rcases hpc with ⟨_, hpc⟩ | ⟨_, _, hseen, hpc⟩ | hpc
      · simp [hpc]
      · intro seen key hk
        rw [hpc, AppendPc.setKey.injEq] at hk
        rw [← hk.1]
        exact hseen
      · simp [hpc]
  -- what the call read is still the map, so its key is the next one
  · have hread : Journals p.shared fileId seen := by
      simpa [AppendPc.UpToDate, hpc] using hclean
    have hseen : seen = m := journals_unique hread hp.journals
    have hkey : key = nextProcKey m.keys 0 := by
      rw [← hseen]
      exact hp.chosen t (List.mem_of_getElem? ht) seen key hpc
    exact ⟨_, hp.advance_of_set ht h hcall hkey hpc' hsound hlen⟩

/-- An initial part of the numerals consists of numerals. -/
theorem eq_numerals_of_prefix {ks : List CString} {n : Nat} (h : ks <+: numerals n) :
    ks = numerals ks.length ∧ ks.length ≤ n := by
  have hlen : ks.length ≤ n := by simpa using h.length_le
  have htake : ks = (numerals n).take ks.length := List.prefix_iff_eq_take.1 h
  refine ⟨?_, hlen⟩
  rw [numerals, ← List.map_take, List.take_range'_of_length_ge hlen] at htake
  exact htake

/-- The first step that is not clean either fails or replaces an entry. -/
theorem CleanPool.advance_of_stale (hp : CleanPool fileId m₀ m p) (ht : p.threads[i]? = some t)
    (hstale : ¬ t.pc.UpToDate p.shared fileId)
    (h : appendStep fileId p.shared t = some (coll', t')) :
    ∃ m', LossyPool fileId m₀ m' { shared := coll', threads := p.threads.set i t' } := by
  have hi : i < p.threads.length := (List.getElem?_eq_some_iff.1 ht).1
  have hmem : t ∈ p.threads := List.mem_of_getElem? ht
  rcases hp.toSoundPool.advance ht h with ⟨_, hsame | ⟨seen, key, hpc, hdone, hsound, _⟩⟩
  · rcases hsame with ⟨hsound, ⟨hpc, _⟩ | ⟨_, hpc, _⟩ | hfail⟩
    · simp [AppendPc.UpToDate, hpc] at hstale
    · simp [AppendPc.UpToDate, hpc] at hstale
    · exact ⟨m, { toSoundPool := hsound, lossy := Or.inr ⟨t', List.mem_set hi t', hfail⟩ }⟩
  · have hold : ¬ Journals p.shared fileId seen := by
      simpa [AppendPc.UpToDate, hpc] using hstale
    have hpre : seen.entries <+: m.entries := hp.seen t hmem seen key hpc
    have hkeys : m.keys = numerals m.keys.length := by
      rw [hp.keys, length_numerals]
    have hkeyspre : seen.keys <+: numerals m.keys.length := by
      rw [← hkeys]
      exact hpre.map Prod.fst
    rcases eq_numerals_of_prefix hkeyspre with ⟨hnum, hle⟩
    -- the call read a proper initial part of the map: someone has set a key since
    have hlt : seen.keys.length < m.keys.length := by
      refine lt_of_le_of_ne hle fun heq => hold ?_
      have hentries : seen.entries = m.entries :=
        hpre.eq_of_length (by simpa using heq)
      rw [OrderedMap.ext_entries hentries]
      exact hp.journals
    have hbound : m.keys.length ≤ maxBsonObjectSize := by
      rw [OrderedMap.length_keys]
      exact hp.bound
    have hkey : key = Decimal.toBytes (seen.keys.length + 1) := by
      rw [hp.chosen t hmem seen key hpc, hnum, length_numerals]
      apply nextProcKey_numerals
      unfold maxBsonObjectSize at hbound
      unfold longMax
      omega
    -- so the key it chose is taken by now
    have htaken : key ∈ m.keys := by
      rw [hkeys, hkey]
      exact mem_numerals.2 ⟨_, by omega, by omega, rfl⟩
    refine ⟨_, { toSoundPool := hsound, lossy := Or.inl ?_ }⟩
    rw [← OrderedMap.length_keys, OrderedMap.keys_set_of_mem htaken, successes_set_done ht h hdone,
      hp.keys, length_numerals]
    omega

/-- A loss is never made good. -/
theorem LossyPool.advance (hp : LossyPool fileId m₀ m p) (ht : p.threads[i]? = some t)
    (h : appendStep fileId p.shared t = some (coll', t')) :
    ∃ m', LossyPool fileId m₀ m' { shared := coll', threads := p.threads.set i t' } := by
  have hi : i < p.threads.length := (List.getElem?_eq_some_iff.1 ht).1
  -- a failed call takes no further step
  have hfailed : (∃ u ∈ p.threads, u.pc = .done none) →
      ∃ u ∈ p.threads.set i t', u.pc = .done none := by
    rintro ⟨u, hu, hpc⟩
    rcases List.mem_iff_getElem?.1 hu with ⟨j, hj⟩
    have hne : i ≠ j := by
      rintro rfl
      cases ht.symm.trans hj
      exact pc_ne_done_of_step h none hpc
    exact ⟨u, List.mem_of_getElem? (by rw [List.getElem?_set_ne hne]; exact hj), hpc⟩
  have hset := successes_set t' ht
  rw [succeeded_eq_false_of_step h] at hset
  -- a success adds at most one entry, so the deficit cannot shrink
  rcases hp.toSoundPool.advance ht h with ⟨_, hsame | ⟨seen, key, _, hdone, hsound, _⟩⟩
  · refine ⟨m, { toSoundPool := hsame.1, lossy := ?_ }⟩
    rcases hp.lossy with hlen | hfail
    · left
      simp only [Bool.false_eq_true, if_false] at hset ⊢
      omega
    · exact Or.inr (hfailed hfail)
  · refine ⟨_, { toSoundPool := hsound, lossy := ?_ }⟩
    rcases hp.lossy with hlen | hfail
    · left
      have hle := OrderedMap.length_entries_set_le m key t.call.event
      simp only [successes_set_done ht h hdone]
      omega
    · exact Or.inr (hfailed hfail)

/-! ## The shape of a log -/

/-- A log whose keys are the numerals `"1"` to `"n"`, small enough to be stored. -/
structure ShapedLog (m : ProcMap) : Prop where
  keys : m.keys = numerals m.keys.length
  bound : m.entries.length ≤ maxBsonObjectSize

/-- A numeral that is a key of the log, or the next one. -/
def WithinReach (m : ProcMap) (key : CString) : Prop :=
  ∃ n, 1 ≤ n ∧ n ≤ m.keys.length + 1 ∧ key = Decimal.toBytes n

/-- Whatever `errno` is, the scan of a log comes to a key within reach. -/
theorem ShapedLog.withinReach (hm : ShapedLog m) (errno : Int) :
    WithinReach m (nextProcKey m.keys errno) := by
  by_cases herrno : errno = 0
  · have hlong : (m.keys.length : Int) < longMax := by
      have hbound := hm.bound
      rw [← OrderedMap.length_keys] at hbound
      unfold maxBsonObjectSize at hbound
      unfold longMax
      omega
    refine ⟨m.keys.length + 1, by omega, le_rfl, ?_⟩
    subst herrno
    conv_lhs => rw [hm.keys]
    exact nextProcKey_numerals hlong
  · exact ⟨1, le_rfl, by omega, nextProcKey_of_errno_ne_zero herrno⟩

theorem ShapedLog.length_le {key : CString} (hm : ShapedLog m) (h : WithinReach m key) :
    key.length ≤ 31 := by
  rcases h with ⟨n, _, hn, rfl⟩
  have hbound := hm.bound
  rw [OrderedMap.length_keys] at hn
  refine Decimal.length_toBytes_le (by decide) ?_
  unfold maxBsonObjectSize at hbound
  omega

/-- Setting a key within reach replaces an entry or adds the next one. -/
theorem ShapedLog.set {key : CString} (hm : ShapedLog m) (hkey : WithinReach m key)
    (event : Event) (hlen : (m.set key event).entries.length ≤ maxBsonObjectSize) :
    ShapedLog (m.set key event) ∧ m.keys.length ≤ (m.set key event).keys.length := by
  rcases hkey with ⟨n, hpos, hn, rfl⟩
  by_cases hle : n ≤ m.keys.length
  · have htaken : Decimal.toBytes n ∈ m.keys := by
      rw [hm.keys]
      exact mem_numerals.2 ⟨n, hpos, hle, rfl⟩
    have hsame := OrderedMap.keys_set_of_mem htaken event
    refine ⟨{ keys := ?_, bound := hlen }, by rw [hsame]⟩
    rw [hsame]
    exact hm.keys
  · have hnext : n = m.keys.length + 1 := by omega
    have hfresh : Decimal.toBytes n ∉ m.keys := by
      rw [hm.keys]
      exact toBytes_not_mem_numerals (by omega)
    have hkeys := OrderedMap.keys_set_of_not_mem hfresh event
    have hcount : (m.set (Decimal.toBytes n) event).keys.length = m.keys.length + 1 := by
      rw [hkeys, List.length_append]
      rfl
    refine ⟨{ keys := ?_, bound := hlen }, by omega⟩
    rw [hcount, numerals_succ, ← hm.keys, hkeys, hnext]

/-- The log of a file has the shape. -/
def LogShape (fileId : CString) (coll : Collection) : Prop :=
  ∃ m, Journals coll fileId m ∧ ShapedLog m

/-- What a call under way relies on: its document is there, and its key is within reach. -/
structure AppendThread.Shaped (fileId : CString) (coll : Collection) (t : AppendThread) :
    Prop where
  document : t.pc.needsDocument = true → (eventDocument? coll fileId).isSome = true
  chosen : ∀ seen key, t.pc = .setKey seen key →
    ∀ m, Journals coll fileId m → WithinReach m key

/-- After any schedule of calls, stale scans and lost updates included, the keys of the log are
the numerals: the log of a new file stays as `eventsKept_iff` takes it. -/
theorem logShape_run {es : List (Turn AppendCall Unit)} {p' : Pool Collection AppendThread}
    (hshape : LogShape fileId p.shared)
    (hcalls : ∀ t ∈ p.threads, AppendThread.Shaped fileId p.shared t)
    (hrun : (appendThreads fileId).lts.run p es = some p') : LogShape fileId p'.shared := by
  refine ((appendThreads fileId).run_invariant (LogShape fileId)
    (AppendThread.Shaped fileId) (fun _ => True) ?_ ?_ hshape hcalls (by simp) hrun).1
  · intro s c _ _
    exact { document := by simp [appendThreads, AppendPc.needsDocument]
            chosen := by simp [appendThreads] }
  · rintro _ s t s' t' ⟨m, hm, hlog⟩ ht hstep
    have hfits : ∀ seen key, t.pc = .setKey seen key → key.length ≤ 31 := by
      intro seen key hpc
      exact hlog.length_le (ht.chosen seen key hpc m hm)
    rcases appendStep_cases hm ht.document hfits hstep with
      ⟨_, hdoc, ⟨hm', hpc⟩ | ⟨seen, key, hpc, hpc', hm', hlen⟩⟩
    · -- the map is unchanged, and so is what is within reach
      have hkeep : ∀ {key m'}, WithinReach m key → Journals s' fileId m' → WithinReach m' key := by
        intro key m' hkey hj
        rw [← journals_unique hm' hj]
        exact hkey
      refine ⟨⟨m, hm', hlog⟩, ⟨fun hn => ?_, fun seen key hk m' hj => ?_⟩, fun u hu => ?_⟩
      · rcases hpc with ⟨_, _, hd⟩ | ⟨_, hpc, _⟩ | hpc'
        · exact hd
        · exact hdoc (ht.document (by simp [hpc, AppendPc.needsDocument]))
        · simp [hpc', AppendPc.needsDocument] at hn
      · rcases hpc with ⟨_, hpc', _⟩ | ⟨seen', _, hseen, hpc'⟩ | hpc'
        · simp [hpc'] at hk
        · rw [hpc', AppendPc.setKey.injEq] at hk
          rw [← hk.2]
          refine hkeep ?_ hj
          rcases hseen with rfl | rfl
          · exact hlog.withinReach _
          · rw [OrderedMap.keys_empty, nextProcKey_nil]
            exact ⟨1, le_rfl, by omega, rfl⟩
        · simp [hpc'] at hk
      · exact ⟨fun hn => hdoc (hu.document hn), fun seen key hk m' hj =>
          hkeep (hu.chosen seen key hk m hm) hj⟩
    · -- one key is set; what was within reach still is, because no key goes away
      rcases hlog.set (ht.chosen seen key hpc m hm) t.call.event hlen with ⟨hlog', hgrows⟩
      refine ⟨⟨_, hm', hlog'⟩, ⟨?_, ?_⟩, fun u hu => ⟨fun hn => hdoc (hu.document hn), ?_⟩⟩
      · simp [hpc', AppendPc.needsDocument]
      · simp [hpc']
      · intro seen' key' hk m' hj
        rcases hu.chosen seen' key' hk m hm with ⟨n, hpos, hn, rfl⟩
        rw [← journals_unique hm' hj]
        exact ⟨n, hpos, by omega, rfl⟩

/-! ## Whole schedules -/

/-- A clean pool whose calls all succeeded has kept every event. -/
theorem CleanPool.eventsKept (hp : CleanPool fileId m₀ m p)
    (hdone : ∀ t ∈ p.threads, ∃ key, t.pc = .done (some key)) : EventsKept fileId m₀ p := by
  choose keyOf hkeyOf using fun i : Fin p.threads.length =>
    hdone (p.threads.get i) (List.get_mem p.threads i)
  refine ⟨m, hp.journals, keyOf, ?_, ?_⟩
  · intro i j hij
    apply Fin.ext
    refine hp.distinct i j (p.threads.get i) (p.threads.get j) (keyOf i) ?_ ?_ (hkeyOf i) ?_
    · simp
    · simp
    · rw [hij]
      exact hkeyOf j
  · intro i
    exact hp.kept (p.threads.get i) (List.get_mem p.threads i) (keyOf i) (hkeyOf i)

/-- A lossy pool whose calls all succeeded has too few entries for their events. -/
theorem LossyPool.not_eventsKept (hp : LossyPool fileId m₀ m p)
    (hdone : ∀ t ∈ p.threads, ∃ key, t.pc = .done (some key)) : ¬ EventsKept fileId m₀ p := by
  rintro ⟨m', hm', keyOf, hinj, hkept⟩
  cases journals_unique hp.journals hm'
  have hall : successes p.threads = p.threads.length := by
    refine List.countP_eq_length.2 fun t ht => ?_
    rcases hdone t ht with ⟨key, hpc⟩
    simp [hpc, AppendPc.succeeded]
  -- the keys of the events and the old keys are distinct keys of the map
  have hnodup : (List.ofFn keyOf ++ m₀.keys).Nodup := by
    refine List.nodup_append.2 ⟨List.nodup_ofFn.2 hinj, m₀.nodup_keys, ?_⟩
    rintro a ha b hb rfl
    rcases List.mem_ofFn.1 ha with ⟨i, rfl⟩
    exact (hkept i).1 hb
  have hsub : List.ofFn keyOf ++ m₀.keys ⊆ m.keys := by
    intro k hk
    rcases List.mem_append.1 hk with hk | hk
    · rcases List.mem_ofFn.1 hk with ⟨i, rfl⟩
      exact OrderedMap.get?_isSome_iff.1 (by simp [(hkept i).2])
    · exact hp.old k hk
  have hle : p.threads.length + m₀.keys.length ≤ m.entries.length := by
    simpa using (List.subperm_of_subset hnodup hsub).length_le
  rcases hp.lossy with hlen | ⟨t, ht, hpc⟩
  · omega
  · rcases hdone t ht with ⟨key, hpc'⟩
    simp [hpc] at hpc'

/-- Calls that scan with `errno` 0 and all report success keep every event if and only if, in
their schedule, no `$set` uses a read that is out of date. -/
theorem eventsKept_iff {es : List (Turn AppendCall Unit)} (hm₀ : Journals coll fileId m₀)
    (hlog : ShapedLog m₀)
    (hok : ∀ c ∈ ThreadSystem.started es, c.env.scanErrno = 0)
    (hrun : (appendThreads fileId).lts.run { shared := coll, threads := [] } es = some p)
    (hdone : ∀ t ∈ p.threads, ∃ key, t.pc = .done (some key)) :
    EventsKept fileId m₀ p ↔
      (appendThreads fileId).lts.EachStep (CleanStep fileId) { shared := coll, threads := [] }
        es := by
  have hstart : CleanPool fileId m₀ m₀ { shared := coll, threads := [] } :=
    { journals := hm₀
      old := fun _ hk => hk
      calls := by simp
      document := by simp
      chosen := by simp
      keys := by simpa [successes] using hlog.keys
      bound := hlog.bound
      seen := by simp
      kept := by simp
      distinct := by simp }
  let Ok : Turn AppendCall Unit → Prop := fun e =>
    ∀ c, e = .start c → c.env.scanErrno = 0
  have hOk : ∀ e ∈ es, Ok e := by
    rintro _ he c rfl
    exact hok c (ThreadSystem.start_mem_started he)
  have hsplit := (appendThreads fileId).lts.eachStep_or_bad
    (fun p => ∃ m, CleanPool fileId m₀ m p) (fun p => ∃ m, LossyPool fileId m₀ m p)
    (CleanStep fileId) Ok ?good ?broken ?bad ⟨m₀, hstart⟩ hOk hrun
  case good =>
    rintro q e q' ⟨m, hq⟩ he hclean hstep
    cases e with
    | start c =>
        rw [ThreadSystem.lts_step_start] at hstep
        subst hstep
        exact ⟨m, hq.start (he c rfl)⟩
    | advance i g =>
        rcases (appendThreads fileId).lts_step_advance.1 hstep with ⟨t, s', t', ht, hts, rfl⟩
        exact hq.advance ht (hclean t ht) hts
  case broken =>
    rintro q e q' ⟨m, hq⟩ _ hstale hstep
    cases e with
    | start c =>
        exact absurd trivial hstale
    | advance i g =>
        rcases (appendThreads fileId).lts_step_advance.1 hstep with ⟨t, s', t', ht, hts, rfl⟩
        refine hq.advance_of_stale ht (fun hdate => hstale fun u hu => ?_) hts
        cases ht.symm.trans hu
        exact hdate
  case bad =>
    rintro q e q' ⟨m, hq⟩ he hstep
    cases e with
    | start c =>
        rw [ThreadSystem.lts_step_start] at hstep
        subst hstep
        exact ⟨m, hq.start (he c rfl)⟩
    | advance i g =>
        rcases (appendThreads fileId).lts_step_advance.1 hstep with ⟨t, s', t', ht, hts, rfl⟩
        exact hq.advance ht hts
  rcases hsplit with ⟨heach, m, hq⟩ | ⟨hnot, m, hq⟩
  · exact iff_of_true (hq.eventsKept hdone) heach
  · exact iff_of_false (hq.not_eventsKept hdone) hnot

end Steps

/-- One call after the other. -/
theorem eventsKept_one_by_one :
    EventsKept (ascii "d/a.txt") OrderedMap.empty
      { shared := [(baseDocument (ascii "d/a.txt")).set .proc (.proc
          ((OrderedMap.empty.set (ascii "1")
            { date := 7, typeOfChanges := ascii "uploaded", status := ascii "success" }).set
            (ascii "2")
            { date := 8, typeOfChanges := ascii "modified", status := ascii "success" }))]
        threads :=
          [{ call := { env := AppendEnv.ok 0 7, changeType := ascii "uploaded",
                       status := ascii "success" },
             pc := .done (some (ascii "1")) },
           { call := { env := AppendEnv.ok 0 8, changeType := ascii "modified",
                       status := ascii "success" },
             pc := .done (some (ascii "2")) }] } := by
  let es : List (Turn AppendCall Unit) :=
    [.start { env := AppendEnv.ok 0 7, changeType := ascii "uploaded", status := ascii "success" },
     .advance 0 (), .advance 0 (), .advance 0 (),
     .start { env := AppendEnv.ok 0 8, changeType := ascii "modified", status := ascii "success" },
     .advance 1 (), .advance 1 (), .advance 1 ()]
  have hnew : Journals [] (ascii "d/a.txt") OrderedMap.empty := by decide
  have hok : ∀ c ∈ ThreadSystem.started es, c.env.scanErrno = 0 := by decide
  have hlog : ShapedLog OrderedMap.empty := ⟨by decide, by decide⟩
  exact (eventsKept_iff hnew hlog hok (by decide) (by simp)).2 (by decide)

/-- Both calls read the empty map before either of them sets its key: the second event takes
the place of the first. -/
theorem eventsKept_lost_update :
    ∃ p, (appendThreads (ascii "d/a.txt")).lts.run { shared := [], threads := [] }
        [.start { env := AppendEnv.ok 0 7, changeType := ascii "uploaded",
                  status := ascii "success" },
         .start { env := AppendEnv.ok 0 8, changeType := ascii "modified",
                  status := ascii "success" },
         .advance 0 (), .advance 1 (), .advance 0 (), .advance 1 (), .advance 0 (),
         .advance 1 ()] = some p ∧
      (∀ t ∈ p.threads, ∃ key, t.pc = .done (some key)) ∧
      ¬ EventsKept (ascii "d/a.txt") OrderedMap.empty p := by
  refine ⟨{ shared := [(baseDocument (ascii "d/a.txt")).set .proc (.proc
      (OrderedMap.empty.set (ascii "1")
        { date := 8, typeOfChanges := ascii "modified", status := ascii "success" }))]
            threads :=
      [{ call := { env := AppendEnv.ok 0 7, changeType := ascii "uploaded",
                   status := ascii "success" },
         pc := .done (some (ascii "1")) },
       { call := { env := AppendEnv.ok 0 8, changeType := ascii "modified",
                   status := ascii "success" },
         pc := .done (some (ascii "1")) }] }, by decide, by simp, ?_⟩
  rintro ⟨m, hj, keyOf, _, hkept⟩
  have hm : m = OrderedMap.empty.set (ascii "1")
      { date := 8, typeOfChanges := ascii "modified", status := ascii "success" } :=
    journals_unique hj (by decide)
  -- the event of the first call is not in the map
  have hfirst := OrderedMap.mem_entries_of_get? (hkept ⟨0, by decide⟩).2
  rw [hm, OrderedMap.entries_set_of_not_mem (by simp)] at hfirst
  simp [AppendCall.event, AppendEnv.ok] at hfirst

end FileExchange
