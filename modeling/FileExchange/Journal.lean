import FileExchange.Mongo

/-!
# Journal — the event log of `main.c` and `server.c`

Each file has one event document, whose `proc` map holds its events under the keys `"1"`,
`"2"`, …  Both programs append to it with the same three functions:

* `createBaseDocument` : insert the document, unless it exists;
* `getNextProcKey`     : scan the map for its largest key;
* `appendProcEvent`    : the two of them, and `$set` of the new entry.

What the calls find in their surroundings (`errno`, allocations, the database) is an `AppendEnv`.
-/

namespace FileExchange

open Lib

/-! ## Names -/

/-- `'/'`. -/
def slash : UInt8 := 47

/-- `'.'`. -/
def dot : UInt8 := 46

/-- What follows the last `/`, or everything. -/
def lastComponent (path : CString) : CString :=
  match strrchr path slash with
  | none => path
  | some t => t.tail

def getFileExtension (fullPath : CString) : CString :=
  let filename := lastComponent fullPath
  match strrchr filename dot with
  | none => []
  | some t => if t.length = filename.length then [] else t

def getFilenameWithoutExtension (fullFilename : CString) : CString :=
  let filename := lastComponent fullFilename
  let nameLen := match strrchr filename dot with
    | none => filename.length
    | some t => filename.length - t.length
  filename.take nameLen

/-! ## Surroundings of a call -/

def erange : Int := 34

def maxKeyLength : Nat := 32

/-- What one call of `append_proc_event` finds: `errno` when it starts and the value, if any,
that the library calls before the key scan put there; which allocations and database commands
succeed; the clock. -/
structure AppendEnv where
  errnoAtCall : Int
  errnoByLibrary : Option Int
  baseCollection : Bool
  names : Bool
  insert : Bool
  eventCollection : Bool
  keyCollection : Bool
  find : Bool
  keyAlloc : Bool
  now : Int
  update : Bool
  deriving DecidableEq, Repr

namespace AppendEnv

/-- The value of `errno` when `get_next_proc_key` starts its loop. -/
def scanErrno (env : AppendEnv) : Int :=
  env.errnoByLibrary.getD env.errnoAtCall

/-- Surroundings in which nothing fails. -/
def ok (errno now : Int) : AppendEnv :=
  { errnoAtCall := errno
    errnoByLibrary := none
    baseCollection := true
    names := true
    insert := true
    eventCollection := true
    keyCollection := true
    find := true
    keyAlloc := true
    now := now
    update := true }

end AppendEnv

/-! ## The three functions -/

/-- `{"_id": file_id}`. -/
def idQuery (fileId : CString) : List (Field × Value) :=
  [(.id, .utf8 fileId)]

/-- The document that `create_base_document` inserts. -/
def baseDocument (fullpath : CString) : Document :=
  { entries :=
      [(.id, .utf8 fullpath),
       (.filename, .utf8 (getFilenameWithoutExtension fullpath)),
       (.extension, .utf8 (getFileExtension fullpath)),
       (.proc, .proc OrderedMap.empty)]
    nodupKeys := by simp }

def createBaseDocument (env : AppendEnv) (coll : Collection) (fullpath : CString) :
    Collection × Bool :=
  if !env.baseCollection then (coll, false)
  else if !env.names then (coll, false)
  else if !env.insert then (coll, false)
  else
    match coll.insertOne (baseDocument fullpath) with
    | .ok coll' => (coll', true)
    -- a document that exists already is not an error
    | .error .duplicateKey => (coll, true)
    | .error .other => (coll, false)

/-- The loop over the keys, with the current `errno` and `max_key`. -/
def scanKeys : List CString → Int → Int → Int × Int
  | [], errno, maxKey => (errno, maxKey)
  | key :: keys, errno, maxKey =>
      let num := strtol key
      -- `errno` is not cleared before the call, and `strtol` only ever sets it
      let errno' := if num.erange then erange else errno
      if errno' = 0 ∧ num.endptr = [] ∧ num.value > 0 ∧ num.value > maxKey then
        scanKeys keys errno' num.value
      else
        scanKeys keys errno' maxKey

/-- The first document whose `_id` is `fileId`. -/
def eventDocument? (coll : Collection) (fileId : CString) : Option Document :=
  (coll.find (idQuery fileId)).head?

/-- The `proc` map of a file, when it has an event document. -/
def procMap? (coll : Collection) (fileId : CString) : Option ProcMap :=
  (eventDocument? coll fileId).bind Document.proc?

/-- The key that `get_next_proc_key` prints for the keys it scanned. -/
def nextProcKey (keys : List CString) (errno : Int) : CString :=
  snprintf maxKeyLength (formatInt64 (toInt64 ((scanKeys keys errno 0).2 + 1)))

/-- The map that the scan goes through: a cursor without a document, for whatever reason, has
no keys. -/
def scannedMap (env : AppendEnv) (coll : Collection) (fileId : CString) : ProcMap :=
  -- the cursor error is logged, and the key is computed nevertheless
  if env.find then (procMap? coll fileId).getD OrderedMap.empty else OrderedMap.empty

def getNextProcKey (env : AppendEnv) (coll : Collection) (fileId : CString) : Option CString :=
  if !env.keyCollection then none
  else if !env.keyAlloc then none
  else some (nextProcKey (scannedMap env coll fileId).keys env.scanErrno)

/-- The update at the end of `append_proc_event`. -/
def setProcEvent (env : AppendEnv) (coll : Collection) (fileId nextKey : CString)
    (event : Event) : Collection × Bool :=
  let setPath := snprintf 64 (ascii "proc." ++ nextKey)
  if !env.update then (coll, false)
  else
    match coll.updateOne (idQuery fileId) fun d => d.setProc (setPath.drop 5) event with
    | some coll' => (coll', true)
    | none => (coll, false)

def appendProcEvent (env : AppendEnv) (coll : Collection)
    (fileId changeType status : CString) : Collection × Bool :=
  let base := createBaseDocument env coll fileId
  if !base.2 then (base.1, false)
  else if !env.eventCollection then (base.1, false)
  else
    match getNextProcKey env base.1 fileId with
    | none => (base.1, false)
    | some nextKey =>
        setProcEvent env base.1 fileId nextKey
          { date := env.now, typeOfChanges := changeType, status := status }

/-! ## Key scan -/

/-- The keys `"1"` to `"n"`. -/
def numerals (n : Nat) : List CString :=
  (List.range' 1 n).map Decimal.toBytes

@[simp] theorem length_numerals (n : Nat) : (numerals n).length = n := by
  simp [numerals]

theorem numerals_succ (n : Nat) : numerals (n + 1) = numerals n ++ [Decimal.toBytes (n + 1)] := by
  rw [numerals, List.range'_concat, List.map_append]
  simp [numerals, Nat.add_comm]

theorem mem_numerals {n : Nat} {k : CString} :
    k ∈ numerals n ↔ ∃ i, 1 ≤ i ∧ i ≤ n ∧ k = Decimal.toBytes i := by
  simp only [numerals, List.mem_map, List.mem_range'_1]
  constructor
  · rintro ⟨i, ⟨h1, hi⟩, rfl⟩
    exact ⟨i, h1, by omega, rfl⟩
  · rintro ⟨i, h1, hi, rfl⟩
    exact ⟨i, ⟨h1, by omega⟩, rfl⟩

theorem toBytes_not_mem_numerals {n m : Nat} (h : n < m) : Decimal.toBytes m ∉ numerals n := by
  intro hmem
  rcases mem_numerals.1 hmem with ⟨i, _, hi, heq⟩
  have : m = i := Decimal.toBytes_injective heq
  omega

/-- With a stale `errno` no key is accepted. -/
theorem scanKeys_of_errno_ne_zero {keys : List CString} {errno maxKey : Int} (h : errno ≠ 0) :
    (scanKeys keys errno maxKey).2 = maxKey := by
  induction keys generalizing errno with
  | nil =>
      rfl
  | cons key keys ih =>
      -- `strtol` can replace the stale value, but only by `ERANGE`
      have herr : (if (strtol key).erange then erange else errno) ≠ 0 := by
        split
        · decide
        · exact h
      simp only [scanKeys, herr, false_and, if_false]
      exact ih herr

/-- With `errno` 0 the scan of numerals in increasing order ends at the last one. -/
theorem scanKeys_range' {n : Nat} (start : Nat) (maxKey : Int) (hmax : maxKey < start)
    (hpos : 0 ≤ maxKey) (hbound : (start + n : Int) ≤ longMax + 1) :
    scanKeys ((List.range' start n).map Decimal.toBytes) 0 maxKey =
      (0, if n = 0 then maxKey else start + n - 1) := by
  induction n generalizing start maxKey with
  | zero =>
      simp [scanKeys]
  | succ n ih =>
      have hstart : ((start : Nat) : Int) ≤ longMax := by
        push_cast at hbound
        omega
      have hgt : (start : Int) > 0 ∧ (start : Int) > maxKey := by omega
      -- the first key is above `maxKey`, and the others follow it
      have hrec := ih (start + 1) start (by push_cast; omega) (by omega)
        (by push_cast at hbound ⊢; omega)
      rw [List.range'_succ, List.map_cons]
      simp only [scanKeys, strtol_toBytes hstart, Bool.false_eq_true, if_false, hgt.1, hgt.2,
        and_self, if_true, hrec]
      by_cases hn : n = 0
      · simp [hn]
      · simp only [hn, if_false, Nat.succ_ne_zero, Prod.mk.injEq, true_and]
        push_cast
        omega

theorem scanKeys_numerals {n : Nat} (h : (n : Int) ≤ longMax) :
    (scanKeys (numerals n) 0 0).2 = n := by
  rw [numerals, scanKeys_range' 1 0 (by decide) (by decide) (by push_cast; omega)]
  by_cases hn : n = 0
  · simp [hn]
  · simp only [hn, if_false]
    push_cast
    omega

theorem length_nextProcKey_le (keys : List CString) (errno : Int) :
    (nextProcKey keys errno).length ≤ 31 := by
  simp [nextProcKey, snprintf, maxKeyLength]

/-- With a stale `errno` the next key is always `"1"`. -/
theorem nextProcKey_of_errno_ne_zero {keys : List CString} {errno : Int} (h : errno ≠ 0) :
    nextProcKey keys errno = Decimal.toBytes 1 := by
  rw [nextProcKey, scanKeys_of_errno_ne_zero h]
  decide

/-- The first key, whatever `errno` is. -/
theorem nextProcKey_nil (errno : Int) : nextProcKey [] errno = Decimal.toBytes 1 := by
  have hscan : (scanKeys [] errno 0).2 = 0 := rfl
  rw [nextProcKey, hscan]
  decide

/-- After the keys `"1"` to `"n"` the next key is `"n+1"`. -/
theorem nextProcKey_numerals {n : Nat} (h : (n : Int) < longMax) :
    nextProcKey (numerals n) 0 = Decimal.toBytes (n + 1) := by
  have h64 : toInt64 ((n : Int) + 1) = ((n + 1 : Nat) : Int) := by
    unfold longMax at h
    rw [toInt64_of_lt (by omega) (by omega)]
    push_cast
    rfl
  -- 19 digits and the NUL fit into the key buffer
  have hlen : (Decimal.toBytes (n + 1)).length < maxKeyLength := by
    have hle : (Decimal.toBytes (n + 1)).length ≤ 19 := by
      refine Decimal.length_toBytes_le (by decide) ?_
      unfold longMax at h
      omega
    unfold maxKeyLength
    omega
  calc nextProcKey (numerals n) 0
      = snprintf maxKeyLength (formatInt64 (toInt64 (n + 1))) := by
        rw [nextProcKey, scanKeys_numerals h.le]
    _ = snprintf maxKeyLength (Decimal.toBytes (n + 1)) := by rw [h64, formatInt64_natCast]
    _ = Decimal.toBytes (n + 1) := snprintf_of_length_lt hlen

/-- The path `"proc.<key>"` is never cut off. -/
theorem drop_setPath {key : CString} (h : key.length ≤ 31) :
    (snprintf 64 (ascii "proc." ++ key)).drop 5 = key := by
  have h5 : (ascii "proc.").length = 5 := by decide
  have hlen : (ascii "proc." ++ key).length < 64 := by
    rw [List.length_append, h5]
    omega
  rw [snprintf_of_length_lt hlen, List.drop_left' h5]

/-! ## The proc map of a file -/

@[simp] theorem satisfies_idQuery (d : Document) (fileId : CString) :
    d.satisfies (idQuery fileId) = decide (d.get? .id = some (.utf8 fileId)) := by
  simp [Document.satisfies, idQuery]

/-- `m` is the `proc` map of `fileId`; a file without event document has the empty map. -/
def Journals (coll : Collection) (fileId : CString) (m : ProcMap) : Prop :=
  match eventDocument? coll fileId with
  | none => m = OrderedMap.empty
  | some d => d.proc? = some m

instance (coll : Collection) (fileId : CString) (m : ProcMap) :
    Decidable (Journals coll fileId m) :=
  match h : eventDocument? coll fileId with
  | none => decidable_of_iff (m = OrderedMap.empty) (by simp [Journals, h])
  | some d => decidable_of_iff (d.proc? = some m) (by simp [Journals, h])

theorem eventDocument?_eq_some_iff {coll : Collection} {fileId : CString} {d : Document} :
    eventDocument? coll fileId = some d ↔
      d.satisfies (idQuery fileId) = true ∧
        ∃ pre post, coll = pre ++ d :: post ∧ ∀ e ∈ pre, e.satisfies (idQuery fileId) = false := by
  rw [eventDocument?, Collection.find, List.head?_filter, List.find?_eq_some_iff_append]
  simp

theorem eventDocument?_eq_none_iff {coll : Collection} {fileId : CString} :
    eventDocument? coll fileId = none ↔ ∀ e ∈ coll, e.satisfies (idQuery fileId) = false := by
  rw [eventDocument?, Collection.find, List.head?_filter, List.find?_eq_none]
  simp

theorem baseDocument_satisfies (fullpath : CString) :
    (baseDocument fullpath).satisfies (idQuery fullpath) = true := by
  simp [baseDocument, OrderedMap.get?]

theorem insertOne_baseDocument (coll : Collection) (fullpath : CString) :
    coll.insertOne (baseDocument fullpath) =
      if (eventDocument? coll fullpath).isSome then .error .duplicateKey
      else .ok (coll ++ [baseDocument fullpath]) := by
  have hid : (baseDocument fullpath).get? .id = some (.utf8 fullpath) := by
    simp [baseDocument, OrderedMap.get?]
  -- the index on `_id` and the query for it look at the same documents
  have hany : (coll.any fun e => e.get? .id = some (.utf8 fullpath)) =
      (eventDocument? coll fullpath).isSome := by
    rw [Bool.eq_iff_iff, List.any_eq_true, eventDocument?, Collection.find, List.head?_filter,
      List.find?_isSome]
    simp
  rw [Collection.insertOne, hid]
  simp only [hany]

/-- What `create_base_document` does: nothing, or one new document for a file that had none. -/
theorem createBaseDocument_cases (env : AppendEnv) (coll : Collection) (fullpath : CString) :
    createBaseDocument env coll fullpath = (coll, false) ∨
      ((eventDocument? coll fullpath).isSome = true ∧
        createBaseDocument env coll fullpath = (coll, true)) ∨
      (eventDocument? coll fullpath = none ∧
        createBaseDocument env coll fullpath = (coll ++ [baseDocument fullpath], true)) := by
  unfold createBaseDocument
  split
  · exact Or.inl rfl
  · split
    · exact Or.inl rfl
    · split
      · exact Or.inl rfl
      -- only the insert itself can change the collection
      · rw [insertOne_baseDocument]
        cases hdoc : eventDocument? coll fullpath with
        | none =>
            exact Or.inr (Or.inr ⟨rfl, by simp⟩)
        | some d =>
            exact Or.inr (Or.inl ⟨by simp, by simp⟩)

theorem eventDocument?_append_baseDocument {coll : Collection} {fullpath : CString}
    (h : eventDocument? coll fullpath = none) :
    eventDocument? (coll ++ [baseDocument fullpath]) fullpath = some (baseDocument fullpath) :=
  eventDocument?_eq_some_iff.2
    ⟨baseDocument_satisfies fullpath, coll, [], rfl, eventDocument?_eq_none_iff.1 h⟩

/-- After `create_base_document` succeeded the file has an event document, with the same map. -/
theorem journals_createBaseDocument {env : AppendEnv} {coll coll' : Collection}
    {fileId : CString} {m : ProcMap} {ok : Bool} (hm : Journals coll fileId m)
    (h : createBaseDocument env coll fileId = (coll', ok)) :
    Journals coll' fileId m ∧ (ok = true → (eventDocument? coll' fileId).isSome = true) := by
  -- failed, the document was there, or the document is new and its map empty
  rcases createBaseDocument_cases env coll fileId with h' | ⟨hsome, h'⟩ | ⟨hnone, h'⟩
  · rcases Prod.mk.inj (h'.symm.trans h) with ⟨rfl, rfl⟩
    exact ⟨hm, by simp⟩
  · rcases Prod.mk.inj (h'.symm.trans h) with ⟨rfl, rfl⟩
    exact ⟨hm, fun _ => hsome⟩
  · rcases Prod.mk.inj (h'.symm.trans h) with ⟨rfl, rfl⟩
    have hbase := eventDocument?_append_baseDocument hnone
    have hempty : m = OrderedMap.empty := by
      simpa [Journals, hnone] using hm
    have hproc : (baseDocument fileId).proc? = some OrderedMap.empty := by
      simp [baseDocument, Document.proc?, OrderedMap.get?]
    exact ⟨by simp [Journals, hbase, hempty, hproc], fun _ => by simp [hbase]⟩

theorem procMap?_of_journals {coll : Collection} {fileId : CString} {m : ProcMap}
    (hm : Journals coll fileId m) (h : (eventDocument? coll fileId).isSome = true) :
    procMap? coll fileId = some m := by
  rcases Option.isSome_iff_exists.1 h with ⟨d, hd⟩
  simpa [Journals, procMap?, hd] using hm

theorem scannedMap_of_journals {env : AppendEnv} {coll : Collection} {fileId : CString}
    {m : ProcMap} (hm : Journals coll fileId m)
    (hdoc : (eventDocument? coll fileId).isSome = true) :
    scannedMap env coll fileId = if env.find then m else OrderedMap.empty := by
  simp [scannedMap, procMap?_of_journals hm hdoc]

theorem getNextProcKey_eq_some {env : AppendEnv} {coll : Collection} {fileId key : CString}
    (h : getNextProcKey env coll fileId = some key) :
    key = nextProcKey (scannedMap env coll fileId).keys env.scanErrno := by
  unfold getNextProcKey at h
  split at h
  · cases h
  · split at h
    · cases h
    · exact (Option.some.inj h).symm

/-- A successful `$set` puts the event into the map, whose document can still be stored. -/
theorem journals_setProcEvent {env : AppendEnv} {coll coll' : Collection}
    {fileId key : CString} {m : ProcMap} {event : Event} (hkey : key.length ≤ 31)
    (hm : Journals coll fileId m) (hdoc : (eventDocument? coll fileId).isSome = true)
    (h : setProcEvent env coll fileId key event = (coll', true)) :
    Journals coll' fileId (m.set key event) ∧ (eventDocument? coll' fileId).isSome = true ∧
      (m.set key event).entries.length ≤ maxBsonObjectSize := by
  rcases Option.isSome_iff_exists.1 hdoc with ⟨d, hd⟩
  have hproc : d.proc? = some m := by
    simpa [Journals, hd] using hm
  rcases eventDocument?_eq_some_iff.1 hd with ⟨hsat, pre, post, rfl, hpre⟩
  -- the update hits the document that the scan read, and keeps its `_id`
  rcases Document.setProc_of_proc? hproc key event with ⟨d', hset, hproc', hother⟩
  unfold setProcEvent at h
  simp only [drop_setPath hkey, Collection.updateOne_append_cons hpre hsat, hset] at h
  split at h
  · cases (Prod.mk.inj h).2
  · by_cases hsize : d'.bsonSize ≤ maxBsonObjectSize
    · simp only [Option.filter, hsize, decide_true, if_true, Option.map_some, Prod.mk.injEq,
        and_true] at h
      subst h
      have hid : d'.satisfies (idQuery fileId) = true := by
        simpa [hother .id (by decide)] using hsat
      have hnew : eventDocument? (pre ++ d' :: post) fileId = some d' :=
        eventDocument?_eq_some_iff.2 ⟨hid, pre, post, rfl, hpre⟩
      refine ⟨?_, by simp [hnew], (Document.length_proc_le_bsonSize hproc').trans hsize⟩
      simp [Journals, hnew, hproc']
    · simp [Option.filter, hsize] at h

/-- An update that fails changes nothing. -/
theorem setProcEvent_of_false {env : AppendEnv} {coll coll' : Collection}
    {fileId key : CString} {event : Event}
    (h : setProcEvent env coll fileId key event = (coll', false)) : coll' = coll := by
  simp only [setProcEvent] at h
  split at h
  · exact (Prod.mk.inj h).1.symm
  · split at h
    · cases (Prod.mk.inj h).2
    · exact (Prod.mk.inj h).1.symm

/-- A successful append sets one more event, under the key that its scan came to. -/
theorem journals_appendProcEvent {env : AppendEnv} {coll coll' : Collection}
    {fileId changeType status : CString} {m : ProcMap} (hm : Journals coll fileId m)
    (hfind : env.find = true)
    (h : appendProcEvent env coll fileId changeType status = (coll', true)) :
    let m' := m.set (nextProcKey m.keys env.scanErrno)
      { date := env.now, typeOfChanges := changeType, status := status }
    Journals coll' fileId m' ∧ m'.entries.length ≤ maxBsonObjectSize := by
  unfold appendProcEvent at h
  cases hbase : createBaseDocument env coll fileId with
  | mk coll₁ ok =>
      rcases journals_createBaseDocument hm hbase with ⟨hm₁, hdoc⟩
      simp only [hbase] at h
      -- each early return answers false, which `h` excludes
      cases ok with
      | false =>
          simp at h
      | true =>
          simp only [Bool.not_true, Bool.false_eq_true, if_false] at h
          split at h
          · simp at h
          · split at h
            · simp at h
            · next key hkey =>
                have heq := getNextProcKey_eq_some hkey
                simp only [scannedMap_of_journals hm₁ (hdoc rfl), hfind, if_true] at heq
                subst heq
                rcases journals_setProcEvent (length_nextProcKey_le _ _) hm₁ (hdoc rfl) h with
                  ⟨hj, _, hlen⟩
                exact ⟨hj, hlen⟩

/-! ## Other documents -/

/-- What was equal on more documents is equal on fewer. -/
theorem filter_eq_of_imp {α : Type} {p q : α → Bool} {xs ys : List α}
    (hpq : ∀ x, q x = true → p x = true) (h : xs.filter p = ys.filter p) :
    xs.filter q = ys.filter q := by
  have hfilter : ∀ zs : List α, zs.filter q = (zs.filter p).filter q := by
    intro zs
    rw [List.filter_filter]
    refine List.filter_congr fun x _ => ?_
    cases hq : q x with
    | false => rfl
    | true => rw [hpq x hq, Bool.and_self]
  rw [hfilter xs, h, ← hfilter ys]

section Others

variable {keep : Option Value → Bool} {fileId : CString}

theorem filter_createBaseDocument (hkeep : keep (some (.utf8 fileId)) = false) (env : AppendEnv)
    (coll : Collection) :
    ((createBaseDocument env coll fileId).1.filter fun d => keep (d.get? .id)) =
      coll.filter fun d => keep (d.get? .id) := by
  rcases createBaseDocument_cases env coll fileId with h | ⟨_, h⟩ | ⟨_, h⟩
  · rw [h]
  · rw [h]
  · have hid : (baseDocument fileId).get? .id = some (.utf8 fileId) := rfl
    simp [h, hid, hkeep]

/-- The command of `$set`: it changes nothing, or an entry in the first document of the file. -/
theorem setProcEvent_cases (env : AppendEnv) (coll : Collection) (fileId key : CString)
    (event : Event) :
    (setProcEvent env coll fileId key event).1 = coll ∨
      ∃ pre d post d' key', coll = pre ++ d :: post ∧ d.get? .id = some (.utf8 fileId) ∧
        d.setProc key' event = some d' ∧
        (setProcEvent env coll fileId key event).1 = pre ++ d' :: post := by
  simp only [setProcEvent]
  split
  · exact Or.inl rfl
  · split
    · next coll' h =>
        rcases Collection.updateOne_cases h with
          ⟨-, rfl⟩ | ⟨pre, d, post, d', rfl, -, hd, hset, rfl⟩
        · exact Or.inl rfl
        · exact Or.inr ⟨pre, d, post, d', _, rfl, by simpa using hd, hset, rfl⟩
    · exact Or.inl rfl

theorem filter_setProcEvent (hkeep : keep (some (.utf8 fileId)) = false) (env : AppendEnv)
    (coll : Collection) (key : CString) (event : Event) :
    ((setProcEvent env coll fileId key event).1.filter fun d => keep (d.get? .id)) =
      coll.filter fun d => keep (d.get? .id) := by
  rcases setProcEvent_cases env coll fileId key event with
    h | ⟨pre, d, post, d', key', rfl, hid, hset, h⟩
  · rw [h]
  · have hid' : d'.get? .id = some (.utf8 fileId) := by
      rw [Document.get?_of_setProc hset (by decide), hid]
    simp [h, hid, hid', hkeep]

/-- An append leaves the documents with another `_id` alone. -/
theorem filter_appendProcEvent (hkeep : keep (some (.utf8 fileId)) = false) (env : AppendEnv)
    (coll : Collection) (changeType status : CString) :
    ((appendProcEvent env coll fileId changeType status).1.filter fun d => keep (d.get? .id)) =
      coll.filter fun d => keep (d.get? .id) := by
  simp only [appendProcEvent]
  split
  · exact filter_createBaseDocument hkeep env coll
  · split
    · exact filter_createBaseDocument hkeep env coll
    · split
      · exact filter_createBaseDocument hkeep env coll
      · rw [filter_setProcEvent hkeep, filter_createBaseDocument hkeep]

end Others

end FileExchange
