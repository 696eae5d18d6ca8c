import FileExchange.Journal
import FileExchange.Protocol

/-!
# Daemon.Inotify — the event loop of `main.c`

One `read` fills the buffer with records of different lengths; the loop steps through them with a
pointer and calls a handler for each.

* `InotifyRecord`     : a record as the kernel writes it;
* `visitEvent`, `eventLoop` : one turn of the loop, and the loop;
* `expectedCall`      : the handler that the flags of a record ask for;
* `eventLoop_records` : the loop visits the records that were written, one after the other, and
  ends at the end of the last one.
-/

namespace FileExchange

/-! ## Records -/

def inCloseWrite : Nat := 0x8

def inMovedFrom : Nat := 0x40

def inMovedTo : Nat := 0x80

def inDelete : Nat := 0x200

def inIsdir : Nat := 0x40000000

/-- `sizeof(struct inotify_event)`, without the name. -/
def inotifyEventSize : Nat := 16

/-- `sizeof(buffer)`: room for 128 events with the longest names. -/
def eventBufferSize : Nat := (inotifyEventSize + nameMax + 1) * 128

/-- A record, with the number of NULs behind the name.  A name is terminated. -/
structure InotifyRecord where
  wd : UInt32
  mask : UInt32
  cookie : UInt32
  name : CString
  padding : Nat
  noNul : 0 ∉ name
  terminated : name = [] ∨ 0 < padding
  deriving DecidableEq

namespace InotifyRecord

/-- `event->len`. -/
def len (r : InotifyRecord) : Nat :=
  r.name.length + r.padding

/-- The bytes of a record. -/
def encode (r : InotifyRecord) : Bytes :=
  leBytes 4 r.wd.toNat ++ leBytes 4 r.mask.toNat ++ leBytes 4 r.cookie.toNat ++ leBytes 4 r.len ++
    (r.name ++ List.replicate r.padding 0)

theorem length_encode (r : InotifyRecord) : r.encode.length = inotifyEventSize + r.len := by
  simp only [encode, List.length_append, length_leBytes, List.length_replicate, len,
    inotifyEventSize]

end InotifyRecord

/-- The records of one `read`. -/
def encodeRecords (rs : List InotifyRecord) : Bytes :=
  rs.flatMap InotifyRecord.encode

/-- Where each of them starts. -/
def recordStarts : Nat → List InotifyRecord → List Nat
  | _, [] => []
  | ptr, r :: rs => ptr :: recordStarts (ptr + (inotifyEventSize + r.len)) rs

/-! ## The loop -/

/-- A call of one of the two handlers. -/
inductive HandlerCall
  | fileEvent (fullpath eventType : CString)
  | fileDeleted (fullpath : CString)
  deriving DecidableEq, Repr

/-- `EXCHANGE_DIR`. -/
def exchangeDir : CString :=
  ascii "/home/just/mesh_proto/oxxyen_storage/file_dir/filetrade"

/-- What `snprintf` is to print: `"%s/%s"`. -/
def exchangePath (name : CString) : CString :=
  exchangeDir ++ slash :: name

/-- `mask & flags`. -/
def anyFlag (mask flags : Nat) : Bool :=
  decide (mask &&& flags ≠ 0)

/-- The two `if`s on `event->mask`. -/
def dispatchEvent (mask : Nat) (fullpath : CString) : Option HandlerCall :=
  if anyFlag mask (inCloseWrite ||| inMovedTo) then
    some (.fileEvent fullpath
      (if anyFlag mask inMovedTo then ascii "moved_to" else ascii "modified"))
  else if anyFlag mask (inDelete ||| inMovedFrom) then some (.fileDeleted fullpath)
  else none

/-- One turn: the place of `ptr`, the parts of the buffer that are read, by address and size, the
handler that is called, and where `ptr` goes. -/
structure Visit where
  ptr : Nat
  reads : List (Nat × Nat)
  call : Option HandlerCall
  next : Nat
  deriving DecidableEq, Repr

def visitEvent (buffer : Bytes) (ptr : Nat) : Visit :=
  let len := leNat (slice buffer (ptr + 12) 4)
  let next := ptr + (inotifyEventSize + len)
  let lenRead := (ptr + 12, 4)
  if len > 0 then
    let name := cstringAt buffer (ptr + inotifyEventSize)
    let nameRead := (ptr + inotifyEventSize, name.length + 1)
    let res := (exchangePath name).length
    -- the path is too long
    if res ≥ pathMax then { ptr := ptr, reads := [lenRead, nameRead], call := none, next := next }
    else
      let mask := leNat (slice buffer (ptr + 4) 4)
      { ptr := ptr
        reads := [lenRead, nameRead, (ptr + 4, 4)]
        call := dispatchEvent mask (snprintf pathMax (exchangePath name))
        next := next }
  else { ptr := ptr, reads := [lenRead], call := none, next := next }

/-- `for (char *ptr = buffer; ptr < buffer + len;)`: the turns, and where `ptr` stands at the end,
if the loop ends within so many turns. -/
def eventLoop (buffer : Bytes) (len : Nat) : Nat → Nat → Option (List Visit × Nat)
  | 0, _ => none
  | turns + 1, ptr =>
      if ptr < len then
        let visit := visitEvent buffer ptr
        (eventLoop buffer len turns visit.next).map fun r => (visit :: r.1, r.2)
      else some ([], ptr)

/-! ## What it should do -/

/-- The handler that the flags ask for, one after the other. -/
def expectedHandler (mask : Nat) (fullpath : CString) : Option HandlerCall :=
  if mask &&& inMovedTo ≠ 0 then some (.fileEvent fullpath (ascii "moved_to"))
  else if mask &&& inCloseWrite ≠ 0 then some (.fileEvent fullpath (ascii "modified"))
  else if mask &&& inDelete ≠ 0 ∨ mask &&& inMovedFrom ≠ 0 then some (.fileDeleted fullpath)
  else none

/-- What a record asks for: nothing without a name, or with one that is too long for a path. -/
def expectedCall (r : InotifyRecord) : Option HandlerCall :=
  if r.len = 0 then none
  else if (exchangePath r.name).length < pathMax then
    expectedHandler r.mask.toNat (exchangePath r.name)
  else none

theorem anyFlag_or (mask flags flags' : Nat) :
    anyFlag mask (flags ||| flags') = (anyFlag mask flags || anyFlag mask flags') := by
  rw [anyFlag, anyFlag, anyFlag, Nat.and_or_distrib_left, Bool.eq_iff_iff]
  simp only [decide_eq_true_eq, Bool.or_eq_true, ne_eq, Nat.or_eq_zero_iff, not_and_or]

/-- The combined tests come to the same as the flags one by one. -/
theorem dispatchEvent_eq (mask : Nat) (fullpath : CString) :
    dispatchEvent mask fullpath = expectedHandler mask fullpath := by
  simp only [dispatchEvent, expectedHandler, anyFlag_or]
  by_cases hto : mask &&& inMovedTo = 0
  · by_cases hwrite : mask &&& inCloseWrite = 0
    · simp [anyFlag, hto, hwrite]
    · simp [anyFlag, hto, hwrite]
  · simp [anyFlag, hto]

/-! ## Reading a record -/

section Visit

variable {r : InotifyRecord} {before rest : Bytes}

theorem leNat_slice_len (hlen : r.len < 2 ^ 32) :
    leNat (slice (before ++ (r.encode ++ rest)) (before.length + 12) 4) = r.len := by
  have hfront :
      (leBytes 4 r.wd.toNat ++ leBytes 4 r.mask.toNat ++ leBytes 4 r.cookie.toNat).length =
      12 := by
    simp [length_leBytes]
  have hslice := slice_middle
    (leBytes 4 r.wd.toNat ++ leBytes 4 r.mask.toNat ++ leBytes 4 r.cookie.toNat) (leBytes 4 r.len)
    (r.name ++ List.replicate r.padding 0 ++ rest)
  rw [hfront, length_leBytes] at hslice
  rw [slice_append_right, ← @leNat_leBytes 4 _ hlen, ← hslice]
  simp [InotifyRecord.encode]

theorem leNat_slice_mask :
    leNat (slice (before ++ (r.encode ++ rest)) (before.length + 4) 4) = r.mask.toNat := by
  have hslice := slice_middle (leBytes 4 r.wd.toNat) (leBytes 4 r.mask.toNat)
    (leBytes 4 r.cookie.toNat ++ leBytes 4 r.len ++ (r.name ++ List.replicate r.padding 0) ++ rest)
  rw [length_leBytes, length_leBytes] at hslice
  rw [slice_append_right, ← @leNat_leBytes 4 _ r.mask.toNat_lt, ← hslice]
  simp [InotifyRecord.encode]

/-- The name is read up to the first NUL behind it. -/
theorem cstringAt_name (hlen : 0 < r.len) :
    cstringAt (before ++ (r.encode ++ rest)) (before.length + inotifyEventSize) = r.name := by
  have hpadding : 0 < r.padding := by
    rcases r.terminated with hempty | hpadding
    · rw [InotifyRecord.len, hempty] at hlen
      simpa using hlen
    · exact hpadding
  obtain ⟨k, hk⟩ : ∃ k, r.padding = k + 1 := ⟨r.padding - 1, by omega⟩
  have hfront : (leBytes 4 r.wd.toNat ++ leBytes 4 r.mask.toNat ++ leBytes 4 r.cookie.toNat ++
      leBytes 4 r.len).length = inotifyEventSize := by
    simp [length_leBytes, inotifyEventSize]
  refine @cstringAt_of_drop _ (List.replicate k 0 ++ rest) _ _ r.noNul ?_
  rw [← List.drop_drop, List.drop_left, InotifyRecord.encode, List.append_assoc, ← hfront,
    List.drop_left, hk, List.replicate_succ, List.append_assoc, List.cons_append]

/-- A record without a name is skipped. -/
theorem visitEvent_of_len_eq_zero (hzero : r.len = 0) :
    visitEvent (before ++ (r.encode ++ rest)) before.length =
      { ptr := before.length
        reads := [(before.length + 12, 4)]
        call := expectedCall r
        next := before.length + (inotifyEventSize + r.len) } := by
  have hlen : r.len < 2 ^ 32 := by omega
  simp only [visitEvent, leNat_slice_len hlen, expectedCall]
  rw [if_neg (by omega), if_pos hzero]

/-- So is one whose path is too long. -/
theorem visitEvent_of_long (hlen : r.len < 2 ^ 32) (hpos : 0 < r.len)
    (hlong : pathMax ≤ (exchangePath r.name).length) :
    visitEvent (before ++ (r.encode ++ rest)) before.length =
      { ptr := before.length
        reads := [(before.length + 12, 4),
          (before.length + inotifyEventSize, r.name.length + 1)]
        call := expectedCall r
        next := before.length + (inotifyEventSize + r.len) } := by
  simp only [visitEvent, leNat_slice_len hlen, cstringAt_name hpos, expectedCall]
  rw [if_pos hpos, if_pos hlong, if_neg (by omega), if_neg (by omega)]

theorem visitEvent_of_short (hlen : r.len < 2 ^ 32) (hpos : 0 < r.len)
    (hshort : (exchangePath r.name).length < pathMax) :
    visitEvent (before ++ (r.encode ++ rest)) before.length =
      { ptr := before.length
        reads := [(before.length + 12, 4),
          (before.length + inotifyEventSize, r.name.length + 1), (before.length + 4, 4)]
        call := expectedCall r
        next := before.length + (inotifyEventSize + r.len) } := by
  simp only [visitEvent, leNat_slice_len hlen, cstringAt_name hpos, leNat_slice_mask,
    expectedCall, dispatchEvent_eq, snprintf_of_length_lt hshort]
  rw [if_pos hpos, if_neg (by omega), if_neg (by omega), if_pos hshort]

/-- A turn at the start of a record: it ends at the start of the next one, reads nothing beyond
it, and calls the handler that the record asks for. -/
theorem visitEvent_record (hlen : r.len < 2 ^ 32) :
    let visit := visitEvent (before ++ (r.encode ++ rest)) before.length
    visit.ptr = before.length ∧ visit.next = before.length + r.encode.length ∧
      visit.call = expectedCall r ∧
      ∀ read ∈ visit.reads, read.1 + read.2 ≤ before.length + r.encode.length := by
  rw [r.length_encode]
  have hhead : 16 ≤ inotifyEventSize := le_refl _
  by_cases hzero : r.len = 0
  · rw [visitEvent_of_len_eq_zero hzero]
    refine ⟨rfl, rfl, rfl, ?_⟩
    simp only [List.forall_mem_cons, List.not_mem_nil, false_implies, implies_true, and_true]
    omega
  · have hpos : 0 < r.len := by omega
    have hterminated : r.name.length + 1 ≤ r.len := by
      rcases r.terminated with hempty | hpadding
      · rw [hempty]
        exact hpos
      · unfold InotifyRecord.len
        omega
    by_cases hshort : (exchangePath r.name).length < pathMax
    · rw [visitEvent_of_short hlen hpos hshort]
      refine ⟨rfl, rfl, rfl, ?_⟩
      simp only [List.forall_mem_cons, List.not_mem_nil, false_implies, implies_true, and_true]
      omega
    · rw [visitEvent_of_long hlen hpos (by omega)]
      refine ⟨rfl, rfl, rfl, ?_⟩
      simp only [List.forall_mem_cons, List.not_mem_nil, false_implies, implies_true, and_true]
      omega

end Visit

/-! ## The loop over all records -/

theorem length_encodeRecords_cons (r : InotifyRecord) (rs : List InotifyRecord) :
    (encodeRecords (r :: rs)).length = r.encode.length + (encodeRecords rs).length := by
  rw [encodeRecords, List.flatMap_cons, List.length_append, encodeRecords]

/-- From the start of any record on: the pointer is where the records in front of it end. -/
theorem eventLoop_from {rs : List InotifyRecord} : ∀ {before stale : Bytes} {turns : Nat},
    rs.length < turns → (∀ r ∈ rs, r.len < 2 ^ 32) →
      ∃ visits,
        eventLoop (before ++ (encodeRecords rs ++ stale))
            (before.length + (encodeRecords rs).length) turns before.length =
          some (visits, before.length + (encodeRecords rs).length) ∧
        visits.map Visit.ptr = recordStarts before.length rs ∧
        visits.map Visit.call = rs.map expectedCall ∧
        ∀ visit ∈ visits, ∀ read ∈ visit.reads,
          read.1 + read.2 ≤ before.length + (encodeRecords rs).length := by
  induction rs with
  | nil =>
      intro before stale turns hturns _
      obtain ⟨k, rfl⟩ : ∃ k, turns = k + 1 := ⟨turns - 1, by simp at hturns; omega⟩
      exact ⟨[], by simp [eventLoop, encodeRecords], rfl, rfl, by simp⟩
  | cons r rs ih =>
      intro before stale turns hturns hlen
      rw [List.length_cons] at hturns
      obtain ⟨k, rfl⟩ : ∃ k, turns = k + 1 := ⟨turns - 1, by omega⟩
      rcases @visitEvent_record r before (encodeRecords rs ++ stale)
        (hlen r List.mem_cons_self) with ⟨hptr, hnext, hcall, hreads⟩
      -- the rest of the loop starts behind this record
      rcases @ih (before ++ r.encode) stale k (by omega)
        (fun r' hr' => hlen r' (List.mem_cons_of_mem _ hr')) with
        ⟨visits, hloop, hptrs, hcalls, hrest⟩
      have hbuffer : before ++ (encodeRecords (r :: rs) ++ stale) =
          before ++ (r.encode ++ (encodeRecords rs ++ stale)) := by
        rw [encodeRecords, List.flatMap_cons, List.append_assoc, encodeRecords]
      have hend : before.length + (encodeRecords (r :: rs)).length =
          (before ++ r.encode).length + (encodeRecords rs).length := by
        rw [length_encodeRecords_cons, List.length_append, Nat.add_assoc]
      have hstart : before.length + r.encode.length = (before ++ r.encode).length :=
        List.length_append.symm
      have hpos : before.length < (before ++ r.encode).length + (encodeRecords rs).length := by
        rw [List.length_append, r.length_encode, inotifyEventSize]
        omega
      rw [List.append_assoc] at hloop
      rw [hbuffer, hend]
      refine ⟨visitEvent (before ++ (r.encode ++ (encodeRecords rs ++ stale))) before.length ::
        visits, ?_, ?_, ?_, ?_⟩
      · rw [eventLoop, if_pos hpos]
        dsimp only
        rw [hnext, hstart, hloop]
        rfl
      · rw [List.map_cons, hptr, hptrs, recordStarts, List.length_append, r.length_encode]
      · rw [List.map_cons, List.map_cons, hcall, hcalls]
      · intro visit hvisit read hread
        rcases List.mem_cons.1 hvisit with rfl | hvisit
        · have hle := hreads read hread
          rw [List.length_append]
          omega
        · exact hrest visit hvisit read hread

/-- For every batch of records that fits into the buffer, whatever is behind it: the loop ends with
`ptr` at the end of the batch, has visited every record once and in order, has read nothing beyond
the batch, and has called for each record the handler that it asks for. -/
theorem eventLoop_records (rs : List InotifyRecord) (stale : Bytes)
    (hfit : (encodeRecords rs).length ≤ eventBufferSize) {turns : Nat}
    (hturns : rs.length < turns) :
    ∃ visits,
      eventLoop (encodeRecords rs ++ stale) (encodeRecords rs).length turns 0 =
        some (visits, (encodeRecords rs).length) ∧
      visits.map Visit.ptr = recordStarts 0 rs ∧
      visits.map Visit.call = rs.map expectedCall ∧
      ∀ visit ∈ visits, ∀ read ∈ visit.reads, read.1 + read.2 ≤ (encodeRecords rs).length := by
  have hlen : ∀ r ∈ rs, r.len < 2 ^ 32 := by
    intro r hr
    have hle : r.encode.length ≤ (encodeRecords rs).length :=
      List.Sublist.length_le (List.sublist_flatten_of_mem (List.mem_map_of_mem hr))
    rw [r.length_encode] at hle
    unfold eventBufferSize inotifyEventSize nameMax at hfit
    omega
  simpa using @eventLoop_from rs [] stale turns hturns hlen

/-- A record of a deletion. -/
def deletionOf (name : CString) (h : 0 ∉ name) : InotifyRecord :=
  { wd := 1
    mask := 0x200
    cookie := 0
    name := name
    padding := 16
    noNul := h
    terminated := Or.inr (by decide) }

set_option maxRecDepth 10000 in
/-- A deletion and a record without a name. -/
theorem eventLoop_deletion :
    let rs : List InotifyRecord :=
      [deletionOf (ascii "a") (by decide), ⟨1, 0x8, 0, [], 0, by decide, Or.inl rfl⟩]
    ∃ visits,
      eventLoop (encodeRecords rs ++ []) (encodeRecords rs).length 3 0 =
        some (visits, (encodeRecords rs).length) ∧
      visits.map Visit.ptr = recordStarts 0 rs ∧
      visits.map Visit.call = rs.map expectedCall ∧
      ∀ visit ∈ visits, ∀ read ∈ visit.reads, read.1 + read.2 ≤ (encodeRecords rs).length := by
  intro rs
  exact eventLoop_records rs [] (by decide) (by decide)

/-- A name that leaves no room for the directory in front of it. -/
def longName : CString :=
  List.replicate pathMax 97

theorem zero_not_mem_longName : 0 ∉ longName := by
  intro hzero
  exact absurd (List.eq_of_mem_replicate hzero) (by decide)

theorem pathMax_le_length_exchangePath_longName : pathMax ≤ (exchangePath longName).length := by
  rw [exchangePath, List.length_append, List.length_cons, longName, List.length_replicate]
  omega

/-- The deletion of a file with such a name: the record fits into the buffer and asks for
`handle_file_deleted`, and the loop goes on without a call. -/
theorem eventLoop_skips_longName :
    let r := deletionOf longName zero_not_mem_longName
    (encodeRecords [r]).length ≤ eventBufferSize ∧ r.name ≠ [] ∧
      expectedHandler r.mask.toNat (exchangePath r.name) =
        some (.fileDeleted (exchangePath r.name)) ∧
      (eventLoop (encodeRecords [r]) (encodeRecords [r]).length 2 0).map
          (fun run => run.1.map Visit.call) = some [none] := by
  intro r
  have hlen : r.len = pathMax + 16 := by
    change longName.length + 16 = pathMax + 16
    rw [longName, List.length_replicate]
  have hcall : expectedCall r = none := by
    have hlong := pathMax_le_length_exchangePath_longName
    rw [expectedCall, if_neg (by rw [hlen]; decide)]
    exact if_neg (Nat.not_lt.2 hlong)
  have hmask : r.mask.toNat = inDelete := rfl
  refine ⟨?_, List.cons_ne_nil _ _, ?_, ?_⟩
  · rw [encodeRecords, List.flatMap_singleton, r.length_encode, hlen]
    decide
  · rw [hmask, expectedHandler, if_neg (by decide), if_neg (by decide), if_pos (by decide)]
  · have hsmall : ∀ r' ∈ [r], r'.len < 2 ^ 32 := by
      intro r' hr'
      rw [List.mem_singleton.1 hr', hlen]
      decide
    rcases @eventLoop_from [r] [] [] 2 (by decide) hsmall with ⟨visits, hloop, -, hcalls, -⟩
    rw [List.nil_append, List.append_nil, List.length_nil, Nat.zero_add] at hloop
    rw [hloop, Option.map_some, hcalls, List.map_singleton, hcall]

end FileExchange
