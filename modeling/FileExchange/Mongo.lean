import Mathlib.Algebra.Order.BigOperators.Group.List
import Mathlib.Algebra.Order.Ring.Nat
import FileExchange.CLibrary
import FileExchange.Lib.OrderedMap

/-!
# Mongo — documents and the single commands of the database

* `Document`   : the documents of collection `file_groups`, fields in insertion order;
* `Collection` : the documents in insertion order, with `find`, `insertOne` and `updateOne`.

Each operation is one atomic command of the database.  A document that is inserted without
`_id` gets a fresh `ObjectId` from the driver; no query of the program can match it, so the
model leaves it out.
-/

namespace FileExchange

open Lib

/-! ## Documents -/

/-- One entry of a `proc` map: `{date, info: {type_of_changes, status}}`. -/
structure Event where
  date : Int
  typeOfChanges : CString
  status : CString
  deriving DecidableEq, Repr

/-- The `proc` map of a file's event document. -/
abbrev ProcMap := OrderedMap CString Event

/-- The field names that the program writes or queries. -/
inductive Field
  | id
  | filename
  | extension
  | proc
  | size
  | encrypted
  | iv
  | tag
  | deleted
  | ownerFingerprint
  | recipientFingerprint
  | isPublic
  | uploadedAt
  | mimeType
  | lastModified
  deriving DecidableEq, Repr

/-- The BSON key of a field. -/
def Field.key : Field → String
  | .id => "_id"
  | .filename => "filename"
  | .extension => "extension"
  | .proc => "proc"
  | .size => "size"
  | .encrypted => "encrypted"
  | .iv => "iv"
  | .tag => "tag"
  | .deleted => "deleted"
  | .ownerFingerprint => "owner_fingerprint"
  | .recipientFingerprint => "recipient_fingerprint"
  | .isPublic => "public"
  | .uploadedAt => "uploaded_at"
  | .mimeType => "mime_type"
  | .lastModified => "last_modified"

inductive Value
  | utf8 (s : CString)
  | int64 (n : Int)
  | bool (b : Bool)
  | binary (b : Bytes)
  | dateTime (ms : Int)
  | proc (m : ProcMap)
  deriving DecidableEq

abbrev Document := OrderedMap Field Value

namespace Document

/-- `bson_iter_init_find` with `BSON_ITER_HOLDS_UTF8`. -/
def utf8? (d : Document) (f : Field) : Option CString :=
  match d.get? f with
  | some (.utf8 s) => some s
  | _ => none

/-- `bson_iter_init_find` with `BSON_ITER_HOLDS_BOOL`. -/
def bool? (d : Document) (f : Field) : Option Bool :=
  match d.get? f with
  | some (.bool b) => some b
  | _ => none

/-- `bson_iter_init_find` with `BSON_ITER_HOLDS_BINARY`. -/
def binary? (d : Document) (f : Field) : Option Bytes :=
  match d.get? f with
  | some (.binary b) => some b
  | _ => none

/-- `bson_iter_init_find` of `proc` with `BSON_ITER_HOLDS_DOCUMENT`. -/
def proc? (d : Document) : Option ProcMap :=
  match d.get? .proc with
  | some (.proc m) => some m
  | _ => none

/-- Whether `d` is selected by a query that gives values to fields. -/
def satisfies (d : Document) (query : List (Field × Value)) : Bool :=
  query.all fun q => d.get? q.1 = some q.2

/-- `{"$set": {"proc.<key>": event}}`; it fails when `proc` is not a document. -/
def setProc (d : Document) (key : CString) (event : Event) : Option Document :=
  match d.get? .proc with
  | some (.proc m) => some (d.set .proc (.proc (m.set key event)))
  -- `$set` creates the map when the field is missing
  | none => some (d.set .proc (.proc (OrderedMap.empty.set key event)))
  | some _ => none

theorem get?_of_proc? {d : Document} {m : ProcMap} (h : d.proc? = some m) :
    d.get? .proc = some (.proc m) := by
  unfold proc? at h
  split at h
  · next heq =>
      cases h
      exact heq
  · cases h

theorem get?_of_setProc {d d' : Document} {key : CString} {event : Event}
    (h : d.setProc key event = some d') {f : Field} (hf : f ≠ .proc) : d'.get? f = d.get? f := by
  unfold setProc at h
  split at h
  · rw [← Option.some.inj h]
    exact OrderedMap.get?_set_of_ne hf _
  · rw [← Option.some.inj h]
    exact OrderedMap.get?_set_of_ne hf _
  · cases h

/-- `$set` of an entry changes the `proc` map and no other field. -/
theorem setProc_of_proc? {d : Document} {m : ProcMap} (h : d.proc? = some m) (key : CString)
    (event : Event) :
    ∃ d' : Document, d.setProc key event = some d' ∧ d'.proc? = some (m.set key event) ∧
      ∀ f, f ≠ .proc → d'.get? f = d.get? f := by
  refine ⟨d.set .proc (.proc (m.set key event)), ?_, ?_, ?_⟩
  · simp [setProc, get?_of_proc? h]
  · simp [proc?]
  · intro f hf
    exact OrderedMap.get?_set_of_ne hf _

end Document

/-! ## Sizes -/

/-- Bytes of an event: two documents with the fields `date` and `info`, `type_of_changes`
and `status`. -/
def Event.bsonSize (e : Event) : Nat :=
  let info := 4 + (1 + 16 + (5 + e.typeOfChanges.length)) + (1 + 7 + (5 + e.status.length)) + 1
  4 + (1 + 5 + 8) + (1 + 5 + info) + 1

def ProcMap.bsonSize (m : ProcMap) : Nat :=
  4 + (m.entries.map fun e => 2 + e.1.length + e.2.bsonSize).sum + 1

def Value.bsonSize : Value → Nat
  | .utf8 s => 5 + s.length
  | .int64 _ => 8
  | .bool _ => 1
  | .binary b => 5 + b.length
  | .dateTime _ => 8
  | .proc m => ProcMap.bsonSize m

def Document.bsonSize (d : Document) : Nat :=
  4 + (d.entries.map fun e => 2 + e.1.key.length + e.2.bsonSize).sum + 1

/-- The largest document that MongoDB stores: 16 MiB. -/
def maxBsonObjectSize : Nat := 16777216

theorem ProcMap.length_le_bsonSize (m : ProcMap) : m.entries.length ≤ ProcMap.bsonSize m := by
  -- every entry takes more than one byte
  have hsum : m.entries.length ≤ (m.entries.map fun e => 2 + e.1.length + e.2.bsonSize).sum := by
    have h := List.length_le_sum_of_one_le (m.entries.map fun e => 2 + e.1.length + e.2.bsonSize)
      (by
        intro n hn
        rcases List.mem_map.1 hn with ⟨e, _, rfl⟩
        omega)
    simpa using h
  unfold ProcMap.bsonSize
  omega

/-- A document is at least as large as its `proc` map, hence as the number of its events. -/
theorem Document.length_proc_le_bsonSize {d : Document} {m : ProcMap} (h : d.proc? = some m) :
    m.entries.length ≤ d.bsonSize := by
  -- the map is one of the summands of the document's size
  have hmem : (Field.proc, Value.proc m) ∈ d.entries :=
    OrderedMap.mem_entries_of_get? (Document.get?_of_proc? h)
  have hle : 2 + Field.proc.key.length + (Value.proc m).bsonSize ≤
      (d.entries.map fun e => 2 + e.1.key.length + e.2.bsonSize).sum :=
    List.single_le_sum (by simp) _ (List.mem_map.2 ⟨_, hmem, rfl⟩)
  have hm := ProcMap.length_le_bsonSize m
  have hv : (Value.proc m).bsonSize = ProcMap.bsonSize m := rfl
  unfold Document.bsonSize
  omega

/-! ## Collections -/

/-- The documents of a collection, in insertion order. -/
abbrev Collection := List Document

/-- Why `insert_one` fails: code 11000, or anything else. -/
inductive InsertError
  | duplicateKey
  | other
  deriving DecidableEq, Repr

namespace Collection

/-- `mongoc_collection_find_with_opts`: the selected documents, in insertion order. -/
def find (c : Collection) (query : List (Field × Value)) : List Document :=
  c.filter fun d => d.satisfies query

/-- `mongoc_collection_insert_one`, for a command that reaches the database. -/
def insertOne (c : Collection) (d : Document) : Except InsertError Collection :=
  match d.get? .id with
  | some v => if c.any fun e => e.get? .id = some v then .error .duplicateKey else .ok (c ++ [d])
  | none => .ok (c ++ [d])

/-- `mongoc_collection_update_one`: the first selected document is changed, if there is one.
An update that fails, or whose result is too large to be stored, changes nothing. -/
def updateOne (query : List (Field × Value)) (update : Document → Option Document) :
    Collection → Option Collection
  | [] => some []
  | d :: c =>
      -- only the first selected document is looked at
      if d.satisfies query then
        match update d with
        | some d' => if d'.bsonSize ≤ maxBsonObjectSize then some (d' :: c) else none
        | none => none
      else (updateOne query update c).map (d :: ·)

/-! ## What a command leaves in the collection -/

theorem updateOne_of_forall_not {query : List (Field × Value)}
    {update : Document → Option Document} {c : Collection}
    (h : ∀ d ∈ c, d.satisfies query = false) : updateOne query update c = some c := by
  induction c with
  | nil =>
      rfl
  | cons d c ih =>
      have hd : d.satisfies query = false := h d (by simp)
      have hc : updateOne query update c = some c := ih fun e he => h e (by simp [he])
      simp [updateOne, hd, hc]

/-- The first selected document, between the documents before and after it. -/
theorem updateOne_append_cons {query : List (Field × Value)}
    {update : Document → Option Document} {pre post : Collection} {d : Document}
    (hpre : ∀ e ∈ pre, e.satisfies query = false) (hd : d.satisfies query = true) :
    updateOne query update (pre ++ d :: post) =
      ((update d).filter fun d' => decide (d'.bsonSize ≤ maxBsonObjectSize)).map
        fun d' => pre ++ d' :: post := by
  induction pre with
  | nil =>
      -- the update succeeds, and its result fits, exactly when the filter keeps it
      cases hu : update d with
      | none =>
          simp [updateOne, hd, hu]
      | some d' =>
          by_cases hsize : d'.bsonSize ≤ maxBsonObjectSize
          · simp [updateOne, hd, hu, hsize, Option.filter]
          · simp [updateOne, hd, hu, hsize, Option.filter]
  | cons e pre ih =>
      have he : e.satisfies query = false := hpre e (by simp)
      have hrec := ih fun e' he' => hpre e' (by simp [he'])
      simp [updateOne, he, hrec, Function.comp_def]

/-- Either no document is selected, or there is a first one. -/
theorem exists_first_or_forall_not (c : Collection) (query : List (Field × Value)) :
    (∀ d ∈ c, d.satisfies query = false) ∨
      ∃ pre d post, c = pre ++ d :: post ∧ (∀ e ∈ pre, e.satisfies query = false) ∧
        d.satisfies query = true := by
  induction c with
  | nil =>
      exact Or.inl (by simp)
  | cons d c ih =>
      cases hd : d.satisfies query with
      | true =>
          exact Or.inr ⟨[], d, c, rfl, by simp, hd⟩
      | false =>
          -- `d` is not selected: the first one is that of the rest, or there is none
          rcases ih with h | ⟨pre, e, post, rfl, hpre, he⟩
          · refine Or.inl fun e he => ?_
            rcases List.mem_cons.1 he with rfl | he
            · exact hd
            · exact h e he
          · refine Or.inr ⟨d :: pre, e, post, rfl, ?_, he⟩
            intro e' he'
            rcases List.mem_cons.1 he' with rfl | he'
            · exact hd
            · exact hpre e' he'

/-- A command that succeeds has found no document, or it has changed the first one. -/
theorem updateOne_cases {query : List (Field × Value)} {update : Document → Option Document}
    {c c' : Collection} (h : updateOne query update c = some c') :
    ((∀ d ∈ c, d.satisfies query = false) ∧ c' = c) ∨
      ∃ pre d post d', c = pre ++ d :: post ∧ (∀ e ∈ pre, e.satisfies query = false) ∧
        d.satisfies query = true ∧ update d = some d' ∧ c' = pre ++ d' :: post := by
  rcases exists_first_or_forall_not c query with hnone | ⟨pre, d, post, rfl, hpre, hd⟩
  · rw [updateOne_of_forall_not hnone] at h
    exact Or.inl ⟨hnone, (Option.some.inj h).symm⟩
  · rw [updateOne_append_cons hpre hd] at h
    rcases Option.map_eq_some_iff.1 h with ⟨d', hd', rfl⟩
    exact Or.inr ⟨pre, d, post, d', rfl, hpre, hd, (Option.filter_eq_some_iff.1 hd').1, rfl⟩

end Collection

end FileExchange
