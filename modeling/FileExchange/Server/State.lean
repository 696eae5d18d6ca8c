import FileExchange.Crypto
import FileExchange.Journal.Concurrent
import FileExchange.Protocol

/-!
# Server.State — what `server.c` keeps

* `Storage` : the files of `STORAGE_DIR`, by path;
* `Server`  : key, files, collection, and whether the process still runs;
* `uploadDocument`, `downloadQuery` : the document an upload inserts and the query a download
  makes;
* `uploadDocs` : the upload documents of a collection, which the event log never touches.
-/

namespace FileExchange

open Lib

/-! ## Files -/

/-- `STORAGE_DIR`. -/
def storageDir : CString := ascii "../../filetrade"

/-- `snprintf(filepath, sizeof(filepath), "%s/%s", STORAGE_DIR, filename)`. -/
def storagePath (filename : CString) : CString :=
  snprintf pathMax (storageDir ++ slash :: filename)

/-- The paths of regular files, with their contents. -/
abbrev Storage := OrderedMap CString Bytes

/-- Whether a path in `STORAGE_DIR` can name a regular file. -/
def openable (path : CString) : Bool :=
  let name := lastComponent path
  decide (name ≠ []) && decide (name ≠ [dot]) && decide (name ≠ [dot, dot]) &&
    decide (name.length ≤ nameMax)

/-- A path in `STORAGE_DIR` ends in the name, unless the name is much too long. -/
theorem lastComponent_storagePath {name : CString} (h : slash ∉ name) :
    lastComponent (storagePath name) = name.take 4079 := by
  -- the directory and the slash take 16 of the 4095 bytes that `snprintf` keeps
  have hpath : storagePath name = storageDir ++ slash :: name.take 4079 := by
    have hdir : storageDir.length = 15 := by decide
    rw [storagePath, snprintf, List.take_append, List.take_of_length_le]
    · rw [hdir]
      rfl
    · rw [hdir]
      decide
  have hmem : slash ∉ name.take 4079 := fun hmem => h (List.mem_of_mem_take hmem)
  rw [lastComponent, hpath, strrchr_append_cons hmem]
  rfl

theorem lastComponent_of_openable {name : CString} (h : slash ∉ name)
    (hopen : openable (storagePath name) = true) : lastComponent (storagePath name) = name := by
  -- a name that was cut is longer than `NAME_MAX`, so the path does not open
  have hlen : (name.take 4079).length ≤ nameMax := by
    simp only [openable, Bool.and_eq_true, decide_eq_true_eq] at hopen
    rw [← lastComponent_storagePath h]
    exact hopen.2
  rw [lastComponent_storagePath h]
  rw [List.length_take] at hlen
  unfold nameMax at hlen
  exact List.take_of_length_le (by omega)

/-- Different names have different files. -/
theorem storagePath_injective {a b : CString} (ha : slash ∉ a) (hb : slash ∉ b)
    (hopena : openable (storagePath a) = true) (hopenb : openable (storagePath b) = true)
    (h : storagePath a = storagePath b) : a = b := by
  calc a = lastComponent (storagePath a) := (lastComponent_of_openable ha hopena).symm
    _ = lastComponent (storagePath b) := by rw [h]
    _ = b := lastComponent_of_openable hb hopenb

/-- `fopen(path, "wb")`, which creates or empties the file. -/
def fopenWb (granted : Bool) (storage : Storage) (path : CString) : Option Storage :=
  if granted && openable path then some (storage.set path []) else none

/-- What stdio does with a file that is written: whether it opens, how many bytes `fwrite`
accepts and how many of these have reached the file after `fclose`; `none` stands for all.  From a
null pointer `fwrite` writes nothing: either it hands the pointer on to the system, which refuses
it, or it reads from it itself, which ends the process. -/
structure StdioEnv where
  opened : Bool
  writeLimit : Option Nat
  flushLimit : Option Nat
  nullFaults : Bool
  deriving DecidableEq, Repr

namespace StdioEnv

/-- The file opens and every byte is written. -/
def ok : StdioEnv :=
  { opened := true, writeLimit := none, flushLimit := none, nullFaults := true }

/-- The result of `fwrite(buf, 1, n, fp)`. -/
def written (env : StdioEnv) (n : Nat) : Nat :=
  match env.writeLimit with
  | none => n
  | some k => min k n

/-- The number of bytes in the file after `fclose`. -/
def delivered (env : StdioEnv) (n : Nat) : Nat :=
  match env.flushLimit with
  | none => env.written n
  | some k => min k (env.written n)

theorem written_le (env : StdioEnv) (n : Nat) : env.written n ≤ n := by
  unfold written
  split
  · exact le_rfl
  · exact Nat.min_le_right _ _

theorem delivered_le (env : StdioEnv) (n : Nat) : env.delivered n ≤ n := by
  unfold delivered
  split
  · exact env.written_le n
  · exact (Nat.min_le_right _ _).trans (env.written_le n)

end StdioEnv

/-! ## The process -/

/-- `g_file_crypto`. -/
structure FileCryptoCtx where
  key : Bytes
  initialized : Bool
  deriving DecidableEq, Repr

/-- `alive` becomes false when the process dies of an access through a null pointer. -/
structure Server where
  crypto : FileCryptoCtx
  storage : Storage
  collection : Collection
  alive : Bool
  deriving DecidableEq

/-- A server process that has its key. -/
def Server.started (key : Bytes) (storage : Storage) (coll : Collection) : Server :=
  { crypto := { key := key, initialized := true }
    storage := storage
    collection := coll
    alive := true }

/-! ## Documents of uploads -/

/-- The document as `handle_upload_request` inserts it. -/
def uploadDocument (filename : CString) (filesize : Int64) (iv : Iv) (tag : Bytes)
    (clientFingerprint : CString) : Document :=
  { entries :=
      [(.filename, .utf8 filename),
       (.size, .int64 filesize.toInt),
       (.encrypted, .bool true),
       (.iv, .binary iv.val),
       (.tag, .binary tag),
       (.deleted, .bool false),
       (.ownerFingerprint, .utf8 clientFingerprint)]
    nodupKeys := by simp }

section Fields

variable (filename : CString) (filesize : Int64) (iv : Iv) (tag : Bytes) (client : CString)

@[simp] theorem get?_filename_uploadDocument :
    (uploadDocument filename filesize iv tag client).get? .filename = some (.utf8 filename) := rfl

@[simp] theorem get?_size_uploadDocument :
    (uploadDocument filename filesize iv tag client).get? .size = some (.int64 filesize.toInt) :=
  rfl

@[simp] theorem binary?_iv_uploadDocument :
    (uploadDocument filename filesize iv tag client).binary? .iv = some iv.val := rfl

@[simp] theorem binary?_tag_uploadDocument :
    (uploadDocument filename filesize iv tag client).binary? .tag = some tag := rfl

@[simp] theorem utf8?_owner_uploadDocument :
    (uploadDocument filename filesize iv tag client).utf8? .ownerFingerprint = some client := rfl

@[simp] theorem bool?_isPublic_uploadDocument :
    (uploadDocument filename filesize iv tag client).bool? .isPublic = none := rfl

end Fields

/-- `{"filename": filename, "deleted": false}`. -/
def downloadQuery (filename : CString) : List (Field × Value) :=
  [(.filename, .utf8 filename), (.deleted, .bool false)]

/-- The document that a download of `filename` finds. -/
def firstUpload? (coll : Collection) (filename : CString) : Option Document :=
  (coll.find (downloadQuery filename)).head?

/-- A document with `deleted: false`, as only uploads insert them. -/
def Document.isUpload (d : Document) : Bool :=
  decide (d.get? .deleted = some (.bool false))

/-- A document up to the events that were put into it. -/
def Document.withoutProc (d : Document) : Document :=
  OrderedMap.erase d .proc

theorem Document.get?_withoutProc {f : Field} (h : f ≠ .proc) (d : Document) :
    d.withoutProc.get? f = d.get? f :=
  OrderedMap.get?_erase_of_ne h

theorem Document.withoutProc_withoutProc (d : Document) :
    d.withoutProc.withoutProc = d.withoutProc :=
  OrderedMap.ext_entries (by simp [Document.withoutProc, OrderedMap.erase])

section Fields

variable {d d' : Document} {f : Field}

theorem Document.get?_congr (h : d.withoutProc = d'.withoutProc) (hf : f ≠ .proc) :
    d.get? f = d'.get? f := by
  rw [← Document.get?_withoutProc hf, h, Document.get?_withoutProc hf]

theorem Document.utf8?_congr (h : d.withoutProc = d'.withoutProc) (hf : f ≠ .proc) :
    d.utf8? f = d'.utf8? f := by
  rw [Document.utf8?, Document.utf8?, Document.get?_congr h hf]

theorem Document.bool?_congr (h : d.withoutProc = d'.withoutProc) (hf : f ≠ .proc) :
    d.bool? f = d'.bool? f := by
  rw [Document.bool?, Document.bool?, Document.get?_congr h hf]

theorem Document.binary?_congr (h : d.withoutProc = d'.withoutProc) (hf : f ≠ .proc) :
    d.binary? f = d'.binary? f := by
  rw [Document.binary?, Document.binary?, Document.get?_congr h hf]

end Fields

theorem Document.isUpload_withoutProc (d : Document) : d.withoutProc.isUpload = d.isUpload := by
  rw [Document.isUpload, Document.get?_withoutProc (by decide), Document.isUpload]

/-- The documents of a collection up to their events. -/
def withoutEvents (coll : Collection) : List Document :=
  coll.map Document.withoutProc

/-- The upload documents of a collection, up to events. -/
def uploadDocs (coll : Collection) : List Document :=
  (withoutEvents coll).filter Document.isUpload

@[simp] theorem withoutEvents_append (coll coll' : Collection) :
    withoutEvents (coll ++ coll') = withoutEvents coll ++ withoutEvents coll' := by
  simp [withoutEvents]

@[simp] theorem uploadDocs_nil : uploadDocs [] = [] := rfl

@[simp] theorem uploadDocs_append (coll coll' : Collection) :
    uploadDocs (coll ++ coll') = uploadDocs coll ++ uploadDocs coll' := by
  simp [uploadDocs]

theorem withoutProc_uploadDocument (filename : CString) (filesize : Int64) (iv : Iv) (tag : Bytes)
    (client : CString) :
    (uploadDocument filename filesize iv tag client).withoutProc =
      uploadDocument filename filesize iv tag client :=
  OrderedMap.ext_entries rfl

@[simp] theorem uploadDocs_uploadDocument (filename : CString) (filesize : Int64) (iv : Iv)
    (tag : Bytes) (client : CString) :
    uploadDocs [uploadDocument filename filesize iv tag client] =
      [uploadDocument filename filesize iv tag client] := by
  have hupload : (uploadDocument filename filesize iv tag client).isUpload = true := by
    simp [Document.isUpload, uploadDocument, OrderedMap.get?]
  simp [uploadDocs, withoutEvents, withoutProc_uploadDocument, hupload]

/-- The document that a download finds, up to its events. -/
theorem firstUpload?_map_withoutProc (coll : Collection) (filename : CString) :
    (firstUpload? coll filename).map Document.withoutProc =
      (uploadDocs coll).find? fun d => decide (d.get? .filename = some (.utf8 filename)) := by
  -- the query reads two fields, and neither is `proc`
  have hselect : ∀ d : Document, d.satisfies (downloadQuery filename) =
      (d.withoutProc.isUpload &&
        decide (d.withoutProc.get? .filename = some (.utf8 filename))) := by
    intro d
    rw [Document.isUpload_withoutProc, Document.get?_withoutProc (by decide)]
    simp [Document.satisfies, downloadQuery, Document.isUpload, Bool.and_comm]
  rw [firstUpload?, Collection.find, List.head?_filter, uploadDocs, withoutEvents,
    List.find?_filter, List.find?_map]
  congr 1
  refine congrArg (List.find? · coll) ?_
  funext d
  simp [hselect]

theorem firstUpload?_eq_none_iff {coll : Collection} {filename : CString} :
    firstUpload? coll filename = none ↔
      ∀ d ∈ uploadDocs coll, d.get? .filename ≠ some (.utf8 filename) := by
  rw [← Option.map_eq_none_iff (f := Document.withoutProc), firstUpload?_map_withoutProc,
    List.find?_eq_none]
  simp

/-! ## The event log leaves the upload documents alone -/

theorem Document.withoutProc_of_setProc {d d' : Document} {key : CString} {event : Event}
    (h : d.setProc key event = some d') : d'.withoutProc = d.withoutProc := by
  unfold Document.setProc at h
  split at h
  · rw [← Option.some.inj h]
    exact OrderedMap.erase_set_self _ _ _
  · rw [← Option.some.inj h]
    exact OrderedMap.erase_set_self _ _ _
  · cases h

theorem withoutEvents_setProcEvent (env : AppendEnv) (coll : Collection) (fileId key : CString)
    (event : Event) :
    withoutEvents (setProcEvent env coll fileId key event).1 = withoutEvents coll := by
  rcases setProcEvent_cases env coll fileId key event with
    h | ⟨pre, d, post, d', key', rfl, -, hset, h⟩
  · rw [h]
  -- the command changes the `proc` field of a document
  · rw [h]
    simp [withoutEvents, Document.withoutProc_of_setProc hset]

/-- `create_base_document` adds at most the base document. -/
theorem withoutEvents_createBaseDocument (env : AppendEnv) (coll : Collection)
    (fileId : CString) :
    ∃ base, withoutEvents (createBaseDocument env coll fileId).1 = withoutEvents coll ++ base ∧
      base.filter Document.isUpload = [] := by
  rcases createBaseDocument_cases env coll fileId with h | ⟨_, h⟩ | ⟨_, h⟩
  · exact ⟨[], by simp [h], rfl⟩
  · exact ⟨[], by simp [h], rfl⟩
  · refine ⟨withoutEvents [baseDocument fileId], by simp [h], ?_⟩
    -- a base document has no `deleted` field
    have hbase : (baseDocument fileId).isUpload = false := by
      simp [Document.isUpload, baseDocument, OrderedMap.get?]
    simp [withoutEvents, Document.isUpload_withoutProc, hbase]

theorem withoutEvents_appendProcEvent (env : AppendEnv) (coll : Collection)
    (fileId changeType status : CString) :
    ∃ base, withoutEvents (appendProcEvent env coll fileId changeType status).1 =
        withoutEvents coll ++ base ∧ base.filter Document.isUpload = [] := by
  rcases withoutEvents_createBaseDocument env coll fileId with ⟨base, hbase, hnone⟩
  refine ⟨base, ?_, hnone⟩
  simp only [appendProcEvent]
  -- each early return leaves what `create_base_document` left
  split
  · exact hbase
  · split
    · exact hbase
    · split
      · exact hbase
      · rw [withoutEvents_setProcEvent, hbase]

theorem uploadDocs_appendProcEvent (env : AppendEnv) (coll : Collection)
    (fileId changeType status : CString) :
    uploadDocs (appendProcEvent env coll fileId changeType status).1 = uploadDocs coll := by
  rcases withoutEvents_appendProcEvent env coll fileId changeType status with ⟨base, hbase, hnone⟩
  calc uploadDocs (appendProcEvent env coll fileId changeType status).1
      = (withoutEvents coll ++ base).filter Document.isUpload := by rw [uploadDocs, hbase]
    _ = uploadDocs coll := by rw [List.filter_append, hnone, List.append_nil, uploadDocs]

/-- Nor does any single step of a call touch them. -/
theorem uploadDocs_appendStep {fileId : CString} {coll : Collection} {t : AppendThread}
    (coll' : Collection) (t' : AppendThread)
    (h : appendStep fileId coll t = some (coll', t')) : uploadDocs coll' = uploadDocs coll := by
  unfold appendStep at h
  split at h
  -- the insert of the base document
  · rcases withoutEvents_createBaseDocument t.call.env coll fileId with ⟨base, hbase, hnone⟩
    have hdocs : uploadDocs (createBaseDocument t.call.env coll fileId).1 = uploadDocs coll := by
      rw [uploadDocs, hbase, List.filter_append, hnone, List.append_nil, uploadDocs]
    simp only at h
    split at h
    · cases h
      exact hdocs
    · cases h
      exact hdocs
  -- the scan of the map, which only reads
  · split at h
    · cases h
      rfl
    · cases h
      rfl
  · cases h
    rw [uploadDocs, withoutEvents_setProcEvent, uploadDocs]
  · cases h

end FileExchange
