import FileExchange.Server.List

/-!
# Server.ReadOnly — what a download or a list request leaves alone

A download appends to the journal, which lives in the collection of the uploads.

* `SetsOneKey`, `JournalsOnce` : all that an append does to a collection;
* `ReadsOnly`    : what a request may do that reads a file;
* `reading_readsOnly` : downloads read only, and lists write nothing, on every exit.
-/

namespace FileExchange

open Lib

/-! ## One append -/

/-- `d'` is `d` with one entry of its `proc` map set. -/
def SetsOneKey (d d' : Document) : Prop :=
  d'.withoutProc = d.withoutProc ∧
    ∃ m key event,
      (d.get? .proc = some (.proc m) ∨ d.get? .proc = none ∧ m = OrderedMap.empty) ∧
        d'.get? .proc = some (.proc (m.set key event))

/-- The base document of `path` is added, unless it has one, and then one entry of its `proc` map
is set; or only the first of these, or neither. -/
def JournalsOnce (path : CString) (coll coll' : Collection) : Prop :=
  ∃ base : Collection,
    (base = [] ∨ base = [baseDocument path] ∧ ∀ d ∈ coll, d.get? .id ≠ some (.utf8 path)) ∧
      (coll' = coll ++ base ∨
        ∃ pre d post d', coll ++ base = pre ++ d :: post ∧ coll' = pre ++ d' :: post ∧
          d.get? .id = some (.utf8 path) ∧ SetsOneKey d d')

section Append

variable {coll : Collection} {path : CString}

theorem setsOneKey_of_setProc {d d' : Document} {key : CString} {event : Event}
    (h : d.setProc key event = some d') : SetsOneKey d d' := by
  refine ⟨Document.withoutProc_of_setProc h, ?_⟩
  unfold Document.setProc at h
  split at h
  · next m hm =>
      cases h
      exact ⟨m, key, event, Or.inl hm, OrderedMap.get?_set_self _ _ _⟩
  · next hnone =>
      cases h
      exact ⟨OrderedMap.empty, key, event, Or.inr ⟨hnone, rfl⟩, OrderedMap.get?_set_self _ _ _⟩
  · cases h

theorem journalsOnce_refl : JournalsOnce path coll coll :=
  ⟨[], Or.inl rfl, Or.inl (List.append_nil coll).symm⟩

theorem exists_base_createBaseDocument (env : AppendEnv) (coll : Collection) (path : CString) :
    ∃ base : Collection, (createBaseDocument env coll path).1 = coll ++ base ∧
      (base = [] ∨ base = [baseDocument path] ∧ ∀ d ∈ coll, d.get? .id ≠ some (.utf8 path)) := by
  rcases createBaseDocument_cases env coll path with h | ⟨-, h⟩ | ⟨hnone, h⟩
  · exact ⟨[], by simp [h], Or.inl rfl⟩
  · exact ⟨[], by simp [h], Or.inl rfl⟩
  · refine ⟨[baseDocument path], by rw [h], Or.inr ⟨rfl, fun d hd => ?_⟩⟩
    simpa using eventDocument?_eq_none_iff.1 hnone d hd

theorem journalsOnce_appendProcEvent (env : AppendEnv) (coll : Collection)
    (path changeType status : CString) :
    JournalsOnce path coll (appendProcEvent env coll path changeType status).1 := by
  rcases exists_base_createBaseDocument env coll path with ⟨base, hbase, hnew⟩
  refine ⟨base, hnew, ?_⟩
  simp only [appendProcEvent]
  -- an early return leaves the base document
  split
  · exact Or.inl hbase
  · split
    · exact Or.inl hbase
    · split
      · exact Or.inl hbase
      · rw [hbase]
        rcases setProcEvent_cases env (coll ++ base) path _ _ with
          h | ⟨pre, d, post, d', key, hcoll, hid, hset, h⟩
        · exact Or.inl h
        · exact Or.inr ⟨pre, d, post, d', hcoll, h, hid, setsOneKey_of_setProc hset⟩

end Append

/-! ## Requests that read -/

/-- A document as `handle_upload_request` inserts it: its `_id` is an `ObjectId`. -/
def Document.insertedByUpload (d : Document) : Bool :=
  d.isUpload && decide (d.get? .id = none)

theorem insertedByUpload_uploadDocument (filename : CString) (filesize : Int64) (iv : Iv)
    (tag : Bytes) (client : CString) :
    (uploadDocument filename filesize iv tag client).insertedByUpload = true := rfl

/-- What a request may do that reads the file at `path`. -/
structure ReadsOnly (path : CString) (srv srv' : Server) (sent : List Message) : Prop where
  crypto : srv'.crypto = srv.crypto
  storage : srv'.storage = srv.storage
  uploads : srv'.collection.filter Document.insertedByUpload =
    srv.collection.filter Document.insertedByUpload
  others : (srv'.collection.filter fun d => decide (d.get? .id ≠ some (.utf8 path))) =
    srv.collection.filter fun d => decide (d.get? .id ≠ some (.utf8 path))
  journal : JournalsOnce path srv.collection srv'.collection
  success : srv'.collection ≠ srv.collection → ∃ size rest, sent = .response .success size :: rest

theorem sendFile_success {lib : CryptoLib} {key : Bytes} {env : DownloadEnv} {d : Document}
    {content : Bytes} {offset : Int64}
    (h : (sendFile lib key env d content offset).2 = .sent) :
    ∃ size rest, (sendFile lib key env d content offset).1 = .response .success size :: rest := by
  unfold sendFile at h ⊢
  split at h
  · cases h
  · next hbuffer =>
      rw [if_neg hbuffer]
      split at h
      · cases h
      · cases h
      · exact ⟨_, _, rfl⟩

/-- Of all exits only the last one goes on to `append_proc_event`, and it has sent
`RESP_SUCCESS`. -/
theorem downloadReply_success {lib : CryptoLib} {key : Bytes} {env : DownloadEnv}
    {found : Option Document} {file : Option Bytes} {req : RequestHeader} {client : CString}
    {r : List Message × DownloadExit} (h : downloadReply lib key env found file req client = r)
    (hend : r.2 = .sent) : ∃ size rest, r.1 = .response .success size :: rest := by
  subst h
  rcases downloadReply_cases lib key env found file req client with
    ⟨_, hreply⟩ | ⟨d, content, _, hreply⟩
  · rw [hreply] at hend
    cases hend
  · rw [hreply] at hend ⊢
    exact sendFile_success hend

/-- Whether the process lives on or not. -/
theorem readsOnly_refl (path : CString) (srv : Server) (alive : Bool) (sent : List Message) :
    ReadsOnly path srv { srv with alive := alive } sent where
  crypto := rfl
  storage := rfl
  uploads := rfl
  others := rfl
  journal := journalsOnce_refl
  success := fun h => absurd rfl h

/-- An append at the end of a request that has sent `RESP_SUCCESS`. -/
theorem readsOnly_append (srv : Server) (env : AppendEnv) (path changeType status : CString)
    {sent : List Message} (hsent : ∃ size rest, sent = .response .success size :: rest) :
    ReadsOnly path srv
      { srv with collection := (appendProcEvent env srv.collection path changeType status).1 }
      sent where
  crypto := rfl
  storage := rfl
  uploads := by
    -- a document without an `_id` of its own is none of the journal
    refine filter_eq_of_imp (fun d hd => ?_)
      (@filter_appendProcEvent (fun id => decide (id = none)) path rfl env srv.collection
        changeType status)
    rw [Document.insertedByUpload, Bool.and_eq_true] at hd
    exact hd.2
  others :=
    @filter_appendProcEvent (fun id => decide (id ≠ some (.utf8 path))) path (by simp) env
      srv.collection changeType status
  journal := journalsOnce_appendProcEvent env srv.collection path changeType status
  success := fun _ => hsent

/-- For every server state and every request: a download, whichever exit it takes, changes at
most the journal of the requested file, and that only after `RESP_SUCCESS`; a list changes
nothing. -/
theorem reading_readsOnly (lib : CryptoLib) (srv : Server) (req : RequestHeader)
    (client : CString) (download : DownloadEnv) (list : ListEnv) :
    ReadsOnly (storagePath req.filename) srv (handleDownload lib srv req client download).1
        (handleDownload lib srv req client download).2 ∧
      (handleList srv list).1.crypto = srv.crypto ∧
      (handleList srv list).1.storage = srv.storage ∧
      (handleList srv list).1.collection = srv.collection := by
  refine ⟨?_, handleList_server srv list⟩
  simp only [handleDownload]
  split
  · exact readsOnly_refl _ srv srv.alive _
  · exact readsOnly_refl _ srv false _
  · next hend => exact readsOnly_append srv _ _ _ _ (downloadReply_success rfl hend)

end FileExchange
