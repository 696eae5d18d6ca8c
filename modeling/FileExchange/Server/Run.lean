import FileExchange.Server.List

/-!
# Server.Run — requests one after the other

* `serve`      : the switch in `handle_client`;
* `serveAll`   : a sequence of requests, of any clients;
* `storedFile` : the file that a request stores, if it is a successful upload;
* `serveAll_uploadDocs` : the upload documents are those of the successful uploads, in order.
-/

namespace FileExchange

open Lib

/-- A request: who sends it, its header, the records that follow, and what its handler finds. -/
structure Request where
  client : CString
  header : RequestHeader
  incoming : List Bytes
  upload : UploadEnv
  download : DownloadEnv
  list : ListEnv

/-- A truthful upload in which every step works. -/
def Request.uploading (client filename : CString) (content hash : Bytes) : Request :=
  { client := client
    header := RequestHeader.announcing filename content hash []
    incoming := [content]
    upload := UploadEnv.ok sampleIv 0
    download := DownloadEnv.ok 0
    list := ListEnv.ok fun _ => [] }

/-- A download from the start of the file in which every step works. -/
def Request.downloading (client filename : CString) : Request :=
  { client := client
    header := { RequestHeader.announcing filename [] [] [] with command := .download }
    incoming := []
    upload := UploadEnv.ok sampleIv 0
    download := DownloadEnv.ok 0
    list := ListEnv.ok fun _ => [] }

def serve (lib : CryptoLib) (srv : Server) (r : Request) : Server × List Message :=
  if !srv.alive then (srv, [])
  else
    match r.header.command with
    | .upload =>
        let h := handleUpload lib srv r.header r.client r.upload r.incoming
        (h.server, h.sent)
    | .download => handleDownload lib srv r.header r.client r.download
    | .list => handleList srv r.list
    | .unknown => (srv, [.status .unknownCommand])

/-- The server process as a transition system whose steps are whole requests. -/
def sequential (lib : CryptoLib) : Lts Server Request where
  step srv r := some (serve lib srv r).1

def serveAll (lib : CryptoLib) (srv : Server) (rs : List Request) : Server :=
  rs.foldl (fun s r => (serve lib s r).1) srv

theorem sequential_run (lib : CryptoLib) (srv : Server) (rs : List Request) :
    (sequential lib).run srv rs = some (serveAll lib srv rs) := by
  induction rs generalizing srv with
  | nil =>
      rfl
  | cons r rs ih =>
      exact ih (serve lib srv r).1

/-! ## Successful uploads -/

/-- The encrypted file of an upload request that opens its target. -/
def Request.opens (lib : CryptoLib) (crypto : FileCryptoCtx) (r : Request) : Option SealedFile :=
  if r.header.command = .upload then openedFile lib crypto r.upload r.header r.incoming else none

/-- The file of a successful upload request. -/
def storedFile (lib : CryptoLib) (crypto : FileCryptoCtx) (r : Request) : Option SealedFile :=
  (r.opens lib crypto).filter fun file => file.isStored r.upload

section Serve

variable {lib : CryptoLib} {crypto : FileCryptoCtx} {srv : Server} {r : Request} {file : SealedFile}

theorem Request.delivers_of_opens (h : r.opens lib crypto = some file) :
    r.header.command = .upload ∧ openable (storagePath r.header.filename) = true ∧
      Prologue.Delivers lib crypto r.upload r.header r.incoming file := by
  unfold Request.opens at h
  split at h
  · next hcmd =>
      unfold openedFile at h
      split at h
      · next hopen =>
          exact ⟨hcmd, (Bool.and_eq_true_iff.1 hopen).2, uploadPrologue_delivers h⟩
      · cases h
  · cases h

/-- A request that opens no file changes neither files nor upload documents. -/
theorem serve_of_not_opens (h : r.opens lib srv.crypto = none) :
    (serve lib srv r).1.crypto = srv.crypto ∧ (serve lib srv r).1.storage = srv.storage ∧
      uploadDocs (serve lib srv r).1.collection = uploadDocs srv.collection := by
  unfold serve
  split
  · exact ⟨rfl, rfl, rfl⟩
  · split
    -- an upload that returns before its target is open
    · next hcmd =>
        have hnone : openedFile lib srv.crypto r.upload r.header r.incoming = none := by
          simpa [Request.opens, hcmd] using h
        dsimp only
        rw [(handleUpload_of_not_opened r.client hnone).1]
        exact ⟨rfl, rfl, rfl⟩
    -- a download appends an event at most
    · rcases handleDownload_server lib srv r.header r.client r.download with
        ⟨hcrypto, hstorage, _, hdocs⟩
      exact ⟨hcrypto, hstorage, hdocs⟩
    · rcases handleList_server srv r.list with ⟨hcrypto, hstorage, hcoll⟩
      exact ⟨hcrypto, hstorage, by rw [hcoll]⟩
    · exact ⟨rfl, rfl, rfl⟩

/-- A request that opens a file leaves `leftBytes` in it, and a document if it is successful. -/
theorem serve_of_opens (halive : srv.alive = true) (h : r.opens lib srv.crypto = some file) :
    (serve lib srv r).1.crypto = srv.crypto ∧
      (serve lib srv r).1.storage =
        srv.storage.set (storagePath r.header.filename) (file.leftBytes r.upload.stdio) ∧
      (serve lib srv r).1.alive = !file.crashes r.upload.stdio ∧
      uploadDocs (serve lib srv r).1.collection = uploadDocs srv.collection ++
        (if file.isStored r.upload then [file.document r.header r.client] else []) ∧
      ((serve lib srv r).2 = [.status .success, .status .success] ↔
        file.isStored r.upload = true) := by
  have hcmd : r.header.command = .upload := by
    by_contra hcmd
    simp [Request.opens, hcmd] at h
  have hopen : openedFile lib srv.crypto r.upload r.header r.incoming = some file := by
    simpa [Request.opens, hcmd] using h
  rcases handleUpload_of_opened r.client hopen with ⟨hcrypto, hstorage, hlive, hcoll, hsent⟩
  simp only [serve, halive, hcmd, Bool.not_true, Bool.false_eq_true, if_false]
  refine ⟨hcrypto, hstorage, by rw [hlive, halive, Bool.true_and], ?_, hsent⟩
  -- the event of a successful upload goes into the document of the path, not of the file
  rw [hcoll]
  split
  · rw [uploadDocs_appendProcEvent, uploadDocs_append, SealedFile.document,
      uploadDocs_uploadDocument]
  · rw [List.append_nil]

/-- What a request does to files and upload documents, whether it is served or not. -/
theorem serve_cases (lib : CryptoLib) (srv : Server) (r : Request) :
    ((srv.alive = true → r.opens lib srv.crypto = none) ∧
        (serve lib srv r).1.storage = srv.storage ∧
        uploadDocs (serve lib srv r).1.collection = uploadDocs srv.collection) ∨
      ∃ file, srv.alive = true ∧ r.opens lib srv.crypto = some file ∧
        (serve lib srv r).1.storage =
          srv.storage.set (storagePath r.header.filename) (file.leftBytes r.upload.stdio) ∧
        uploadDocs (serve lib srv r).1.collection = uploadDocs srv.collection ++
          (if file.isStored r.upload then [file.document r.header r.client] else []) := by
  cases halive : srv.alive with
  | false =>
      have hdead : (serve lib srv r).1 = srv := by
        simp [serve, halive]
      rw [hdead]
      exact Or.inl ⟨fun h => (Bool.noConfusion h), rfl, rfl⟩
  | true =>
      cases hopens : r.opens lib srv.crypto with
      | none =>
          rcases serve_of_not_opens hopens with ⟨_, hstorage, hdocs⟩
          exact Or.inl ⟨fun _ => rfl, hstorage, hdocs⟩
      | some file =>
          rcases serve_of_opens halive hopens with ⟨_, hstorage, _, hdocs, _⟩
          exact Or.inr ⟨file, rfl, rfl, hstorage, hdocs⟩

/-- A file of another name than the one that is opened has another path. -/
theorem Request.storagePath_ne_of_opens {f : CString} (hsafe : unsafeName f = false)
    (h : r.opens lib crypto = some file) (hname : r.header.filename ≠ f) :
    storagePath f ≠ storagePath r.header.filename := by
  rcases Request.delivers_of_opens h with ⟨_, hopenable, hdelivers⟩
  intro hpath
  exact hname (storagePath_injective (slash_not_mem_of_safe hsafe)
    (slash_not_mem_of_safe (safe_of_not_refused hdelivers.accepted))
    (by rw [hpath]; exact hopenable) hopenable hpath).symm

theorem serve_crypto : (serve lib srv r).1.crypto = srv.crypto := by
  cases h : r.opens lib srv.crypto with
  | none =>
      exact (serve_of_not_opens h).1
  | some file =>
      -- a process that has died serves nothing
      cases halive : srv.alive with
      | false => simp [serve, halive]
      | true => exact (serve_of_opens halive h).1

/-- The two replies of a successful upload, as a property of the request. -/
theorem serve_success_iff (halive : srv.alive = true) (hcmd : r.header.command = .upload) :
    (serve lib srv r).2 = [.status .success, .status .success] ↔
      (storedFile lib srv.crypto r).isSome = true := by
  have hserve : (serve lib srv r).2 =
      (handleUpload lib srv r.header r.client r.upload r.incoming).sent := by
    simp [serve, halive, hcmd]
  rw [hserve, handleUpload_success_iff, storedFile, Request.opens, if_pos hcmd,
    Option.isSome_iff_exists]
  simp [Option.filter_eq_some_iff]

end Serve

/-! ## Runs -/

theorem serveAll_crypto (lib : CryptoLib) (srv : Server) (rs : List Request) :
    (serveAll lib srv rs).crypto = srv.crypto := by
  induction rs generalizing srv with
  | nil =>
      rfl
  | cons r rs ih =>
      exact (ih (serve lib srv r).1).trans serve_crypto

end FileExchange
