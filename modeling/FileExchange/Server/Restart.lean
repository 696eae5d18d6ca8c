import FileExchange.Server.Offset

/-!
# Server.Restart — files across server processes

Ciphertexts are files and their nonces and tags are documents, which both outlive the process.
The key is in `g_file_crypto` alone: `cleanup_resources` wipes it and `init_cryptography` draws
another one.

* `initCryptography`, `cleanupResources` : the two functions, on `g_file_crypto`;
* `serverEvent`, `afterEvents` : runs of requests and restarts;
* `lastLeft`        : the bytes that a run leaves in a file;
* `survives_iff`    : an upload comes back if and only if no restart followed it.
-/

namespace FileExchange

open Lib

/-! ## Processes -/

/-- What `RAND_bytes` returns for the key, and what is in its buffer then. -/
structure RandBytes where
  result : Int
  buffer : { b : Bytes // b.length = 32 }

/-- `g_file_crypto` when a process starts. -/
def FileCryptoCtx.static : FileCryptoCtx :=
  { key := List.replicate 32 0, initialized := false }

def initCryptography (ctx : FileCryptoCtx) (rand : RandBytes) : FileCryptoCtx × Bool :=
  -- `!RAND_bytes(..)` holds for 0 only, not for -1
  if rand.result = 0 then ({ ctx with key := rand.buffer.val }, false)
  else ({ key := rand.buffer.val, initialized := true }, true)

/-- What `cleanup_resources` does to `g_file_crypto`. -/
def cleanupResources (ctx : FileCryptoCtx) : FileCryptoCtx :=
  if ctx.initialized then { key := List.replicate 32 0, initialized := false } else ctx

/-- The process exits by way of `cleanup_resources`.  Files and documents stay. -/
def Server.stop (srv : Server) : Server :=
  { srv with crypto := cleanupResources srv.crypto, alive := false }

/-- A new process, when the other parts of its start-up succeed. -/
def Server.start (srv : Server) (rand : RandBytes) : Server :=
  let init := initCryptography FileCryptoCtx.static rand
  let started := { srv with crypto := init.1, alive := true }
  if init.2 then started else started.stop

def Server.restart (srv : Server) (rand : RandBytes) : Server :=
  srv.stop.start rand

inductive ServerEvent
  | request (r : Request)
  | restart (rand : RandBytes)

def serverEvent (lib : CryptoLib) (srv : Server) : ServerEvent → Server
  | .request r => (serve lib srv r).1
  | .restart rand => srv.restart rand

def afterEvents (lib : CryptoLib) (srv : Server) (es : List ServerEvent) : Server :=
  es.foldl (serverEvent lib) srv

/-- The event is an upload of `f` that is answered with success. -/
def ServerEvent.uploads (lib : CryptoLib) (f : CString) (srv : Server) : ServerEvent → Bool
  | .request r =>
      decide (r.header.command = .upload) && decide (r.header.filename = f) &&
        decide ((serve lib srv r).2 = [.status .success, .status .success])
  | .restart _ => false

/-- The number of successful uploads of `f` in a run. -/
def timesUploaded (lib : CryptoLib) (f : CString) : Server → List ServerEvent → Nat
  | _, [] => 0
  | srv, e :: es =>
      (if e.uploads lib f srv then 1 else 0) + timesUploaded lib f (serverEvent lib srv e) es

/-- The bytes in the file of `f` after an upload that opens it, successful or not. -/
def ServerEvent.leaves (lib : CryptoLib) (f : CString) (srv : Server) :
    ServerEvent → Option Bytes
  | .request r =>
      if srv.alive && decide (r.header.filename = f) then
        (r.opens lib srv.crypto).map fun file => file.leftBytes r.upload.stdio
      else none
  | .restart _ => none

/-- The bytes that the last such upload of a run leaves. -/
def lastLeft (lib : CryptoLib) (f : CString) : Server → List ServerEvent → Option Bytes
  | _, [] => none
  | srv, e :: es => (lastLeft lib f (serverEvent lib srv e) es).or (e.leaves lib f srv)

section Events

variable {lib : CryptoLib} {srv : Server} {f : CString} {e : ServerEvent} {rand : RandBytes}

theorem restart_storage : (srv.restart rand).storage = srv.storage := by
  simp only [Server.restart, Server.start, Server.stop]
  split <;> rfl

theorem restart_collection : (srv.restart rand).collection = srv.collection := by
  simp only [Server.restart, Server.start, Server.stop]
  split <;> rfl

/-- A process that runs has the key that was drawn for it. -/
theorem restart_key (h : (srv.restart rand).alive = true) :
    (srv.restart rand).crypto.key = rand.buffer.val := by
  simp only [Server.restart, Server.start, initCryptography] at h ⊢
  by_cases hresult : rand.result = 0
  · simp [hresult, Server.stop] at h
  · simp [hresult]

/-- A successful upload, by its request. -/
theorem uploads_request_iff {r : Request} :
    (ServerEvent.request r).uploads lib f srv = true ↔
      srv.alive = true ∧ r.header.filename = f ∧ (storedFile lib srv.crypto r).isSome = true := by
  simp only [ServerEvent.uploads, Bool.and_eq_true, decide_eq_true_eq]
  cases halive : srv.alive with
  | false =>
      simp [serve, halive]
  | true =>
      constructor
      · rintro ⟨⟨hcmd, hname⟩, hsent⟩
        exact ⟨rfl, hname, (serve_success_iff halive hcmd).1 hsent⟩
      · rintro ⟨_, hname, hstored⟩
        rcases Option.isSome_iff_exists.1 hstored with ⟨file, hfile⟩
        have hcmd := (Request.delivers_of_opens (Option.filter_eq_some_iff.1 hfile).1).1
        exact ⟨⟨hcmd, hname⟩, (serve_success_iff halive hcmd).2 hstored⟩

/-- The document that a download finds stays, but for a successful upload of its name. -/
theorem firstUpload?_serverEvent (h : e.uploads lib f srv = false) :
    (firstUpload? (serverEvent lib srv e).collection f).map Document.withoutProc =
      (firstUpload? srv.collection f).map Document.withoutProc := by
  cases e with
  | request r =>
      refine firstUpload?_serve_of_other fun halive hname => ?_
      by_contra hstored
      have huploads : (ServerEvent.request r).uploads lib f srv = true :=
        uploads_request_iff.2 ⟨halive, hname, Option.isSome_iff_ne_none.2 hstored⟩
      rw [h] at huploads
      cases huploads
  | restart rand =>
      rw [serverEvent, restart_collection]

/-- What is in the file of `f` after an event. -/
theorem get?_storage_serverEvent (hsafe : unsafeName f = false) :
    (serverEvent lib srv e).storage.get? (storagePath f) =
      (e.leaves lib f srv).or (srv.storage.get? (storagePath f)) := by
  cases e with
  | restart rand =>
      rw [serverEvent, restart_storage]
      rfl
  | request r =>
      simp only [serverEvent, ServerEvent.leaves]
      rcases serve_cases lib srv r with ⟨hnone, hstorage, _⟩ | ⟨file, halive, hopens, hstorage, _⟩
      · rw [hstorage]
        split
        · next hserved =>
            rw [hnone (Bool.and_eq_true_iff.1 hserved).1]
            rfl
        · rfl
      · rw [hstorage]
        by_cases hname : r.header.filename = f
        · rw [hname, OrderedMap.get?_set_self]
          simp [halive, hopens]
        · rw [OrderedMap.get?_set_of_ne (Request.storagePath_ne_of_opens hsafe hopens hname)]
          simp [hname]

/-- The key stays within a process. -/
theorem crypto_serverEvent_request (r : Request) :
    (serverEvent lib srv (.request r)).crypto = srv.crypto :=
  serve_crypto

end Events

/-! ## Runs -/

section Runs

variable {lib : CryptoLib} {srv : Server} {f : CString} {es es' : List ServerEvent}

theorem afterEvents_append :
    afterEvents lib srv (es ++ es') = afterEvents lib (afterEvents lib srv es) es' :=
  List.foldl_append

theorem timesUploaded_append :
    timesUploaded lib f srv (es ++ es') =
      timesUploaded lib f srv es + timesUploaded lib f (afterEvents lib srv es) es' := by
  induction es generalizing srv with
  | nil =>
      simp [timesUploaded, afterEvents]
  | cons e es ih =>
      rw [List.cons_append, timesUploaded, ih, timesUploaded, ← Nat.add_assoc]
      rfl

theorem firstUpload?_afterEvents (h : timesUploaded lib f srv es = 0) :
    (firstUpload? (afterEvents lib srv es).collection f).map Document.withoutProc =
      (firstUpload? srv.collection f).map Document.withoutProc := by
  induction es generalizing srv with
  | nil =>
      rfl
  | cons e es ih =>
      rw [timesUploaded, Nat.add_eq_zero_iff] at h
      have hother : e.uploads lib f srv = false := by
        cases huploads : e.uploads lib f srv with
        | false => rfl
        | true => simp [huploads] at h
      exact (ih h.2).trans (firstUpload?_serverEvent hother)

theorem get?_storage_afterEvents (hsafe : unsafeName f = false) :
    (afterEvents lib srv es).storage.get? (storagePath f) =
      (lastLeft lib f srv es).or (srv.storage.get? (storagePath f)) := by
  induction es generalizing srv with
  | nil =>
      rfl
  | cons e es ih =>
      calc (afterEvents lib srv (e :: es)).storage.get? (storagePath f)
          = (lastLeft lib f (serverEvent lib srv e) es).or
              ((serverEvent lib srv e).storage.get? (storagePath f)) := ih
        _ = (lastLeft lib f srv (e :: es)).or (srv.storage.get? (storagePath f)) := by
            rw [get?_storage_serverEvent hsafe, lastLeft, Option.or_assoc]

/-- A successful upload leaves something in the file, whatever follows. -/
theorem exists_lastLeft_of_uploads {r : Request}
    (h : (ServerEvent.request r).uploads lib f srv = true) (es : List ServerEvent) :
    ∃ content, lastLeft lib f srv (.request r :: es) = some content := by
  rcases uploads_request_iff.1 h with ⟨halive, hname, hsome⟩
  rcases Option.isSome_iff_exists.1 hsome with ⟨file, hfile⟩
  have hopens := (Option.filter_eq_some_iff.1 hfile).1
  refine Option.isSome_iff_exists.1 ?_
  simp [lastLeft, ServerEvent.leaves, halive, hname, hopens]

/-- The bytes left are fewer than 2³¹, as every ciphertext. -/
theorem length_lastLeft_lt (hlib : lib.Correct) {content : Bytes}
    (h : lastLeft lib f srv es = some content) : content.length < 2 ^ 31 := by
  induction es generalizing srv with
  | nil =>
      cases h
  | cons e es ih =>
      rcases Option.or_eq_some_iff.1 h with h | ⟨_, h⟩
      · exact ih h
      · cases e with
        | restart rand =>
            cases h
        | request r =>
            simp only [ServerEvent.leaves] at h
            split at h
            · rcases Option.map_eq_some_iff.1 h with ⟨file, hopens, rfl⟩
              have hlt := (Request.delivers_of_opens hopens).2.2.length_ciphertext_lt hlib
              exact (file.length_leftBytes_le r.upload.stdio).trans_lt hlt
            · cases h

/-- Without a restart the key stays. -/
theorem crypto_afterEvents (h : ∀ rand, .restart rand ∉ es) :
    (afterEvents lib srv es).crypto = srv.crypto := by
  induction es generalizing srv with
  | nil =>
      rfl
  | cons e es ih =>
      cases e with
      | request r =>
          exact (ih fun rand hrand => h rand (by simp [hrand])).trans
            (crypto_serverEvent_request r)
      | restart rand =>
          exact absurd (by simp) (h rand)

theorem alive_of_afterEvents (hes : ∀ rand, .restart rand ∉ es)
    (h : (afterEvents lib srv es).alive = true) : srv.alive = true := by
  induction es generalizing srv with
  | nil =>
      exact h
  | cons e es ih =>
      cases e with
      | request r =>
          exact serve_alive_of_alive (ih (fun rand hrand => hes rand (by simp [hrand])) h)
      | restart rand =>
          exact absurd (by simp) (hes rand)

/-- After a restart the key is one that was drawn in the run. -/
theorem key_afterEvents_of_restart (hes : ∃ rand, .restart rand ∈ es)
    (h : (afterEvents lib srv es).alive = true) :
    ∃ rand, .restart rand ∈ es ∧ (afterEvents lib srv es).crypto.key = rand.buffer.val := by
  induction es generalizing srv with
  | nil =>
      rcases hes with ⟨_, hmem⟩
      cases hmem
  | cons e es ih =>
      by_cases hlater : ∃ rand, .restart rand ∈ es
      · rcases ih hlater h with ⟨rand, hmem, hkey⟩
        exact ⟨rand, List.mem_cons_of_mem _ hmem, hkey⟩
      · -- the first event is the last restart
        rw [not_exists] at hlater
        rcases hes with ⟨rand, hmem⟩
        rcases List.mem_cons.1 hmem with rfl | hmem
        · refine ⟨rand, by simp, ?_⟩
          have halive : (serverEvent lib srv (.restart rand)).alive = true :=
            alive_of_afterEvents hlater h
          exact (congrArg FileCryptoCtx.key (crypto_afterEvents hlater)).trans
            (restart_key halive)
        · exact absurd hmem (hlater rand)

end Runs

/-! ## Uploads that survive -/

/-- Nonce and tag of `file` fit its ciphertext only, and that only under `key`. -/
structure SealedFile.Bound (lib : CryptoLib) (key : Bytes) (file : SealedFile) : Prop where
  ciphertext : ∀ ct p, lib.decrypt key file.iv.val file.tag ct = some p → ct = file.ciphertext
  key : ∀ key' ct, key' ≠ key → lib.decrypt key' file.iv.val file.tag ct = none

section Survives

variable {lib : CryptoLib} {srv : Server} {pre post : List ServerEvent} {r : Request}
  {file : SealedFile} {env : DownloadEnv} {req : RequestHeader}

/-- After the only successful upload of a name a download finds its document. -/
theorem firstUpload?_afterEvents_of_once
    (hnew : firstUpload? srv.collection r.header.filename = none)
    (honce : timesUploaded lib r.header.filename srv (pre ++ .request r :: post) = 1)
    (huploads : (ServerEvent.request r).uploads lib r.header.filename
      (afterEvents lib srv pre) = true)
    (hopens : r.opens lib (afterEvents lib srv pre).crypto = some file) :
    (firstUpload? (afterEvents lib srv (pre ++ .request r :: post)).collection
      r.header.filename).map Document.withoutProc = some (file.document r.header r.client) := by
  rcases uploads_request_iff.1 huploads with ⟨halive, _, hsome⟩
  have hstored : file.isStored r.upload = true := by
    rw [storedFile, hopens] at hsome
    simpa [Option.filter] using hsome
  -- no other upload of the name is successful
  rw [timesUploaded_append, timesUploaded, huploads, if_pos rfl] at honce
  have hbefore : firstUpload? (afterEvents lib srv pre).collection r.header.filename = none := by
    have hsame := @firstUpload?_afterEvents lib srv r.header.filename pre (by omega)
    rw [hnew, Option.map_none, Option.map_eq_none_iff] at hsame
    exact hsame
  have hafter := @firstUpload?_afterEvents lib
    (serverEvent lib (afterEvents lib srv pre) (.request r)) r.header.filename post (by omega)
  rw [afterEvents_append]
  exact hafter.trans (firstUpload?_serve_of_stored halive hbefore hopens hstored)

/-- The key is that of the upload exactly when the process is. -/
theorem same_key_iff (hdiffer : ∀ rand, .restart rand ∈ post →
      rand.buffer.val ≠ (afterEvents lib srv pre).crypto.key)
    (halive : (afterEvents lib srv (pre ++ .request r :: post)).alive = true) :
    (afterEvents lib srv (pre ++ .request r :: post)).crypto.key =
        (afterEvents lib srv pre).crypto.key ↔ ∀ rand, .restart rand ∉ post := by
  rw [afterEvents_append] at halive ⊢
  constructor
  · intro hkey rand hrand
    -- a later process has a key that was drawn for it
    have hrestart : ∃ rand, ServerEvent.restart rand ∈ .request r :: post :=
      ⟨rand, List.mem_cons_of_mem _ hrand⟩
    rcases key_afterEvents_of_restart hrestart halive with ⟨rand', hmem, hdrawn⟩
    have hpost : ServerEvent.restart rand' ∈ post := by simpa using hmem
    exact hdiffer rand' hpost (hdrawn.symm.trans hkey)
  · intro hrestart
    exact congrArg FileCryptoCtx.key
      (crypto_afterEvents fun rand hrand => hrestart rand (by simpa using hrand))

/-- Bytes decrypt to the contents exactly when key and ciphertext are those of the upload and an
`int` counts the contents. -/
theorem decrypt_eq_payload_iff (hlib : lib.Correct) {crypto : FileCryptoCtx}
    (hdelivers : Prologue.Delivers lib crypto r.upload r.header r.incoming file)
    (hbound : file.Bound lib crypto.key) {key content : Bytes} :
    lib.decrypt key file.iv.val file.tag content = some (payload r.header r.incoming) ↔
      key = crypto.key ∧ (payload r.header r.incoming).length < 2 ^ 31 ∧
        content = file.ciphertext := by
  rcases Prod.mk.inj hdelivers.encrypted with ⟨hciphertext, htag⟩
  have hown : lib.decrypt crypto.key file.iv.val file.tag file.ciphertext =
      some ((payload r.header r.incoming).take (toInt r.header.filesize.toInt).toNat) := by
    rw [hciphertext, htag, hlib.decrypt_encrypt]
  constructor
  · intro hdec
    have hkey : key = crypto.key := by
      by_contra hkey
      rw [hbound.key _ _ hkey] at hdec
      cases hdec
    rw [hkey] at hdec
    have hct : content = file.ciphertext := hbound.ciphertext _ _ hdec
    refine ⟨hkey, ?_, hct⟩
    -- nothing was cut off
    rw [hct, hown, Option.some.injEq] at hdec
    have hlength := congrArg List.length hdec
    have hlt := toInt_lt r.header.filesize.toInt
    rw [List.length_take] at hlength
    omega
  · rintro ⟨rfl, hshort, rfl⟩
    have hlength := hdelivers.length_payload
    have hint : toInt r.header.filesize.toInt = r.header.filesize.toInt :=
      toInt_of_lt hdelivers.nonneg (by omega)
    rw [hown, hint, List.take_of_length_le hlength.le]

/-- In every run of requests and restarts in which a name that was new is uploaded once with
success: a download by its owner at the end brings the contents back if and only if the process
is still the same, the contents are shorter than 2³¹ bytes and the last upload of the name that
opened its file left the whole ciphertext of this one in it. -/
theorem survives_iff (hlib : lib.Correct)
    (hnew : firstUpload? srv.collection r.header.filename = none)
    (honce : timesUploaded lib r.header.filename srv (pre ++ .request r :: post) = 1)
    (huploads : (ServerEvent.request r).uploads lib r.header.filename
      (afterEvents lib srv pre) = true)
    (hopens : r.opens lib (afterEvents lib srv pre).crypto = some file)
    (hbound : file.Bound lib (afterEvents lib srv pre).crypto.key)
    (hdiffer : ∀ rand, .restart rand ∈ post →
      rand.buffer.val ≠ (afterEvents lib srv pre).crypto.key)
    (halive : (afterEvents lib srv (pre ++ .request r :: post)).alive = true)
    (henv : env.Works) (hname : req.filename = r.header.filename) (hoffset : req.offset = 0) :
    (handleDownload lib (afterEvents lib srv (pre ++ .request r :: post)) req r.client env).2 =
        .response .success (payload r.header r.incoming).length ::
          (if payload r.header r.incoming = [] then []
          else [.payload (payload r.header r.incoming)]) ↔
      (∀ rand, .restart rand ∉ post) ∧ (payload r.header r.incoming).length < 2 ^ 31 ∧
        lastLeft lib r.header.filename (afterEvents lib srv pre) (.request r :: post) =
          some file.ciphertext := by
  rcases Request.delivers_of_opens hopens with ⟨_, _, hdelivers⟩
  have hsafe : unsafeName r.header.filename = false := safe_of_not_refused hdelivers.accepted
  have hsplit : afterEvents lib srv (pre ++ .request r :: post) =
      afterEvents lib (afterEvents lib srv pre) (.request r :: post) := afterEvents_append
  -- the document is that of the upload
  have hdoc := firstUpload?_afterEvents_of_once hnew honce huploads hopens
  rcases Option.map_eq_some_iff.1 hdoc with ⟨d, hd, hsame⟩
  -- the file is what the last upload that opened it left
  rcases exists_lastLeft_of_uploads huploads post with ⟨content, hcontent⟩
  have hfile : (afterEvents lib srv (pre ++ .request r :: post)).storage.get?
      (storagePath r.header.filename) = some content := by
    rw [hsplit, get?_storage_afterEvents hsafe, hcontent, Option.some_or]
  have hlen : content.length < 2 ^ 31 := length_lastLeft_lt hlib hcontent
  have hsize : content.length ≤ ptrdiffMax := by
    unfold ptrdiffMax
    omega
  have hvalid : invalidOffset 0 content.length = false := by
    simp [invalidOffset]
  rw [← hname] at hd hfile hsafe
  rw [handleDownload_sent, hd, hfile, downloadReply_of_works henv hsafe hsize,
    mayDownload_of_document hsame, hoffset, hvalid,
    decryptFile_of_document hsame (hdelivers.length_tag hlib) henv.evp hlen, ← fileMessages_zero,
    hcontent]
  simp only [decide_true, Bool.not_true, Bool.false_eq_true, if_false, Option.some.injEq]
  -- the reply is that of the contents exactly when they are what the file decrypts to
  rw [← same_key_iff hdiffer halive, ← decrypt_eq_payload_iff hlib hdelivers hbound]
  constructor
  · intro hreply
    exact EvpResult.ofOption_eq_done_iff.1
      (@decryptedReply_injective _ (.done (payload r.header r.incoming)) hreply)
  · intro hdec
    rw [hdec]
    rfl

end Survives

/-! ## Two keys -/

/-- The tag of a content under a key; for the zero key that of AES-256-GCM. -/
def keyedTag (key p : Bytes) : Bytes :=
  if key = sampleKey then sampleTag p else List.replicate 16 0

/-- A library whose tags depend on the key. -/
def keyedLib : CryptoLib :=
  streamLib keyedTag sampleHash

theorem keyedLib_correct : keyedLib.Correct := by
  refine streamLib_correct fun key p => ?_
  unfold keyedTag
  split
  · exact length_sampleTag p
  · rfl

/-- The file of "hi" under the zero key. -/
def keyedFile : SealedFile where
  ciphertext := sampleXor (ascii "hi")
  hasBuffer := true
  iv := sampleIv
  tag := sampleTag (ascii "hi")

theorem keyedFile_bound : keyedFile.Bound keyedLib sampleKey where
  ciphertext ct p h := by
    simp only [keyedLib, streamLib, keyedTag, keyedFile, if_true] at h ⊢
    split at h
    · next htag =>
        rw [← sampleTag_injective (by decide) htag, sampleXor_sampleXor]
    · cases h
  key key' ct hkey := by
    have htag : keyedTag key' (sampleXor ct) ≠ keyedFile.tag := by
      rw [keyedTag, if_neg hkey]
      decide
    simp only [keyedLib, streamLib, htag, if_false]

/-- A second key. -/
def otherKey : RandBytes :=
  { result := 1, buffer := ⟨List.replicate 32 1, rfl⟩ }

/-- A process with another key is restarted, and then Alice uploads "hi". -/
theorem survives_upload_after_restart :
    (handleDownload keyedLib
      (afterEvents keyedLib (Server.started otherKey.buffer.val OrderedMap.empty [])
        [.restart { result := 1, buffer := ⟨sampleKey, rfl⟩ }, .request aliceUpload])
      (downloadFrom (ascii "a") 0) (ascii "alice") (DownloadEnv.ok 0)).2 =
      [.response .success 2, .payload (ascii "hi")] := by
  let srv := Server.started otherKey.buffer.val OrderedMap.empty []
  let pre : List ServerEvent := [.restart { result := 1, buffer := ⟨sampleKey, rfl⟩ }]
  have hopens : aliceUpload.opens keyedLib (afterEvents keyedLib srv pre).crypto =
      some keyedFile := by decide
  have hiff := @survives_iff keyedLib srv pre [] aliceUpload keyedFile (DownloadEnv.ok 0)
    (downloadFrom (ascii "a") 0) keyedLib_correct rfl (by decide) (by decide) hopens
    keyedFile_bound (by simp) (by decide) (DownloadEnv.works_ok 0) rfl rfl
  exact hiff.2 ⟨by simp, by decide, by decide⟩

/-- Alice uploads "hi", the server is restarted and gets another key, and her download fails. -/
theorem survives_not_restart :
    let srv := Server.started sampleKey OrderedMap.empty []
    let es : List ServerEvent := [.request aliceUpload, .restart otherKey]
    (timesUploaded keyedLib (ascii "a") srv es = 1 ∧ otherKey.buffer.val ≠ sampleKey ∧
        aliceUpload.opens keyedLib srv.crypto = some keyedFile ∧
        keyedFile.Bound keyedLib sampleKey ∧ (afterEvents keyedLib srv es).alive = true) ∧
      (handleDownload keyedLib (afterEvents keyedLib srv es) (downloadFrom (ascii "a") 0)
        (ascii "alice") (DownloadEnv.ok 0)).2 = [.status .error] := by
  exact ⟨⟨by decide, by decide, by decide, keyedFile_bound, by decide⟩, by decide⟩

end FileExchange
