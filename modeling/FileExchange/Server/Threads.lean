import FileExchange.Server.Run

/-!
# Server.Threads — handlers that take turns

`server.c` runs one thread for each connection, and the daemon appends to the same event log.
The steps of a handler that others can see are: find the document, `stat`, each `read`;
truncate the file, each `write`, insert the document; the commands of `append_proc_event`.

* `requestStep`   : the next step of a request;
* `serverThreads` : the thread system of requests and daemon events;
* `serve_of_alone` : a request that nobody interrupts is handled as `serve` says.
-/

namespace FileExchange

open Lib

/-! ## Threads -/

/-- Where a handler stands: an upload with `file` about to open, write (`pos` bytes done) or
insert; a download with the document `d` about to `stat`, or having read `acc` of `size` bytes;
either of them appending its event, with a reply to send afterwards. -/
inductive Pc
  | start
  | opening (file : SealedFile)
  | writing (file : SealedFile) (pos : Nat)
  | inserting (file : SealedFile)
  | stat (d : Document)
  | reading (d : Document) (size : Nat) (acc : Bytes)
  | event (fileId : CString) (call : AppendThread) (reply : List Message)
  | done

/-- A request with the blocks sent so far, or an event of the daemon. -/
inductive Thread
  | request (r : Request) (pc : Pc) (sent : List Message)
  | daemon (fileId : CString) (call : AppendThread)

/-- What starts a thread. -/
inductive Job
  | request (r : Request)
  | daemon (fileId : CString) (call : AppendCall)

/-! ## Steps -/

/-- A write of `chunk` at position `pos`; a gap before it reads as zeros. -/
def writeAt (content : Bytes) (pos : Nat) (chunk : Bytes) : Bytes :=
  content.take pos ++ List.replicate (pos - content.length) 0 ++ chunk ++
    content.drop (pos + chunk.length)

theorem length_writeAt (content : Bytes) (pos : Nat) (chunk : Bytes) :
    (writeAt content pos chunk).length = max content.length (pos + chunk.length) := by
  simp only [writeAt, List.length_append, List.length_take, List.length_replicate,
    List.length_drop]
  omega

section Steps

variable (lib : CryptoLib) (g : Nat) (srv : Server) (r : Request)

/-- From the switch to the first step that others can see. -/
def startStep : Server × Pc × List Message :=
  match r.header.command with
  | .upload =>
      -- receiving, hashing and encrypting touch nothing that is shared
      let pro := uploadPrologue lib srv.crypto r.upload r.header r.incoming
      match pro.file with
      | none => ({ srv with alive := srv.alive && !pro.died }, .done, pro.sent)
      | some file => (srv, .opening file, pro.sent)
  | .download =>
      if unsafeName r.header.filename then (srv, .done, [.status .permissionDenied])
      else
        match if r.download.find then firstUpload? srv.collection r.header.filename else none with
        | none => (srv, .done, [.status .fileNotFound])
        | some d =>
            -- the check looks at the document only; the file may change until it is read
            if !mayDownload d r.client then (srv, .done, [.status .permissionDenied])
            else (srv, .stat d, [])
  | .list =>
      let q := handleList srv r.list
      (q.1, .done, q.2)
  | .unknown => (srv, .done, [.status .unknownCommand])

/-- `fopen(filepath, "wb")`. -/
def openStep (file : SealedFile) : Server × Pc × List Message :=
  match fopenWb r.upload.stdio.opened srv.storage (storagePath r.header.filename) with
  | none => (srv, .done, [.status .error])
  | some opening =>
      if file.crashes r.upload.stdio then
        ({ srv with storage := opening, alive := false }, .done, [])
      else ({ srv with storage := opening }, .writing file 0, [])

/-- A `write` of up to `g + 1` bytes at the handler's own position, or the end of `fclose`. -/
def writeStep (file : SealedFile) (pos : Nat) : Server × Pc × List Message :=
  let path := storagePath r.header.filename
  let total := file.delivered r.upload.stdio
  if pos < total then
    let k := min (g + 1) (total - pos)
    let content := (srv.storage.get? path).getD []
    let chunk := (file.ciphertext.drop pos).take k
    ({ srv with storage := srv.storage.set path (writeAt content pos chunk) },
      .writing file (pos + k), [])
  else if file.written r.upload.stdio ≠ file.ciphertext.length then (srv, .done, [.status .error])
  else (srv, .inserting file, [])

/-- The call of `append_proc_event` at the end of both handlers. -/
def eventCall (env : AppendEnv) (changeType : CString) : AppendThread :=
  { call := { env := env, changeType := changeType, status := ascii "success" }
    pc := .insertBase }

def insertStep (file : SealedFile) : Server × Pc × List Message :=
  match insertUpload r.upload srv.collection file r.header r.client with
  | none => (srv, .done, [.status .error])
  | some coll =>
      ({ srv with collection := coll },
        .event (storagePath r.header.filename) (eventCall r.upload.event (ascii "upload"))
          [.status .success], [])

/-- From `stat` to the allocation of the buffer. -/
def statStep (d : Document) : Server × Pc × List Message :=
  match
    if r.download.stat then srv.storage.get? (storagePath r.header.filename) else none with
  | none => (srv, .done, [.status .fileNotFound])
  | some content =>
      if invalidOffset r.header.offset content.length then
        (srv, .done, [.status .invalidOffset])
      else if !r.download.opened then (srv, .done, [.status .error])
      else if !malloc r.download.ciphertextAlloc content.length then
        (srv, .done, [.status .error])
      else (srv, .reading d content.length [], [])

/-- A `read` of up to `g + 1` bytes, or what follows the last one. -/
def readStep (d : Document) (size : Nat) (acc : Bytes) : Server × Pc × List Message :=
  let path := storagePath r.header.filename
  if !r.download.read then (srv, .done, [.status .error])
  else if acc.length < size then
    let content := (srv.storage.get? path).getD []
    let chunk := (content.drop acc.length).take (min (g + 1) (size - acc.length))
    -- end of file before `filesize` bytes
    if chunk = [] then (srv, .done, [.status .error])
    else (srv, .reading d size (acc ++ chunk), [])
  else
    -- the bytes read are decrypted with the nonce and tag of the document found at first
    let reply := sendFile lib srv.crypto.key r.download d acc r.header.offset
    match reply.2 with
    | .refused => (srv, .done, reply.1)
    | .died => ({ srv with alive := false }, .done, reply.1)
    | .sent => (srv, .event path (eventCall r.download.event (ascii "download")) [], reply.1)

/-- The next step of a request: the server, the place in the code, and the blocks sent. -/
def requestStep : Pc → Option (Server × Pc × List Message)
  | .start => some (startStep lib srv r)
  | .opening file => some (openStep srv r file)
  | .writing file pos => some (writeStep g srv r file pos)
  | .inserting file => some (insertStep srv r file)
  | .stat d => some (statStep srv r d)
  | .reading d size acc => some (readStep lib g srv r d size acc)
  | .event fileId call reply =>
      match appendStep fileId srv.collection call with
      | some q => some ({ srv with collection := q.1 }, .event fileId q.2 reply, [])
      | none => some (srv, .done, reply)
  | .done => none

end Steps

/-- Only the opening and the writes of an upload touch the files. -/
theorem requestStep_storage {lib : CryptoLib} {g : Nat} {srv srv' : Server} {r : Request}
    {pc pc' : Pc} {msgs : List Message} (hopening : ∀ file, pc ≠ .opening file)
    (hwriting : ∀ file pos, pc ≠ .writing file pos)
    (h : requestStep lib g srv r pc = some (srv', pc', msgs)) : srv'.storage = srv.storage := by
  cases pc with
  | start =>
      have hstart := Option.some.inj h
      unfold startStep at hstart
      split at hstart
      · cases hfile : (uploadPrologue lib srv.crypto r.upload r.header r.incoming).file with
        | none =>
            simp only [hfile] at hstart
            cases hstart
            rfl
        | some file =>
            simp only [hfile] at hstart
            cases hstart
            rfl
      · split at hstart
        · cases hstart
          rfl
        · split at hstart
          · cases hstart
            rfl
          · split at hstart <;> cases hstart <;> rfl
      · cases hstart
        exact (handleList_server srv r.list).2.1
      · cases hstart
        rfl
  | opening file =>
      exact absurd rfl (hopening file)
  | writing file pos =>
      exact absurd rfl (hwriting file pos)
  | inserting file =>
      have hins := Option.some.inj h
      unfold insertStep at hins
      split at hins <;> cases hins <;> rfl
  | stat d =>
      have hstat := Option.some.inj h
      unfold statStep at hstat
      split at hstat
      · cases hstat
        rfl
      · split at hstat
        · cases hstat
          rfl
        · split at hstat
          · cases hstat
            rfl
          · split at hstat <;> cases hstat <;> rfl
  | reading d size acc =>
      have hread := Option.some.inj h
      simp only [readStep] at hread
      split at hread
      · cases hread
        rfl
      · split at hread
        · split at hread <;> cases hread <;> rfl
        · split at hread <;> cases hread <;> rfl
  | event fileId call reply =>
      simp only [requestStep] at h
      split at h <;> cases h <;> rfl
  | done =>
      cases h

/-- The next step of a thread.  When the server has died, only the daemon goes on. -/
def threadStep (lib : CryptoLib) (g : Nat) (srv : Server) : Thread → Option (Server × Thread)
  | .request r pc sent =>
      if !srv.alive then none
      else (requestStep lib g srv r pc).map fun q => (q.1, .request r q.2.1 (sent ++ q.2.2))
  | .daemon fileId call =>
      (appendStep fileId srv.collection call).map fun q =>
        ({ srv with collection := q.1 }, .daemon fileId q.2)

/-- Any number of requests and daemon events, in any interleaving. -/
def serverThreads (lib : CryptoLib) : ThreadSystem Job Nat Server Thread where
  spawn
    | .request r => .request r .start []
    | .daemon fileId call => .daemon fileId { call := call, pc := .insertBase }
  step g srv t := threadStep lib g srv t

/-- The request of a handler. -/
def Thread.request? : Thread → Option Request
  | .request r _ _ => some r
  | .daemon _ _ => none

def Job.request? : Job → Option Request
  | .request r => some r
  | .daemon _ _ => none

/-- The handlers of a run are those of the requests started in it. -/
theorem request?_run {lib : CryptoLib} {srv : Server} {es : List (Turn Job Nat)}
    {p : Pool Server Thread}
    (hrun : (serverThreads lib).lts.run { shared := srv, threads := [] } es = some p) :
    p.threads.map Thread.request? = (ThreadSystem.started es).map Job.request? := by
  have hstep : ∀ (g : Nat) (s : Server) (t : Thread) (s' : Server) (t' : Thread),
      (serverThreads lib).step g s t = some (s', t') → t'.request? = t.request? := by
    intro g s t s' t' h
    cases t with
    | request r pc sent =>
        simp only [serverThreads, threadStep] at h
        split at h
        · cases h
        · rcases Option.map_eq_some_iff.1 h with ⟨_, _, heq⟩
          cases heq
          rfl
    | daemon fileId call =>
        rcases Option.map_eq_some_iff.1 h with ⟨_, _, heq⟩
        cases heq
        rfl
  rw [(serverThreads lib).run_map_threads Thread.request? hstep hrun, List.map_nil,
    List.nil_append]
  refine List.map_congr_left fun job _ => ?_
  cases job <;> rfl

/-! ## A request alone -/

section Alone

variable {lib : CryptoLib} {srv : Server} {r : Request} {sent : List Message}

/-- A step of a request while the server is alive. -/
theorem threadStep_request {g : Nat} {pc pc' : Pc} {srv' : Server} {msgs : List Message}
    (halive : srv.alive = true) (h : requestStep lib g srv r pc = some (srv', pc', msgs)) :
    (serverThreads lib).step g srv (.request r pc sent) =
      some (srv', .request r pc' (sent ++ msgs)) := by
  simp [serverThreads, threadStep, halive, h]

/-- One step, and then the rest. -/
theorem alone_step {g : Nat} {pc pc' : Pc} {srv' srv'' : Server} {msgs : List Message}
    {t : Thread} (halive : srv.alive = true)
    (h : requestStep lib g srv r pc = some (srv', pc', msgs))
    (hrest : (serverThreads lib).Alone srv' (.request r pc' (sent ++ msgs)) srv'' t) :
    (serverThreads lib).Alone srv (.request r pc sent) srv'' t :=
  ThreadSystem.Alone.head (threadStep_request halive h) hrest

/-- The last step of a handler, with all that it has sent. -/
theorem alone_last {g : Nat} {pc : Pc} {srv' : Server} {msgs sent' : List Message}
    (halive : srv.alive = true) (h : requestStep lib g srv r pc = some (srv', .done, msgs))
    (hsent : sent' = sent ++ msgs) :
    (serverThreads lib).Alone srv (.request r pc sent) srv' (.request r .done sent') := by
  subst hsent
  exact alone_step halive h (ThreadSystem.Alone.refl _ _ _)

/-- A step that sends nothing. -/
theorem alone_silent {g : Nat} {pc pc' : Pc} {srv' srv'' : Server} {t : Thread}
    (halive : srv.alive = true) (h : requestStep lib g srv r pc = some (srv', pc', []))
    (hrest : (serverThreads lib).Alone srv' (.request r pc' sent) srv'' t) :
    (serverThreads lib).Alone srv (.request r pc sent) srv'' t := by
  apply alone_step halive h
  rw [List.append_nil]
  exact hrest

/-- The commands of `append_proc_event` are steps of the handler that calls it. -/
theorem alone_event_of_runThread {fileId : CString} {reply : List Message} {gs : List Unit} :
    ∀ (srv : Server) (call : AppendThread) {call' : AppendThread} {coll' : Collection},
      srv.alive = true →
      (appendThreads fileId).runThread gs srv.collection call = some (coll', call') →
      (serverThreads lib).Alone srv (.request r (.event fileId call reply) sent)
        { srv with collection := coll' } (.request r (.event fileId call' reply) sent) := by
  induction gs with
  | nil =>
      intro srv call call' coll' _ h
      cases h
      exact ThreadSystem.Alone.refl _ _ _
  | cons g gs ih =>
      intro srv call call' coll' halive h
      -- induction on the commands of the call
      rcases Option.bind_eq_some_iff.1 h with ⟨⟨coll₁, call₁⟩, hstep, hrest⟩
      have happ : appendStep fileId srv.collection call = some (coll₁, call₁) := hstep
      have hreq : requestStep lib 0 srv r (.event fileId call reply) =
          some ({ srv with collection := coll₁ }, .event fileId call₁ reply, []) := by
        simp [requestStep, happ]
      exact alone_silent halive hreq (ih { srv with collection := coll₁ } call₁ halive hrest)

/-- The end of a handler: `append_proc_event` and the reply after it. -/
theorem alone_event (srv : Server) (halive : srv.alive = true) (fileId : CString)
    (env : AppendEnv) (changeType : CString) (reply : List Message) {sent' : List Message}
    (hsent : sent' = sent ++ reply) :
    (serverThreads lib).Alone srv
      (.request r (.event fileId (eventCall env changeType) reply) sent)
      { srv with
          collection :=
            (appendProcEvent env srv.collection fileId changeType (ascii "success")).1 }
      (.request r .done sent') := by
  obtain ⟨gs, key, hrun, _⟩ := appendProcEvent_of_alone fileId srv.collection
    { env := env, changeType := changeType, status := ascii "success" }
  exact (alone_event_of_runThread srv _ halive hrun).trans (alone_last (g := 0) halive rfl hsent)

/-- The writes of an upload, in one piece. -/
theorem alone_writing (halive : srv.alive = true) (file : SealedFile) :
    let path := storagePath r.header.filename
    let total := file.delivered r.upload.stdio
    (serverThreads lib).Alone { srv with storage := srv.storage.set path [] }
      (.request r (.writing file 0) sent)
      { srv with storage := (srv.storage.set path []).set path (file.ciphertext.take total) }
      (.request r (.writing file total) sent) := by
  intro path total
  by_cases htotal : total = 0
  · rw [htotal, List.take_zero, OrderedMap.set_set_self]
    exact ThreadSystem.Alone.refl _ _ _
  · have hpos : 0 < total := Nat.pos_of_ne_zero htotal
    let opened : Server := { srv with storage := srv.storage.set path [] }
    -- one `write` of all bytes; the file was empty before it
    have hstep : requestStep lib total opened r (.writing file 0) =
        some ({ srv with
            storage := (srv.storage.set path []).set path (file.ciphertext.take total) },
          .writing file total, []) := by
      simp [requestStep, writeStep, opened, path, hpos, total, writeAt]
    have hopened : opened.alive = true := halive
    exact alone_silent hopened hstep (ThreadSystem.Alone.refl _ _ _)

/-- From the end of the writes to the end of the upload. -/
theorem alone_closing {file : SealedFile} (halive : srv.alive = true)
    (hfile : (uploadPrologue lib srv.crypto r.upload r.header r.incoming).file = some file)
    (hopen : fopenWb r.upload.stdio.opened srv.storage (storagePath r.header.filename) =
      some (srv.storage.set (storagePath r.header.filename) []))
    (hcrash : file.crashes r.upload.stdio = false) :
    let path := storagePath r.header.filename
    let total := file.delivered r.upload.stdio
    let h := handleUpload lib srv r.header r.client r.upload r.incoming
    let pro := uploadPrologue lib srv.crypto r.upload r.header r.incoming
    (serverThreads lib).Alone
      { srv with storage := (srv.storage.set path []).set path (file.ciphertext.take total) }
      (.request r (.writing file total) pro.sent)
      h.server (.request r .done h.sent) := by
  intro path total h pro
  let stored : Server :=
    { srv with storage := (srv.storage.set path []).set path (file.ciphertext.take total) }
  have hstored : stored.alive = true := halive
  by_cases hwritten : file.written r.upload.stdio = file.ciphertext.length
  -- everything is written: insert the document, with or without success
  · have hclose : requestStep lib 0 stored r (.writing file total) =
        some (stored, .inserting file, []) := by
      simp [requestStep, writeStep, total, hwritten]
    apply alone_silent hstored hclose
    cases hins : insertUpload r.upload srv.collection file r.header r.client with
    | none =>
        have hlast : requestStep lib 0 stored r (.inserting file) =
            some (h.server, .done, [.status .error]) := by
          simp [requestStep, insertStep, stored, hins, h, handleUpload, hfile, hopen, hcrash,
            hwritten, path, total, SealedFile.leftBytes]
        apply alone_last hstored hlast
        simp [h, handleUpload, hfile, hopen, hcrash, hwritten, hins, pro]
    | some coll =>
        -- the reply is sent after the event
        have hinsert : requestStep lib 0 stored r (.inserting file) =
            some ({ stored with collection := coll },
              .event path (eventCall r.upload.event (ascii "upload")) [.status .success], []) := by
          simp [requestStep, insertStep, stored, hins, path]
        apply alone_silent hstored hinsert
        have hserver : h.server =
            { stored with
                collection := (appendProcEvent r.upload.event coll path (ascii "upload")
                  (ascii "success")).1 } := by
          simp [h, handleUpload, stored, hfile, hopen, hcrash, hwritten, hins, path, total,
            SealedFile.leftBytes]
        rw [hserver]
        refine alone_event { stored with collection := coll } halive path r.upload.event
          (ascii "upload") [.status .success] ?_
        simp [h, handleUpload, hfile, hopen, hcrash, hwritten, hins, pro]
  -- `fwrite` had accepted less than the ciphertext
  · have hlast : requestStep lib 0 stored r (.writing file total) =
        some (h.server, .done, [.status .error]) := by
      simp [requestStep, writeStep, stored, total, hwritten, h, handleUpload, hfile, hopen, hcrash,
        path, SealedFile.leftBytes]
    apply alone_last hstored hlast
    simp [h, handleUpload, hfile, hopen, hcrash, hwritten, pro]

/-- An upload that nobody interrupts. -/
theorem alone_upload (lib : CryptoLib) (halive : srv.alive = true)
    (hcmd : r.header.command = .upload) :
    let h := handleUpload lib srv r.header r.client r.upload r.incoming
    (serverThreads lib).Alone srv (.request r .start []) h.server (.request r .done h.sent) := by
  intro h
  cases hfile : (uploadPrologue lib srv.crypto r.upload r.header r.incoming).file with
  | none =>
      have hlast : requestStep lib 0 srv r .start = some (h.server, .done, h.sent) := by
        simp [requestStep, startStep, hcmd, hfile, h, handleUpload]
      exact alone_last halive hlast rfl
  | some file =>
      have hstart : requestStep lib 0 srv r .start = some (srv, .opening file,
          (uploadPrologue lib srv.crypto r.upload r.header r.incoming).sent) := by
        simp [requestStep, startStep, hcmd, hfile]
      apply alone_step halive hstart
      rw [List.nil_append]
      -- the handler has sent its readiness reply and holds the encrypted file
      cases hopen : fopenWb r.upload.stdio.opened srv.storage (storagePath r.header.filename) with
      | none =>
          -- the target does not open
          have hlast : requestStep lib 0 srv r (.opening file) =
              some (h.server, .done, [.status .error]) := by
            simp [requestStep, openStep, hopen, h, handleUpload, hfile]
          apply alone_last halive hlast
          simp [h, handleUpload, hfile, hopen]
      | some opening =>
          have hset : opening = srv.storage.set (storagePath r.header.filename) [] := by
            unfold fopenWb at hopen
            split at hopen
            · exact (Option.some.inj hopen).symm
            · cases hopen
          subst hset
          cases hcrash : file.crashes r.upload.stdio with
          | true =>
              have hlast : requestStep lib 0 srv r (.opening file) =
                  some (h.server, .done, []) := by
                simp [requestStep, openStep, hopen, hcrash, h, handleUpload, hfile]
              apply alone_last halive hlast
              simp [h, handleUpload, hfile, hopen, hcrash]
          | false =>
              have hfirst : requestStep lib 0 srv r (.opening file) =
                  some ({ srv with storage := srv.storage.set (storagePath r.header.filename) [] },
                    .writing file 0, []) := by
                simp [requestStep, openStep, hopen, hcrash]
              apply alone_silent halive hfirst
              exact (alone_writing halive file).trans (alone_closing halive hfile hopen hcrash)

/-- The reads of a download, in one piece. -/
theorem alone_reading {d : Document} {content : Bytes} (halive : srv.alive = true)
    (hread : r.download.read = true)
    (hfile : srv.storage.get? (storagePath r.header.filename) = some content) :
    (serverThreads lib).Alone srv (.request r (.reading d content.length []) sent)
      srv (.request r (.reading d content.length content) sent) := by
  cases content with
  | nil =>
      exact ThreadSystem.Alone.refl _ _ _
  | cons b content =>
      -- one `read` of all bytes
      have hstep : requestStep lib content.length srv r (.reading d (b :: content).length []) =
          some (srv, .reading d (b :: content).length (b :: content), []) := by
        simp [requestStep, readStep, hread, hfile]
      exact alone_silent halive hstep (ThreadSystem.Alone.refl _ _ _)

/-- A download that nobody interrupts. -/
theorem alone_download (lib : CryptoLib) (halive : srv.alive = true)
    (hcmd : r.header.command = .download) :
    let h := handleDownload lib srv r.header r.client r.download
    (serverThreads lib).Alone srv (.request r .start []) h.1 (.request r .done h.2) := by
  intro h
  have hlast : ∀ {pc : Pc}, requestStep lib 0 srv r pc = some (h.1, .done, h.2) →
      (serverThreads lib).Alone srv (.request r pc []) h.1 (.request r .done h.2) := by
    intro pc hstep
    exact alone_last halive hstep rfl
  -- one case for each exit of the handler, in the order of the checks
  by_cases hsafe : unsafeName r.header.filename = true
  · exact hlast (by simp [requestStep, startStep, hcmd, hsafe, h, handleDownload, downloadReply])
  cases hfind : (if r.download.find then firstUpload? srv.collection r.header.filename
      else none) with
  | none =>
      exact hlast (by
        simp [requestStep, startStep, hcmd, hsafe, hfind, h, handleDownload, downloadReply])
  | some d =>
      by_cases hmay : mayDownload d r.client = true
      swap
      · exact hlast (by
          simp [requestStep, startStep, hcmd, hsafe, hfind, hmay, h, handleDownload, downloadReply])
      have hstart : requestStep lib 0 srv r .start = some (srv, .stat d, []) := by
        simp [requestStep, startStep, hcmd, hsafe, hfind, hmay]
      apply alone_silent halive hstart
      cases hstat : (if r.download.stat then
          srv.storage.get? (storagePath r.header.filename) else none) with
      | none =>
          exact hlast (by
            simp [requestStep, statStep, hsafe, hfind, hmay, hstat, h, handleDownload,
              downloadReply])
      | some content =>
          have hfile : srv.storage.get? (storagePath r.header.filename) = some content := by
            split at hstat
            · exact hstat
            · cases hstat
          by_cases hoff : invalidOffset r.header.offset content.length = true
          · exact hlast (by
              simp [requestStep, statStep, hsafe, hfind, hmay, hstat, hoff, h, handleDownload,
                downloadReply])
          by_cases hopen : r.download.opened = true
          swap
          · exact hlast (by
              simp [requestStep, statStep, hsafe, hfind, hmay, hstat, hoff, hopen, h,
                handleDownload, downloadReply])
          by_cases halloc : malloc r.download.ciphertextAlloc content.length = true
          swap
          · exact hlast (by
              simp [requestStep, statStep, hsafe, hfind, hmay, hstat, hoff, hopen, halloc, h,
                handleDownload, downloadReply])
          have hreading : requestStep lib 0 srv r (.stat d) =
              some (srv, .reading d content.length [], []) := by
            simp [requestStep, statStep, hstat, hoff, hopen, halloc]
          apply alone_silent halive hreading
          by_cases hread : r.download.read = true
          swap
          · exact hlast (by
              simp [requestStep, readStep, hsafe, hfind, hmay, hstat, hoff, hopen, halloc, hread,
                h, handleDownload, downloadReply])
          refine (alone_reading halive hread hfile).trans ?_
          cases hsend : (sendFile lib srv.crypto.key r.download d content r.header.offset).2 with
          | refused =>
              exact hlast (by
                simp [requestStep, readStep, hsafe, hfind, hmay, hstat, hoff, hopen, halloc, hread,
                  hsend, h, handleDownload, downloadReply])
          | died =>
              exact hlast (by
                simp [requestStep, readStep, hsafe, hfind, hmay, hstat, hoff, hopen, halloc, hread,
                  hsend, h, handleDownload, downloadReply])
          | sent =>
              -- the reply is sent before the event is appended
              let msgs := (sendFile lib srv.crypto.key r.download d content r.header.offset).1
              have hdone : requestStep lib 0 srv r (.reading d content.length content) =
                  some (srv, .event (storagePath r.header.filename)
                    (eventCall r.download.event (ascii "download")) [], msgs) := by
                simp [requestStep, readStep, hread, hsend, msgs]
              apply alone_step halive hdone
              have hresult : h = ({ srv with
                  collection := (appendProcEvent r.download.event srv.collection
                    (storagePath r.header.filename) (ascii "download") (ascii "success")).1 },
                  msgs) := by
                simp [h, handleDownload, downloadReply, hsafe, hfind, hmay, hstat, hoff, hopen,
                  halloc, hread, hsend, msgs]
              rw [hresult]
              exact alone_event srv halive (storagePath r.header.filename) r.download.event
                (ascii "download") [] (by simp)

/-- A request that nobody interrupts is handled as `serve` says. -/
theorem serve_of_alone (halive : srv.alive = true) :
    (serverThreads lib).Alone srv (.request r .start []) (serve lib srv r).1
      (.request r .done (serve lib srv r).2) := by
  cases hcmd : r.header.command with
  | upload =>
      simpa [serve, halive, hcmd] using alone_upload lib halive hcmd
  | download =>
      simpa [serve, halive, hcmd] using alone_download lib halive hcmd
  | list =>
      have hlast : requestStep lib 0 srv r .start =
          some ((serve lib srv r).1, .done, (serve lib srv r).2) := by
        simp [requestStep, startStep, serve, halive, hcmd]
      exact alone_last halive hlast rfl
  | unknown =>
      have hlast : requestStep lib 0 srv r .start =
          some ((serve lib srv r).1, .done, (serve lib srv r).2) := by
        simp [requestStep, startStep, serve, halive, hcmd]
      exact alone_last halive hlast rfl

/-- So handling requests one after the other is one of the interleavings. -/
theorem run_serve (lib : CryptoLib) {p : Pool Server Thread} (halive : p.shared.alive = true)
    (r : Request) :
    ∃ es, ThreadSystem.started es = [Job.request r] ∧
      (serverThreads lib).lts.run p es =
        some { shared := (serve lib p.shared r).1
               threads := p.threads ++ [.request r .done (serve lib p.shared r).2] } :=
  (serverThreads lib).run_start_alone (r := Job.request r) (serve_of_alone halive)

theorem run_serve_first (lib : CryptoLib) (srv : Server) (halive : srv.alive = true)
    (r : Request) :
    ∃ es, ThreadSystem.started es = [Job.request r] ∧
      (serverThreads lib).lts.run { shared := srv, threads := [] } es =
        some { shared := (serve lib srv r).1
               threads := [.request r .done (serve lib srv r).2] } :=
  run_serve lib (p := { shared := srv, threads := [] }) halive r

end Alone

end FileExchange
