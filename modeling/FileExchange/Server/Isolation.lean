import FileExchange.Server.Sharing

/-!
# Server.Isolation — what later requests do to the downloads of a file

An upload opens its target with `"wb"` before it has anything to put there, and without asking
whose file it is.  So a request leaves the downloads of a file as they were unless it opens that
file and leaves other bytes in it, or takes the server down.

* `SameDownloads`      : every download of a file by its owner has the same reply in two states;
* `sameDownloads_iff`  : the two files are interchangeable for the document that is found;
* `failedUpload_iff`   : when a failed upload changes nothing;
* `undisturbed_iff`    : when a sequence of requests changes nothing.
-/

namespace FileExchange

open Lib

/-! ## Sizes of files -/

/-- No file is larger than a `long long` can say. -/
def Storage.Fits (storage : Storage) : Prop :=
  ∀ path content, storage.get? path = some content → content.length ≤ ptrdiffMax

theorem Storage.fits_set {storage : Storage} (h : Storage.Fits storage) {path : CString}
    {content : Bytes} (hlen : content.length ≤ ptrdiffMax) :
    Storage.Fits (OrderedMap.set storage path content) := by
  intro path' content' hget
  by_cases hpath : path' = path
  · subst hpath
    rw [OrderedMap.get?_set_self] at hget
    cases hget
    exact hlen
  · rw [OrderedMap.get?_set_of_ne hpath] at hget
    exact h path' content' hget

section Fits

variable {lib : CryptoLib} {key : Bytes} {r : Request} {g : Nat} {srv srv' : Server}
  {pc pc' : Pc} {sent msgs : List Message}

/-- A step of a handler writes no file beyond the end of its ciphertext. -/
theorem requestStep_fits (hlib : lib.Correct) (hfits : Storage.Fits srv.storage)
    (ht : (Thread.request r pc sent).InStep lib key)
    (h : requestStep lib g srv r pc = some (srv', pc', msgs)) : Storage.Fits srv'.storage := by
  cases pc with
  | opening file =>
      have hopen := Option.some.inj h
      unfold openStep at hopen
      split at hopen
      · cases hopen
        exact hfits
      -- the file is empty now
      · next storage hstorage =>
          have hempty : Storage.Fits storage := by
            unfold fopenWb at hstorage
            split at hstorage
            · cases hstorage
              exact Storage.fits_set hfits (Nat.zero_le _)
            · cases hstorage
          split at hopen <;> cases hopen <;> exact hempty
  | writing file pos =>
      have hwrite := Option.some.inj h
      simp only [writeStep] at hwrite
      split at hwrite
      · next hpos =>
          cases hwrite
          refine Storage.fits_set hfits ?_
          rw [length_writeAt]
          -- the chunk ends within the ciphertext, which is shorter than 2^31 bytes
          refine Nat.max_le.2 ⟨?_, ?_⟩
          · cases hcontent : srv.storage.get? (storagePath r.header.filename) with
            | none => exact Nat.zero_le _
            | some content => exact hfits _ _ hcontent
          · have hlt := ht.1.2.length_ciphertext_lt hlib
            have hle := file.delivered_le r.upload.stdio
            rw [List.length_take, List.length_drop]
            unfold ptrdiffMax
            omega
      · split at hwrite <;> cases hwrite <;> exact hfits
  | _ =>
      rw [requestStep_storage (by simp) (by simp) h]
      exact hfits

/-- In every interleaving files stay within bounds. -/
theorem fits_run {storage : Storage} {coll : Collection} {es : List (Turn Job Nat)}
    {p : Pool Server Thread} (hlib : lib.Correct)
    (hfits : Storage.Fits storage)
    (hrun : (serverThreads lib).lts.run
      { shared := Server.started key storage coll, threads := [] } es = some p) :
    Storage.Fits p.shared.storage := by
  have hinv := (serverThreads lib).lts.run_invariant
    (fun q => UploadPool lib key (uploadDocs coll) q ∧ Storage.Fits q.shared.storage)
    (fun _ => True) ?step ⟨UploadPool.init storage coll, hfits⟩ (fun _ _ => trivial) hrun
  case step =>
    rintro q e q' ⟨hq, hqfits⟩ _ hstep
    refine ⟨hq.step hstep, ?_⟩
    cases e with
    | start job =>
        rw [ThreadSystem.lts_step_start] at hstep
        subst hstep
        exact hqfits
    | advance j g =>
        rcases (serverThreads lib).lts_step_advance.1 hstep with ⟨t, srv', t', ht, hts, rfl⟩
        cases t with
        | request r pc sent =>
            simp only [serverThreads, threadStep] at hts
            split at hts
            · cases hts
            · rcases Option.map_eq_some_iff.1 hts with ⟨⟨srv₁, pc₁, msgs⟩, hreq, heq⟩
              cases heq
              exact requestStep_fits hlib hqfits (hq.inStep _ (List.mem_of_getElem? ht)) hreq
        | daemon fileId call =>
            rcases Option.map_eq_some_iff.1 hts with ⟨⟨coll₁, call₁⟩, happ, heq⟩
            cases heq
            exact hqfits
  exact hinv.2

theorem serve_fits {u : Request} (hlib : lib.Correct) (hfits : Storage.Fits srv.storage) :
    Storage.Fits (serve lib srv u).1.storage := by
  rcases serve_cases lib srv u with ⟨_, hstorage, _⟩ | ⟨file, _, hopens, hstorage, _⟩
  · rw [hstorage]
    exact hfits
  · rw [hstorage]
    have hlt := (Request.delivers_of_opens hopens).2.2.length_ciphertext_lt hlib
    have hle := file.length_leftBytes_le u.upload.stdio
    apply Storage.fits_set hfits
    unfold ptrdiffMax
    omega

end Fits

/-! ## Comparing the downloads of two states -/

/-- The reply to a download; a dead server sends nothing. -/
def askDownload (lib : CryptoLib) (srv : Server) (req : RequestHeader) (client : CString)
    (env : DownloadEnv) : List Message :=
  if srv.alive then (handleDownload lib srv req client env).2 else []

/-- Every download of `f` by `client`, from whatever offset, has the same reply. -/
def SameDownloads (lib : CryptoLib) (f client : CString) (srv srv' : Server) : Prop :=
  ∀ env req, req.filename = f →
    askDownload lib srv req client env = askDownload lib srv' req client env

/-- Contents of one path in two states that no download by way of `d` can tell apart. -/
def SameFile (lib : CryptoLib) (key : Bytes) (d : Document) : Option Bytes → Option Bytes → Prop
  | none, none => True
  | some content, some content' => Interchangeable lib key d content content'
  | _, _ => False

/-- `client` owns the document that downloads of `f` find. -/
structure Owns (srv : Server) (f client : CString) (d : Document) : Prop where
  found : firstUpload? srv.collection f = some d
  safe : unsafeName f = false
  may : mayDownload d client = true

section Compare

variable {lib : CryptoLib} {key : Bytes} {srv srv' : Server} {f client : CString} {d : Document}
  {env : DownloadEnv} {req : RequestHeader}

theorem SameFile.refl (file : Option Bytes) : SameFile lib key d file file := by
  cases file with
  | none => trivial
  | some content => exact ⟨rfl, rfl⟩

theorem SameFile.symm {file file' : Option Bytes} (h : SameFile lib key d file file') :
    SameFile lib key d file' file := by
  cases file <;> cases file' <;> first | exact h | exact ⟨h.1.symm, h.2.symm⟩

theorem SameFile.trans {file file' file'' : Option Bytes} (h : SameFile lib key d file file')
    (h' : SameFile lib key d file' file'') : SameFile lib key d file file'' := by
  cases file <;> cases file' <;> cases file'' <;>
    first | exact h | exact h' | exact h.elim | exact h'.elim |
      exact ⟨h.1.trans h'.1, h.2.trans h'.2⟩

theorem sendFile_ne_nil (h : env.evp.refusesNegative = true) {content : Bytes} {offset : Int64} :
    (sendFile lib key env d content offset).1 ≠ [] := by
  have hlives : (sendFile lib key env d content offset).2 ≠ .died := fun hdied => by
    simpa [h] using sendFile_died_iff.1 hdied
  revert hlives
  unfold sendFile
  split
  · simp
  · split
    · simp
    · simp
    · simp [fileMessages]

/-- Every download is answered, unless the cipher runs beyond the buffers. -/
theorem downloadReply_ne_nil (h : env.evp.refusesNegative = true) {found : Option Document}
    {file : Option Bytes} : (downloadReply lib key env found file req client).1 ≠ [] := by
  rcases downloadReply_cases lib key env found file req client with
    ⟨_, hreply⟩ | ⟨d, content, _, hreply⟩
  · rw [hreply]
    exact List.cons_ne_nil _ _
  · rw [hreply]
    exact sendFile_ne_nil h

theorem downloadReply_of_sameFile {file file' : Option Bytes}
    (h : SameFile lib key d file file') :
    (downloadReply lib key env (some d) file req client).1 =
      (downloadReply lib key env (some d) file' req client).1 := by
  cases file with
  | none =>
      cases file' with
      | none => rfl
      | some content' => exact h.elim
  | some content =>
      cases file' with
      | none => exact h.elim
      | some content' => rw [downloadReply_of_interchangeable h]

/-- The reply of a working download of a file that exists, by its owner. -/
theorem downloadReply_owner (hown : Owns srv f client d) {content : Bytes}
    (hsize : content.length ≤ ptrdiffMax) (hreq : req.filename = f) :
    (downloadReply lib key (DownloadEnv.ok 0) (some d) (some content) req client).1 =
      if invalidOffset req.offset content.length then [.status .invalidOffset]
      else
        match decryptFile lib key EvpEnv.ok d content with
        | .failed => [.status .error]
        | .died => []
        | .done p => fileMessages p req.offset := by
  rw [downloadReply_of_works (DownloadEnv.works_ok 0) (by rw [hreq]; exact hown.safe) hsize,
    hown.may]
  rfl

/-- A download from offset `n`. -/
def downloadFrom (f : CString) (n : Nat) : RequestHeader :=
  { RequestHeader.announcing f [] [] [] with command := .download, offset := Int64.ofNat n }

theorem invalidOffset_ofNat {n size : Nat} (hn : n ≤ ptrdiffMax) :
    invalidOffset (Int64.ofNat n) size = decide (n > size) := by
  have hint : (Int64.ofNat n).toInt = n :=
    Int64.toInt_ofNat_of_lt (by unfold ptrdiffMax at hn; omega)
  have hneg : ¬ ((n : Int) < 0) := by omega
  simp [invalidOffset, hint, hneg]

/-- Downloads of files of different lengths differ at the end of the longer one. -/
theorem length_le_of_replies (hown : Owns srv f client d) {content content' : Bytes}
    (hsize : content.length ≤ ptrdiffMax) (hsize' : content'.length ≤ ptrdiffMax)
    (h : ∀ n, (downloadReply lib key (DownloadEnv.ok 0) (some d) (some content)
        (downloadFrom f n) client).1 =
      (downloadReply lib key (DownloadEnv.ok 0) (some d) (some content')
        (downloadFrom f n) client).1) : content'.length ≤ content.length := by
  by_contra hlt
  -- the offset at the end of the longer file is refused for the shorter one
  have hoff := h content'.length
  rw [downloadReply_owner hown hsize rfl, downloadReply_owner hown hsize' rfl] at hoff
  have hinvalid : invalidOffset (downloadFrom f content'.length).offset content.length = true := by
    rw [downloadFrom, invalidOffset_ofNat hsize']
    exact decide_eq_true (by omega)
  have hvalid : invalidOffset (downloadFrom f content'.length).offset content'.length = false := by
    rw [downloadFrom, invalidOffset_ofNat hsize']
    simp
  rw [hinvalid, hvalid] at hoff
  simp only [if_true, Bool.false_eq_true, if_false] at hoff
  split at hoff
  · simp [Message.status] at hoff
  · simp at hoff
  · simp [fileMessages, Message.status] at hoff

/-- Files that give the same replies are interchangeable. -/
theorem sameFile_of_replies (hown : Owns srv f client d) {file file' : Option Bytes}
    (hsize : ∀ content, file = some content → content.length ≤ ptrdiffMax)
    (hsize' : ∀ content, file' = some content → content.length ≤ ptrdiffMax)
    (h : ∀ n, (downloadReply lib key (DownloadEnv.ok 0) (some d) file (downloadFrom f n) client).1 =
      (downloadReply lib key (DownloadEnv.ok 0) (some d) file' (downloadFrom f n) client).1) :
    SameFile lib key d file file' := by
  -- a download from offset 0 tells whether the file is there
  have hmissing : (downloadReply lib key (DownloadEnv.ok 0) (some d) none (downloadFrom f 0)
      client).1 = [.status .fileNotFound] := by
    have hsafe : unsafeName (downloadFrom f 0).filename = false := hown.safe
    simp [downloadReply, hsafe, DownloadEnv.ok, hown.may]
  have hexists : ∀ {content : Bytes}, content.length ≤ ptrdiffMax →
      (downloadReply lib key (DownloadEnv.ok 0) (some d) (some content) (downloadFrom f 0)
        client).1 ≠ [.status .fileNotFound] := by
    intro content hlen
    rw [downloadReply_owner hown hlen rfl]
    split
    · simp [Message.status]
    · split
      · simp [Message.status]
      · simp
      · simp [fileMessages, Message.status]
  cases file with
  | none =>
      cases file' with
      | none =>
          trivial
      | some content' =>
          exact absurd ((h 0).symm.trans hmissing) (hexists (hsize' _ rfl))
  | some content =>
      cases file' with
      | none =>
          exact absurd ((h 0).trans hmissing) (hexists (hsize _ rfl))
      | some content' =>
          have hlen : content.length = content'.length :=
            le_antisymm (length_le_of_replies hown (hsize' _ rfl) (hsize _ rfl) fun n => (h n).symm)
              (length_le_of_replies hown (hsize _ rfl) (hsize' _ rfl) h)
          refine ⟨hlen, ?_⟩
          have hzero := h 0
          have hvalid : invalidOffset (downloadFrom f 0).offset content'.length = false := by
            rw [downloadFrom, invalidOffset_ofNat (Nat.zero_le _)]
            simp
          rw [downloadReply_owner hown (hsize _ rfl) rfl,
            downloadReply_owner hown (hsize' _ rfl) rfl, hlen, hvalid] at hzero
          simp only [Bool.false_eq_true, if_false] at hzero
          -- both files are read from the start
          exact decryptedReply_injective hzero

/-- The downloads of a file are the same in two states if and only if the second server is alive
and the files are interchangeable. -/
theorem sameDownloads_iff (hown : Owns srv f client d) (halive : srv.alive = true)
    (hfits : Storage.Fits srv.storage) (hfits' : Storage.Fits srv'.storage)
    (hcrypto : srv'.crypto = srv.crypto)
    (hfirst : (firstUpload? srv'.collection f).map Document.withoutProc = some d.withoutProc) :
    SameDownloads lib f client srv srv' ↔ srv'.alive = true ∧
      SameFile lib srv.crypto.key d (srv.storage.get? (storagePath f))
        (srv'.storage.get? (storagePath f)) := by
  have hreply : ∀ env req, req.filename = f →
      (handleDownload lib srv' req client env).2 =
        (downloadReply lib srv.crypto.key env (some d) (srv'.storage.get? (storagePath f)) req
          client).1 := by
    rintro env req rfl
    rw [handleDownload_sent, hcrypto]
    exact congrArg Prod.fst (downloadReply_congr (hfirst.trans rfl) _)
  have hreply₀ : ∀ env req, req.filename = f →
      (handleDownload lib srv req client env).2 =
        (downloadReply lib srv.crypto.key env (some d) (srv.storage.get? (storagePath f)) req
          client).1 := by
    rintro env req rfl
    rw [handleDownload_sent, hown.found]
  constructor
  -- a dead server is silent, and a server that is alive answers every download
  · intro hsame
    have hlive : srv'.alive = true := by
      by_contra hdead
      have hnil := hsame (DownloadEnv.ok 0) (downloadFrom f 0) rfl
      simp only [askDownload, halive, hdead, if_true, if_false] at hnil
      rw [hreply₀ _ _ rfl] at hnil
      exact downloadReply_ne_nil rfl hnil
    refine ⟨hlive, sameFile_of_replies hown (hfits _) (hfits' _) fun n => ?_⟩
    have hn := hsame (DownloadEnv.ok 0) (downloadFrom f n) rfl
    simp only [askDownload, halive, hlive, if_true] at hn
    rwa [hreply₀ _ _ rfl, hreply _ _ rfl] at hn
  · rintro ⟨hlive, hfile⟩ env req hreq
    simp only [askDownload, halive, hlive, if_true]
    rw [hreply₀ _ _ hreq, hreply _ _ hreq]
    exact downloadReply_of_sameFile hfile

end Compare

/-! ## What one request does to the downloads of a file -/

/-- A request takes the server down. -/
def Request.kills (lib : CryptoLib) (srv : Server) (u : Request) : Bool :=
  match u.opens lib srv.crypto with
  | some file => file.crashes u.upload.stdio
  | none =>
      match u.header.command with
      | .upload => (uploadPrologue lib srv.crypto u.upload u.header u.incoming).died
      | .download => downloadCrashes lib srv u.header u.client u.download
      | .list => listCrashes srv u.list || listAborts srv u.list
      | .unknown => false

/-- Neither cipher is given a negative length that it does not refuse, and the list is built and
freed. -/
structure Request.KeepsRunning (lib : CryptoLib) (srv : Server) (u : Request) : Prop where
  upload : u.header.command = .upload →
    ¬ UploadOverruns lib srv.crypto u.upload u.header u.incoming
  download : u.header.command = .download → ∀ d content,
    ¬ DownloadOverruns srv u.header u.client u.download d content
  list : u.header.command = .list → listCrashes srv u.list = false ∧ listAborts srv u.list = false

/-- An upload passes all checks and opens its target, with the nonce `iv` in hand. -/
def Request.Overwrites (lib : CryptoLib) (srv : Server) (u : Request) (iv : Iv) : Prop :=
  u.header.command = .upload ∧
    (u.upload.stdio.opened = true ∧ openable (storagePath u.header.filename) = true) ∧
      UploadPasses lib srv.crypto u.upload u.header u.incoming ∧ u.upload.iv = some iv

/-- The server keeps running.  An upload that opens its target writes from a buffer, or `fwrite`
survives that there is none; and if the target is the file of `f`, what reaches the disk of its
encrypted payload cannot be told from the old bytes by way of the document of `f`. -/
def Request.Spares (lib : CryptoLib) (f : CString) (srv : Server) (u : Request) : Prop :=
  srv.alive = true →
    u.KeepsRunning lib srv ∧
      ∀ iv, u.Overwrites lib srv iv →
        let file := sealedFile lib srv.crypto.key u.upload u.header u.incoming iv
        file.crashes u.upload.stdio = false ∧
          ∀ d, firstUpload? srv.collection f = some d →
            storagePath u.header.filename = storagePath f →
              SameFile lib srv.crypto.key d (srv.storage.get? (storagePath f))
                (some (file.leftBytes u.upload.stdio))

section OneRequest

variable {lib : CryptoLib} {key : Bytes} {srv : Server} {u : Request} {f : CString}
  {d d' : Document}

theorem Request.opens_eq_some_iff {file : SealedFile} :
    u.opens lib srv.crypto = some file ↔ ∃ iv, u.Overwrites lib srv iv ∧
      file = sealedFile lib srv.crypto.key u.upload u.header u.incoming iv := by
  by_cases hcmd : u.header.command = .upload
  · rw [Request.opens, if_pos hcmd, openedFile_eq_some_iff]
    constructor
    · rintro ⟨hopen, hpasses, iv, hiv, hfile⟩
      exact ⟨iv, ⟨hcmd, hopen, hpasses, hiv⟩, hfile⟩
    · rintro ⟨iv, ⟨_, hopen, hpasses, hiv⟩, hfile⟩
      exact ⟨hopen, hpasses, iv, hiv, hfile⟩
  · rw [Request.opens, if_neg hcmd]
    refine iff_of_false (by simp) ?_
    rintro ⟨_, ⟨hupload, _⟩, _⟩
    exact hcmd hupload

/-- Without a file to write, a request takes the server down exactly when one of these happens. -/
theorem Request.kills_of_not_opens (h : u.opens lib srv.crypto = none) :
    u.kills lib srv = false ↔ u.KeepsRunning lib srv := by
  have hupload : (uploadPrologue lib srv.crypto u.upload u.header u.incoming).died = false ↔
      ¬ UploadOverruns lib srv.crypto u.upload u.header u.incoming := by
    rw [← uploadPrologue_died_iff, Bool.not_eq_true]
  have hdownload : downloadCrashes lib srv u.header u.client u.download = false ↔
      ∀ d content, ¬ DownloadOverruns srv u.header u.client u.download d content := by
    rw [← Bool.not_eq_true, downloadCrashes_iff]
    push Not
    rfl
  unfold Request.kills
  rw [h]
  cases hcmd : u.header.command with
  | upload =>
      refine hupload.trans ⟨fun hno => ⟨fun _ => hno, ?_, ?_⟩, fun hkeeps => hkeeps.upload hcmd⟩
      · intro hother
        cases hcmd.symm.trans hother
      · intro hother
        cases hcmd.symm.trans hother
  | download =>
      refine hdownload.trans
        ⟨fun hno => ⟨?_, fun _ => hno, ?_⟩, fun hkeeps => hkeeps.download hcmd⟩
      · intro hother
        cases hcmd.symm.trans hother
      · intro hother
        cases hcmd.symm.trans hother
  | list =>
      refine Bool.or_eq_false_iff.trans
        ⟨fun hno => ⟨?_, ?_, fun _ => hno⟩, fun hkeeps => hkeeps.list hcmd⟩
      · intro hother
        cases hcmd.symm.trans hother
      · intro hother
        cases hcmd.symm.trans hother
  | unknown =>
      refine iff_of_true rfl ⟨?_, ?_, ?_⟩ <;>
        · intro hother
          cases hcmd.symm.trans hother

/-- An upload that opens its target has come through the cipher. -/
theorem Request.Overwrites.keepsRunning {iv : Iv} (h : u.Overwrites lib srv iv) :
    u.KeepsRunning lib srv where
  upload _ hover := by
    have hpos := h.2.2.1.positive
    have hneg := hover.negative
    omega
  download hcmd := by cases h.1.symm.trans hcmd
  list hcmd := by cases h.1.symm.trans hcmd

/-- The same in terms of the file that the handler opens its target for. -/
theorem Request.spares_iff_opens :
    u.Spares lib f srv ↔ (srv.alive = true → u.kills lib srv = false ∧
      ∀ d file, firstUpload? srv.collection f = some d → u.opens lib srv.crypto = some file →
        storagePath u.header.filename = storagePath f →
          SameFile lib srv.crypto.key d (srv.storage.get? (storagePath f))
            (some (file.leftBytes u.upload.stdio))) := by
  refine imp_congr_right fun _ => ?_
  cases h : u.opens lib srv.crypto with
  | none =>
      have hnever : ∀ iv, ¬ u.Overwrites lib srv iv := by
        intro iv hover
        have hsome := Request.opens_eq_some_iff.2 ⟨iv, hover, rfl⟩
        rw [h] at hsome
        cases hsome
      simp [Request.kills_of_not_opens h, hnever]
  | some file =>
      have hkills : u.kills lib srv = file.crashes u.upload.stdio := by
        rw [Request.kills, h]
      rcases Request.opens_eq_some_iff.1 h with ⟨iv, hover, rfl⟩
      rw [hkills]
      constructor
      · rintro ⟨_, hspares⟩
        rcases hspares iv hover with ⟨hcrash, hsame⟩
        refine ⟨hcrash, fun d file hd hfile hpath => ?_⟩
        cases hfile
        exact hsame d hd hpath
      · rintro ⟨hcrash, hsame⟩
        refine ⟨hover.keepsRunning, fun iv' hover' => ?_⟩
        -- there is only one nonce
        cases hover.2.2.2.symm.trans hover'.2.2.2
        exact ⟨hcrash, fun d hd hpath => hsame d _ hd rfl hpath⟩

theorem serve_of_dead (hdead : srv.alive = false) : serve lib srv u = (srv, []) := by
  simp [serve, hdead]

theorem serve_alive (halive : srv.alive = true) :
    (serve lib srv u).1.alive = !u.kills lib srv := by
  unfold Request.kills
  cases h : u.opens lib srv.crypto with
  | some file =>
      exact (serve_of_opens halive h).2.2.1
  | none =>
      cases hcmd : u.header.command with
      | upload =>
          have hnone : openedFile lib srv.crypto u.upload u.header u.incoming = none := by
            simpa [Request.opens, hcmd] using h
          have hsame := (handleUpload_of_not_opened u.client hnone).1
          simp [serve, halive, hcmd, hsame]
      | download =>
          have hlive := (handleDownload_server lib srv u.header u.client u.download).2.2.1
          simp [serve, halive, hcmd, hlive]
      | list =>
          simp [serve, halive, hcmd, handleList_alive_eq]
      | unknown =>
          simp [serve, halive, hcmd]

/-- Requests only add upload documents behind those that are there. -/
theorem uploadDocs_serve (lib : CryptoLib) (srv : Server) (u : Request) : ∃ added,
    uploadDocs (serve lib srv u).1.collection = uploadDocs srv.collection ++ added := by
  rcases serve_cases lib srv u with ⟨_, _, hdocs⟩ | ⟨file, _, _, _, hdocs⟩
  · exact ⟨[], by rw [hdocs, List.append_nil]⟩
  · exact ⟨_, hdocs⟩

/-- So the document that downloads find stays the same. -/
theorem firstUpload?_serve
    (h : (firstUpload? srv.collection f).map Document.withoutProc = some d.withoutProc) :
    (firstUpload? (serve lib srv u).1.collection f).map Document.withoutProc =
      some d.withoutProc := by
  -- the new document comes after the one that is found
  rcases uploadDocs_serve lib srv u with ⟨added, hadded⟩
  rw [firstUpload?_map_withoutProc] at h ⊢
  rw [hadded, List.find?_append, h, Option.some_or]

theorem SameFile.congr (h : d.withoutProc = d'.withoutProc) {file file' : Option Bytes}
    (hsame : SameFile lib key d file file') : SameFile lib key d' file file' := by
  cases file with
  | none =>
      cases file' with
      | none => trivial
      | some content' => exact hsame.elim
  | some content =>
      cases file' with
      | none => exact hsame.elim
      | some content' =>
          refine ⟨hsame.1, ?_⟩
          rw [← decryptFile_congr h, ← decryptFile_congr h]
          exact hsame.2

/-- After a request that leaves the server running the file of `f` is as good as before if and
only if the request spares it. -/
theorem spares_iff (halive : srv.alive = true)
    (hfound : (firstUpload? srv.collection f).map Document.withoutProc = some d.withoutProc) :
    u.Spares lib f srv ↔ (serve lib srv u).1.alive = true ∧
      SameFile lib srv.crypto.key d (srv.storage.get? (storagePath f))
        ((serve lib srv u).1.storage.get? (storagePath f)) := by
  rcases Option.map_eq_some_iff.1 hfound with ⟨e, he, hed⟩
  have hlive : (serve lib srv u).1.alive = true ↔ u.kills lib srv = false := by
    simp [serve_alive halive]
  rw [hlive]
  rw [Request.spares_iff_opens, imp_iff_right halive]
  refine and_congr_right fun _ => ?_
  cases h : u.opens lib srv.crypto with
  | none =>
      rw [(serve_of_not_opens h).2.1]
      exact iff_of_true (fun _ _ _ hopen => by cases hopen) (SameFile.refl _)
  | some file =>
      rw [(serve_of_opens halive h).2.1]
      -- the request writes the file of `f`, or another one
      by_cases hpath : storagePath u.header.filename = storagePath f
      · rw [hpath, OrderedMap.get?_set_self]
        constructor
        · intro hleaves
          exact (hleaves e file he rfl rfl).congr hed
        · intro hsame e' file' he' hfile' _
          cases he.symm.trans he'
          cases hfile'
          exact hsame.congr hed.symm
      · rw [OrderedMap.get?_set_of_ne (Ne.symm hpath)]
        exact iff_of_true (fun _ _ _ _ hpath' => absurd hpath' hpath) (SameFile.refl _)

end OneRequest

/-! ## Failed uploads, and requests of others -/

section Reachable

variable {lib : CryptoLib} {key : Bytes} {storage : Storage} {coll : Collection}
  {es : List (Turn Job Nat)} {p : Pool Server Thread} {i : Nat} {r : Request}

/-- The one upload of a name makes its client the owner. -/
theorem owns_of_once (hnew : firstUpload? coll r.header.filename = none)
    (hrun : (serverThreads lib).lts.run
      { shared := Server.started key storage coll, threads := [] } es = some p)
    (honce : UploadedOnce p i r) : ∃ d, Owns p.shared r.header.filename r.client d := by
  rcases firstUpload?_of_once (uploadPool_run hrun) (firstUpload?_eq_none_iff.1 hnew) honce with
    ⟨d, file, hd, hfile, hdoc⟩
  refine ⟨d, hd, safe_of_not_refused hfile.2.accepted, ?_⟩
  rw [mayDownload_of_document hdoc]
  exact decide_eq_true rfl

/-- In every reachable state with exactly one upload of a name, which was new to the server, an
upload that does not end with `RESP_SUCCESS` inserts no document, and the owner's downloads are
the same before and after it if and only if it spares the file: it does not get as far as
opening it, or leaves bytes in it that decrypt alike. -/
theorem failedUpload_iff (hlib : lib.Correct)
    (hnew : firstUpload? coll r.header.filename = none)
    (hfits : Storage.Fits storage)
    (hrun : (serverThreads lib).lts.run
      { shared := Server.started key storage coll, threads := [] } es = some p)
    (honce : UploadedOnce p i r) {u : Request} (hcmd : u.header.command = .upload)
    (hfail : (serve lib p.shared u).2 ≠ acknowledgement) :
    (serve lib p.shared u).1.collection = p.shared.collection ∧
      (SameDownloads lib r.header.filename r.client p.shared (serve lib p.shared u).1 ↔
        u.Spares lib r.header.filename p.shared) := by
  cases halive : p.shared.alive with
  | false =>
      rw [serve_of_dead halive]
      refine ⟨rfl, iff_of_true (fun _ _ _ => rfl) fun h => ?_⟩
      rw [halive] at h
      cases h
  | true =>
      constructor
      · have hserver : (serve lib p.shared u).1 =
            (handleUpload lib p.shared u.header u.client u.upload u.incoming).server := by
          simp [serve, halive, hcmd]
        have hsent : (handleUpload lib p.shared u.header u.client u.upload u.incoming).sent ≠
            acknowledgement := by
          simpa [serve, halive, hcmd] using hfail
        rw [hserver]
        cases hopen : openedFile lib p.shared.crypto u.upload u.header u.incoming with
        | none =>
            rw [(handleUpload_of_not_opened u.client hopen).1]
        | some file =>
            rcases handleUpload_of_opened u.client hopen with ⟨_, _, _, hcollection, hstored⟩
            -- the document is inserted only by an upload that is acknowledged
            have hnot : ¬ file.isStored u.upload = true := fun h => hsent (hstored.2 h)
            rw [hcollection, if_neg hnot]
      · rcases owns_of_once hnew hrun honce with ⟨d, hown⟩
        have hrunFits := fits_run hlib hfits hrun
        have hfound : (firstUpload? p.shared.collection r.header.filename).map
            Document.withoutProc = some d.withoutProc := by
          rw [hown.found, Option.map_some]
        rw [spares_iff halive hfound]
        exact sameDownloads_iff hown halive hrunFits (serve_fits hlib hrunFits) serve_crypto
          (firstUpload?_serve hfound)

end Reachable

/-! ## Two clients -/

section Samples

/-- Alice's upload of "hi" as "a". -/
def aliceUpload : Request :=
  Request.uploading (ascii "alice") (ascii "a") (ascii "hi") (sampleHash (ascii "hi"))

/-- The server after it. -/
def afterAlice : Server :=
  (serve sampleLib (Server.started sampleKey OrderedMap.empty []) aliceUpload).1

theorem afterAlice_reachable : ∃ es, (serverThreads sampleLib).lts.run
    { shared := Server.started sampleKey OrderedMap.empty [], threads := [] } es =
      some { shared := afterAlice, threads := [.request aliceUpload .done acknowledgement] } := by
  obtain ⟨es, _, hrun⟩ := run_serve_first sampleLib
    (Server.started sampleKey OrderedMap.empty []) rfl aliceUpload
  have hsent : (serve sampleLib (Server.started sampleKey OrderedMap.empty []) aliceUpload).2 =
      acknowledgement := by decide
  rw [hsent] at hrun
  exact ⟨es, hrun⟩

theorem fits_empty : Storage.Fits OrderedMap.empty := by
  intro path content h
  cases h

/-- An upload whose payload is cut off changes nothing. -/
theorem failedUpload_truncated :
    let u := { aliceUpload with incoming := [] }
    (serve sampleLib afterAlice u).1.collection = afterAlice.collection ∧
      (SameDownloads sampleLib aliceUpload.header.filename aliceUpload.client afterAlice
          (serve sampleLib afterAlice u).1 ↔
        u.Spares sampleLib aliceUpload.header.filename afterAlice) := by
  intro u
  rcases afterAlice_reachable with ⟨es, hrun⟩
  have honce := uploadedOnce_singleton afterAlice aliceUpload rfl rfl
  have hfail : (serve sampleLib afterAlice u).2 ≠ acknowledgement := by decide
  have h := failedUpload_iff sampleLib_correct rfl fits_empty hrun honce (u := u) rfl hfail
  dsimp only at h
  exact h

/-- Alice uploads "hi" as "a" and then "yo", whose document cannot be inserted: she is told so,
and her file is gone. -/
theorem failedUpload_destroys_old_version :
    let u := Request.uploading (ascii "alice") (ascii "a") (ascii "yo") (sampleHash (ascii "yo"))
    let failing := { u with upload := { u.upload with insert := false } }
    (serve sampleLib afterAlice failing).2 = [.status .success, .status .error] ∧
      (serve sampleLib afterAlice (Request.downloading (ascii "alice") (ascii "a"))).2 =
        [.response .success 2, .payload (ascii "hi")] ∧
      (serve sampleLib (serve sampleLib afterAlice failing).1
        (Request.downloading (ascii "alice") (ascii "a"))).2 = [.status .error] ∧
      ¬ SameDownloads sampleLib (ascii "a") (ascii "alice") afterAlice
        (serve sampleLib afterAlice failing).1 := by
  intro u failing
  refine ⟨by decide, by decide, by decide, fun h => ?_⟩
  have hfirst := h (DownloadEnv.ok 0) (downloadFrom (ascii "a") 0) rfl
  revert hfirst
  decide

end Samples

end FileExchange
