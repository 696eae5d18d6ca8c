import Mathlib.Data.List.Induction
import FileExchange.Server.Run

/-!
# Server.RoundTrip — what was uploaded comes back

The contents of a name are in one file, which every upload of the name replaces.  Nonce, tag
and owner are in documents, which are only ever inserted; a download takes the first one.

* `serveAll_storage` : the file of a name holds the ciphertext of its last successful upload;
* `firstUpload?_serveAll` : the document found is that of its first successful upload;
* `roundTrip_iff` : so the last upload comes back if and only if it agrees with the first.
-/

namespace FileExchange

open Lib

/-! ## Requests without failures -/

/-- An upload finds a disk and a database that work and memory for the ciphertext, and its
contents are shorter than 2³¹ bytes. -/
structure Request.Storable (r : Request) : Prop where
  opened : r.upload.stdio.opened = true
  writeLimit : r.upload.stdio.writeLimit = none
  flushLimit : r.upload.stdio.flushLimit = none
  insert : r.upload.insert = true
  buffer : r.upload.ciphertextAlloc = true
  short : r.header.command = .upload → r.header.filesize.toInt < 2 ^ 31

/-- No crash, every step on the disk and in the database succeeds, and the contents are shorter
than 2³¹ bytes.  The other steps may fail. -/
structure Request.Works (r : Request) : Prop extends r.Storable where
  strdup : r.list.strdup = true
  freeAborts : r.list.freeAborts = false
  refusesNegative : r.download.evp.refusesNegative = true

section Works

variable {lib : CryptoLib} {srv : Server} {crypto : FileCryptoCtx} {r : Request}
  {file : SealedFile}

/-- An upload that opens its target stores its whole ciphertext. -/
theorem Request.Storable.stores (hr : r.Storable) (h : r.opens lib crypto = some file) :
    file.lacksBuffer = false ∧ file.isStored r.upload = true ∧
      file.leftBytes r.upload.stdio = file.ciphertext ∧
      (file.ciphertext, file.tag) =
        lib.encrypt crypto.key file.iv.val (payload r.header r.incoming) := by
  rcases Request.delivers_of_opens h with ⟨hcmd, _, hfile⟩
  have hshort := hr.short hcmd
  have hnonneg := hfile.nonneg
  -- `filesize + 16` does not overflow, so the second buffer is granted
  have hbuffer : file.hasBuffer = true := by
    have h64 : toInt64 (r.header.filesize.toInt + 16) = r.header.filesize.toInt + 16 :=
      toInt64_of_lt (by omega) (by omega)
    have hsize : toSizeT (r.header.filesize.toInt + 16) =
        (r.header.filesize.toInt + 16).toNat := toSizeT_of_lt (by omega) (by omega)
    have hmax : (r.header.filesize.toInt + 16).toNat ≤ ptrdiffMax := by
      unfold ptrdiffMax
      omega
    simp [hfile.buffer, hr.buffer, h64, hsize, malloc, hmax]
  have hlacks : file.lacksBuffer = false := by
    simp [SealedFile.lacksBuffer, hbuffer]
  refine ⟨hlacks, ?_, ?_, ?_⟩
  · simp [SealedFile.isStored, hlacks, StdioEnv.written, hr.writeLimit, hr.insert]
  · simp [SealedFile.leftBytes, SealedFile.delivered, hlacks, StdioEnv.delivered,
      StdioEnv.written, hr.flushLimit, hr.writeLimit]
  · have henc := hfile.encrypted
    rwa [toInt_of_lt hnonneg hshort, List.take_of_length_le] at henc
    exact List.length_take_le _ _

theorem Request.Storable.storedFile_eq (hr : r.Storable) :
    storedFile lib crypto r = r.opens lib crypto := by
  cases h : r.opens lib crypto with
  | none =>
      simp [storedFile, h]
  | some file =>
      simp [storedFile, h, Option.filter, (hr.stores h).2.1]

/-- A length that fits an `int` does not become negative. -/
theorem Request.Storable.died_eq (hr : r.Storable) (hcmd : r.header.command = .upload) :
    (uploadPrologue lib crypto r.upload r.header r.incoming).died = false := by
  refine Bool.eq_false_iff.2 fun hdied => ?_
  have hover := uploadPrologue_died_iff.1 hdied
  have hnonneg := hover.nonneg
  have hneg := hover.negative
  rw [toInt_of_lt hnonneg (hr.short hcmd)] at hneg
  omega

/-- The server goes on. -/
theorem Request.Works.serve_alive (hr : r.Works) (halive : srv.alive = true) :
    (serve lib srv r).1.alive = true := by
  cases h : r.opens lib srv.crypto with
  | some file =>
      rw [(serve_of_opens halive h).2.2.1, SealedFile.crashes_of_buffer (hr.stores h).1]
      rfl
  | none =>
      unfold serve
      rw [halive]
      simp only [Bool.not_true, Bool.false_eq_true, if_false]
      split
      · next hcmd =>
          have hnone : openedFile lib srv.crypto r.upload r.header r.incoming = none := by
            simpa [Request.opens, hcmd] using h
          dsimp only
          rw [(handleUpload_of_not_opened r.client hnone).1, hr.died_eq hcmd]
          simpa using halive
      · rw [(handleDownload_server lib srv r.header r.client r.download).2.2.1, halive,
          downloadCrashes_of_refuses hr.refusesNegative, Bool.not_false, Bool.and_true]
      · rw [handleList_alive srv hr.strdup hr.freeAborts, halive]
      · exact halive

end Works

/-! ## Runs -/

section Runs

variable {lib : CryptoLib} {srv : Server} {f : CString} {rs : List Request}

/-- The document of a successful upload. -/
def storedDocument (lib : CryptoLib) (crypto : FileCryptoCtx) (r : Request) : Option Document :=
  (storedFile lib crypto r).map fun file => file.document r.header r.client

/-- The successful uploads of `f` among the requests. -/
def uploadsOf (lib : CryptoLib) (crypto : FileCryptoCtx) (f : CString) (rs : List Request) :
    List Request :=
  rs.filter fun r => decide (r.header.filename = f) && (storedFile lib crypto r).isSome

theorem serveAll_concat (lib : CryptoLib) (srv : Server) (rs : List Request) (r : Request) :
    serveAll lib srv (rs ++ [r]) = (serve lib (serveAll lib srv rs) r).1 := by
  simp [serveAll]

/-- The upload documents are those of the successful uploads, in order. -/
theorem serveAll_uploadDocs (lib : CryptoLib) (hrs : ∀ r ∈ rs, r.Works)
    (halive : srv.alive = true) :
    (serveAll lib srv rs).alive = true ∧
      uploadDocs (serveAll lib srv rs).collection =
        uploadDocs srv.collection ++ rs.filterMap (storedDocument lib srv.crypto) := by
  induction rs using List.reverseRecOn with
  | nil =>
      exact ⟨halive, by simp [serveAll]⟩
  | append_singleton rs r ih =>
      rcases ih fun r' hr' => hrs r' (by simp [hr']) with ⟨hlive, hdocs⟩
      have hr : r.Works := hrs r (by simp)
      have hcrypto := serveAll_crypto lib srv rs
      rw [serveAll_concat]
      refine ⟨hr.serve_alive hlive, ?_⟩
      rw [List.filterMap_append, ← List.append_assoc, ← hdocs]
      -- the last request adds its document, or it is no successful upload
      cases h : r.opens lib srv.crypto with
      | none =>
          rw [(serve_of_not_opens (by rw [hcrypto]; exact h)).2.2]
          simp [storedDocument, hr.storedFile_eq, h]
      | some file =>
          rw [(serve_of_opens hlive (by rw [hcrypto]; exact h)).2.2.2.1]
          simp [storedDocument, hr.storedFile_eq, h, (hr.stores h).2.1]

theorem mem_uploadsOf {r : Request} (h : r ∈ uploadsOf lib srv.crypto f rs) :
    r ∈ rs ∧ r.header.filename = f ∧ ∃ file, storedFile lib srv.crypto r = some file := by
  simp only [uploadsOf, List.mem_filter, Bool.and_eq_true, decide_eq_true_eq,
    Option.isSome_iff_exists] at h
  exact ⟨h.1, h.2.1, h.2.2⟩

theorem uploadsOf_concat (crypto : FileCryptoCtx) (rs : List Request) (r : Request) :
    uploadsOf lib crypto f (rs ++ [r]) = uploadsOf lib crypto f rs ++
      if r.header.filename = f ∧ (storedFile lib crypto r).isSome = true then [r] else [] := by
  by_cases hr : r.header.filename = f ∧ (storedFile lib crypto r).isSome = true
  · simp [uploadsOf, hr]
  · rw [if_neg hr, uploadsOf, List.filter_append, uploadsOf]
    congr 1
    exact List.filter_eq_nil_iff.2 fun r' hr' => by
      cases List.mem_singleton.1 hr'
      simpa using hr

/-- The file of a name holds the ciphertext of its last successful upload. -/
theorem serveAll_storage {last : Request} (hrs : ∀ r ∈ rs, r.Works) (halive : srv.alive = true)
    (hlast : (uploadsOf lib srv.crypto f rs).getLast? = some last) :
    (serveAll lib srv rs).storage.get? (storagePath f) =
      (storedFile lib srv.crypto last).map SealedFile.ciphertext := by
  induction rs using List.reverseRecOn with
  | nil =>
      cases hlast
  | append_singleton rs r ih =>
      have hrs' : ∀ r' ∈ rs, r'.Works := fun r' hr' => hrs r' (by simp [hr'])
      have hr : r.Works := hrs r (by simp)
      have hlive := (serveAll_uploadDocs lib hrs' halive).1
      have hcrypto := serveAll_crypto lib srv rs
      rw [serveAll_concat]
      rw [uploadsOf_concat, hr.storedFile_eq] at hlast
      cases h : r.opens lib srv.crypto with
      | none =>
          rw [(serve_of_not_opens (by rw [hcrypto]; exact h)).2.1]
          apply ih hrs'
          simpa [h] using hlast
      | some file =>
          rw [(serve_of_opens hlive (by rw [hcrypto]; exact h)).2.1, (hr.stores h).2.2.1]
          -- a successful upload of `f` itself, or one of another name and hence of another file
          by_cases hname : r.header.filename = f
          · have heq : r = last := by
              simpa [h, hname] using hlast
            rw [← heq, hname, OrderedMap.get?_set_self, hr.storedFile_eq, h]
            rfl
          · have hlast' : (uploadsOf lib srv.crypto f rs).getLast? = some last := by
              simpa [hname] using hlast
            rcases mem_uploadsOf (List.mem_of_getLast? hlast') with ⟨hmem, hlastname, file', hfile'⟩
            have hlastworks := hrs' last hmem
            rw [hlastworks.storedFile_eq] at hfile'
            rcases Request.delivers_of_opens hfile' with ⟨_, _, hdel'⟩
            have hsafe : unsafeName f = false := by
              rw [← hlastname]
              exact safe_of_not_refused hdel'.accepted
            have hne := Request.storagePath_ne_of_opens hsafe h hname
            rw [OrderedMap.get?_set_of_ne hne]
            exact ih hrs' hlast'

/-- Searching the documents of the successful uploads for a name. -/
theorem find?_storedDocument (crypto : FileCryptoCtx) (f : CString) (rs : List Request) :
    ((rs.filterMap (storedDocument lib crypto)).find? fun d =>
        decide (d.get? .filename = some (.utf8 f))) =
      (uploadsOf lib crypto f rs).head?.bind (storedDocument lib crypto) := by
  induction rs with
  | nil =>
      rfl
  | cons r rs ih =>
      cases h : storedFile lib crypto r with
      | none =>
          simpa [storedDocument, uploadsOf, h] using ih
      | some file =>
          have hname : (file.document r.header r.client).get? .filename =
              some (.utf8 r.header.filename) := get?_filename_uploadDocument _ _ _ _ _
          -- each document carries the name that it was uploaded under
          by_cases hf : r.header.filename = f
          · simp [storedDocument, uploadsOf, h, hname, hf]
          · simpa [storedDocument, uploadsOf, h, hname, hf] using ih

/-- The document that a download of `f` finds is that of the first successful upload of `f`. -/
theorem firstUpload?_serveAll (lib : CryptoLib) (f : CString) (hrs : ∀ r ∈ rs, r.Works)
    (halive : srv.alive = true)
    (hnew : firstUpload? srv.collection f = none) :
    (firstUpload? (serveAll lib srv rs).collection f).map Document.withoutProc =
      (uploadsOf lib srv.crypto f rs).head?.bind (storedDocument lib srv.crypto) := by
  have hnone := firstUpload?_map_withoutProc srv.collection f
  rw [hnew, Option.map_none] at hnone
  rw [firstUpload?_map_withoutProc, (serveAll_uploadDocs lib hrs halive).2, List.find?_append,
    ← hnone, Option.none_or, find?_storedDocument]

/-- `uploadsOf` lists the requests whose replies report success. -/
theorem success_iff_storedFile {pre : List Request} {r : Request} (hpre : ∀ r' ∈ pre, r'.Works)
    (halive : srv.alive = true) (hcmd : r.header.command = .upload) :
    (serve lib (serveAll lib srv pre) r).2 = [.status .success, .status .success] ↔
      (storedFile lib srv.crypto r).isSome = true := by
  rw [serve_success_iff (serveAll_uploadDocs lib hpre halive).1 hcmd, serveAll_crypto]

end Runs

/-! ## The round trip -/

theorem fileMessages_zero (p : Bytes) :
    fileMessages p 0 = .response .success p.length :: if p = [] then [] else [.payload p] := by
  have hzero : (0 : Int64).toInt = 0 := rfl
  cases p with
  | nil => simp [fileMessages, hzero]
  | cons b p =>
      have hpos : (0 : Int) < (p.length : Int) + 1 := by omega
      simp [fileMessages, hzero, hpos]

section RoundTrip

variable {lib : CryptoLib} {key : Bytes} {storage : Storage} {coll : Collection}
  {rs : List Request} {env : DownloadEnv} {req : RequestHeader} {first last : Request}

/-- Two uploads of one client with the same contents, which their nonces encrypt alike. -/
def Agree (lib : CryptoLib) (key : Bytes) (r r' : Request) : Prop :=
  r.client = r'.client ∧ payload r.header r.incoming = payload r'.header r'.incoming ∧
    ∀ iv iv', r.upload.iv = some iv → r'.upload.iv = some iv' →
      (lib.encrypt key iv.val (payload r.header r.incoming)).1 =
        (lib.encrypt key iv'.val (payload r'.header r'.incoming)).1

/-- After any run without failures, the owner of the last successful upload of a name, which was
new to the server, gets its contents back if and only if it agrees with the first successful
upload of that name. -/
theorem roundTrip_iff (hlib : lib.Correct) (hnew : firstUpload? coll req.filename = none)
    (hrs : ∀ r ∈ rs, r.Works)
    (hideal : ∀ r ∈ rs, ∀ file, r.opens lib (Server.started key storage coll).crypto = some file →
      lib.IdealFor key file.iv.val (payload r.header r.incoming))
    (hfirst : (uploadsOf lib (Server.started key storage coll).crypto req.filename rs).head? =
      some first)
    (hlast : (uploadsOf lib (Server.started key storage coll).crypto req.filename rs).getLast? =
      some last)
    (henv : env.Works) (hoffset : req.offset = 0) :
    (handleDownload lib (serveAll lib (Server.started key storage coll) rs) req last.client
        env).2 =
        .response .success (payload last.header last.incoming).length ::
          (if payload last.header last.incoming = [] then []
          else [.payload (payload last.header last.incoming)]) ↔
      Agree lib key first last := by
  have halive : (Server.started key storage coll).alive = true := rfl
  have hkey : (Server.started key storage coll).crypto.key = key := rfl
  rcases mem_uploadsOf (List.mem_of_head? hfirst) with ⟨hmem₁, hname₁, file₁, hfile₁⟩
  rcases mem_uploadsOf (List.mem_of_getLast? hlast) with ⟨hmem₂, hname₂, file₂, hfile₂⟩
  have hopen₁ := hfile₁
  have hopen₂ := hfile₂
  rw [(hrs first hmem₁).storedFile_eq] at hopen₁
  rw [(hrs last hmem₂).storedFile_eq] at hopen₂
  have henc := ((hrs first hmem₁).stores hopen₁).2.2.2
  have henc' := ((hrs last hmem₂).stores hopen₂).2.2.2
  rw [hkey] at henc henc'
  rcases Request.delivers_of_opens hopen₁ with ⟨_, _, hdel₁⟩
  rcases Request.delivers_of_opens hopen₂ with ⟨_, _, hdel⟩
  have hsafe : unsafeName req.filename = false := by
    rw [← hname₂]
    exact safe_of_not_refused hdel.accepted
  have hlen : file₂.ciphertext.length < 2 ^ 31 := hdel.length_ciphertext_lt hlib
  -- the document found is that of the first upload, the file that of the last
  have hdoc := firstUpload?_serveAll lib req.filename hrs halive hnew
  rw [hfirst, Option.bind_some, storedDocument, hfile₁, Option.map_some] at hdoc
  rcases Option.map_eq_some_iff.1 hdoc with ⟨d, hd, hsame⟩
  have hcontent := serveAll_storage hrs halive hlast
  rw [hfile₂, Option.map_some] at hcontent
  have hvalid : invalidOffset 0 file₂.ciphertext.length = false := by
    simp [invalidOffset]
  have hmax : file₂.ciphertext.length ≤ ptrdiffMax := by
    unfold ptrdiffMax
    omega
  rw [handleDownload_sent, serveAll_crypto, hd, hcontent, downloadReply_of_works henv hsafe hmax,
    mayDownload_of_document hsame, hoffset, hvalid, hkey,
    decryptFile_of_document hsame (hdel₁.length_tag hlib) henv.evp hlen, ← fileMessages_zero]
  constructor
  · -- the reply has the contents of the last upload, so its ciphertext has decrypted
    intro h
    by_cases hclient : first.client = last.client
    · simp only [hclient, decide_true, Bool.not_true, Bool.false_eq_true, if_false] at h
      have hplain : lib.decrypt key file₁.iv.val file₁.tag file₂.ciphertext =
          some (payload last.header last.incoming) :=
        EvpResult.ofOption_eq_done_iff.1
          (@decryptedReply_injective _ (.done (payload last.header last.incoming)) h)
      rw [(Prod.mk.inj henc).2] at hplain
      rcases (hideal first hmem₁ file₁ hopen₁).eq_plaintext hlib hplain with ⟨hct, hp⟩
      refine ⟨hclient, hp.symm, fun iv iv' hiv₁ hiv₂ => ?_⟩
      cases hdel₁.iv.symm.trans hiv₁
      cases hdel.iv.symm.trans hiv₂
      rw [← (Prod.mk.inj henc').1, hct]
    · simp [hclient, fileMessages, Message.status] at h
  · -- the file on disk is, byte for byte, the one that the document was made for
    rintro ⟨hclient, hpay, hct⟩
    have hbytes : file₂.ciphertext = file₁.ciphertext := by
      rw [(Prod.mk.inj henc').1, ← hct file₁.iv file₂.iv hdel₁.iv hdel.iv, (Prod.mk.inj henc).1]
    have hplain : lib.decrypt key file₁.iv.val file₁.tag file₂.ciphertext =
        some (payload first.header first.incoming) := by
      rw [hbytes, (Prod.mk.inj henc).1, (Prod.mk.inj henc).2, hlib.decrypt_encrypt]
    simp [hclient, hplain, hpay, EvpResult.ofOption]

end RoundTrip

theorem Request.works_uploading {client filename : CString} {content hash : Bytes}
    (h : content.length < 2 ^ 31) : (Request.uploading client filename content hash).Works where
  opened := rfl
  writeLimit := rfl
  flushLimit := rfl
  insert := rfl
  buffer := rfl
  strdup := rfl
  freeAborts := rfl
  refusesNegative := rfl
  short _ := by
    have hint : (Int64.ofNat content.length).toInt = content.length :=
      Int64.toInt_ofNat_of_lt (by omega)
    simp only [Request.uploading, RequestHeader.announcing, hint]
    omega

/-- One upload, and a download by its owner. -/
theorem roundTrip_once :
    (handleDownload sampleLib
      (serveAll sampleLib (Server.started sampleKey OrderedMap.empty [])
        [Request.uploading (ascii "alice") (ascii "a") (ascii "hi") (sampleHash (ascii "hi"))])
      { RequestHeader.announcing (ascii "a") [] [] [] with command := .download }
      (ascii "alice") (DownloadEnv.ok 9)).2 =
      [.response .success 2, .payload (ascii "hi")] := by
  let up := Request.uploading (ascii "alice") (ascii "a") (ascii "hi") (sampleHash (ascii "hi"))
  let down : RequestHeader :=
    { RequestHeader.announcing (ascii "a") [] [] [] with command := .download }
  let srv := Server.started sampleKey OrderedMap.empty []
  have hworks : ∀ r ∈ [up], r.Works := by
    intro r hr
    cases List.mem_singleton.1 hr
    exact Request.works_uploading (by decide)
  have hideal : ∀ r ∈ [up], ∀ file, r.opens sampleLib srv.crypto = some file →
      sampleLib.IdealFor sampleKey file.iv.val (payload r.header r.incoming) := by
    intro r hr file _
    cases List.mem_singleton.1 hr
    exact sampleLib_idealFor _ _ (by decide)
  have huploads : uploadsOf sampleLib srv.crypto down.filename [up] = [up] := by
    refine List.filter_eq_self.2 fun r hr => ?_
    cases List.mem_singleton.1 hr
    decide
  have hfirst : (uploadsOf sampleLib srv.crypto down.filename [up]).head? = some up := by
    rw [huploads]
    rfl
  have hlast : (uploadsOf sampleLib srv.crypto down.filename [up]).getLast? = some up := by
    rw [huploads]
    rfl
  have hnew : firstUpload? [] down.filename = none := rfl
  have hoffset : down.offset = 0 := rfl
  have hiff := roundTrip_iff sampleLib_correct hnew hworks hideal hfirst hlast
    (DownloadEnv.works_ok 9) hoffset
  refine hiff.2 ⟨rfl, rfl, ?_⟩
  rintro iv iv' hiv hiv'
  cases hiv.symm.trans hiv'
  rfl

/-- A second upload of the same name by the same client: the file is new, but nonce and tag are
still those of the first upload. -/
theorem roundTrip_second_version_unreadable :
    let rs :=
      [Request.uploading (ascii "alice") (ascii "a") (ascii "hi") (sampleHash (ascii "hi")),
       Request.uploading (ascii "alice") (ascii "a") (ascii "yo") (sampleHash (ascii "yo"))]
    let srv := Server.started sampleKey OrderedMap.empty []
    (∀ r ∈ rs, r.Works) ∧
      (∀ r ∈ rs, ∀ iv, sampleLib.IdealFor sampleKey iv (payload r.header r.incoming)) ∧
      (rs[1]?.map fun r => (serve sampleLib (serveAll sampleLib srv (rs.take 1)) r).2) =
        some [.status .success, .status .success] ∧
      (uploadsOf sampleLib srv.crypto (ascii "a") rs).getLast?.map (fun r =>
        (r.client, payload r.header r.incoming)) = some (ascii "alice", ascii "yo") ∧
      (handleDownload sampleLib (serveAll sampleLib srv rs)
        { RequestHeader.announcing (ascii "a") [] [] [] with command := .download }
        (ascii "alice") (DownloadEnv.ok 9)).2 = [.status .error] := by
  refine ⟨?_, ?_, by decide, by decide, by decide⟩
  · intro r hr
    rcases List.mem_cons.1 hr with rfl | hr
    · exact Request.works_uploading (by decide)
    · cases List.mem_singleton.1 hr
      exact Request.works_uploading (by decide)
  · intro r hr iv
    rcases List.mem_cons.1 hr with rfl | hr
    · exact sampleLib_idealFor _ _ (by decide)
    · cases List.mem_singleton.1 hr
      exact sampleLib_idealFor _ _ (by decide)

end FileExchange
