import FileExchange.Client.Download
import FileExchange.Integrity
import FileExchange.Server.Offset
import FileExchange.Tls.Upload

/-!
# EndToEnd — a file on its way from one client to the server and back

`upload_file_ssl` hashes a file, sends a header and then the file; the server receives, checks,
encrypts and stores it, and serves other requests; `download_file_ssl` receives what the server
decrypts.

* `FinishedUpload` : a call of `upload_file_ssl` up to the end of its send loop;
* `FinishedUpload.Reaches` : a request that the server makes of it;
* `upload_then_download`   : such an upload is acknowledged, and the file comes back.
-/

namespace FileExchange

open Blake3 Lib

/-- A call of `upload_file_ssl` that has sent its header and then the whole file. -/
structure FinishedUpload (P : Platform) where
  file : FileReads
  remoteFilename : CString
  recipient : CString
  noNul_name : 0 ∉ remoteFilename
  noNul_recipient : 0 ∉ recipient
  /-- The cipher of the server takes its length as an `int`. -/
  short : file.content.length < 2 ^ 31
  stack : HeaderMemory
  header : Bytes
  sentHeader : (ClientCall.upload (file.localFile P (Int64.ofNat file.content.length))
    remoteFilename recipient).sentHeader stack = some header
  writes : Nat → Transfer.Schedule
  sent : Transfer.Client.FileSent
  sendFile : Transfer.Client.sendFile writes file.content (file.content.length + 2) = some sent
  completed : sent.completed = true

namespace FinishedUpload

variable {clientP serverP : Platform} {u : FinishedUpload clientP}

/-- What was sent behind the header is the file. -/
theorem stream_eq (u : FinishedUpload clientP) : u.sent.stream = u.file.content := by
  have hshort := u.short
  rcases Transfer.Client.sendFile_accounts u.writes (show (u.file.content.length : Int) < 2 ^ 63
    by omega) with ⟨sent, hsent, haccounts⟩
  have hsame := Option.some.inj ((hsent _ (by omega)).symm.trans u.sendFile)
  subst hsame
  cases haccounts with
  | whole _ hstream => exact hstream
  | part hfailed => exact absurd (u.completed.symm.trans hfailed) (by decide)

theorem toInt_size (u : FinishedUpload clientP) :
    (Int64.ofNat u.file.content.length).toInt = u.file.content.length := by
  have hshort := u.short
  exact Int64.toInt_ofNat_of_lt (by omega)

/-- The server reads the header, whatever lies behind it in memory, and the records that follow
start with the file. -/
structure Reaches (u : FinishedUpload clientP) (r : Request) : Prop where
  header : ∃ after, r.header = RequestHeader.ofBytes (u.header ++ after)
  incoming : ∃ later, r.incoming.flatten = u.sent.stream ++ later

namespace Reaches

variable {r : Request}

theorem header_eq (hclient : clientP.Agrees) (h : u.Reaches r) :
    r.header.command = .upload ∧ r.header.filename = headerFilename u.remoteFilename ∧
      r.header.filesize.toInt = u.file.content.length ∧
      r.header.fileHash = blake3Hash u.file.content := by
  rcases h.header with ⟨after, hheader⟩
  have hshort := u.short
  have hread := ofBytes_of_sentHeader after hclient (by omega) u.noNul_name
    u.noNul_recipient u.sentHeader
  rw [hheader, hread]
  exact ⟨rfl, rfl, u.toInt_size, rfl⟩

/-- The server takes the file out of the records. -/
theorem payload_eq (hclient : clientP.Agrees) (h : u.Reaches r) :
    payload r.header r.incoming = u.file.content := by
  rcases h.incoming with ⟨later, hincoming⟩
  rw [payload, (h.header_eq hclient).2.2.1, hincoming, u.stream_eq, Int.toNat_natCast,
    List.take_left]

end Reaches

section Serve

variable {lib : CryptoLib} {r : Request} {crypto : FileCryptoCtx} {key : Bytes}
  {storage : Storage} {coll : Collection} {pre post : List Request}

theorem correct_withBlake3 (hlib : lib.Correct) (P : Platform) : (lib.withBlake3 P).Correct :=
  ⟨hlib.length_ciphertext, hlib.length_tag, hlib.decrypt_encrypt, hlib.length_plaintext⟩

/-- What the server must find to accept an upload, besides a disk and a database that work. -/
structure Accepts (crypto : FileCryptoCtx) (r : Request) : Prop where
  accepted : uploadRefusal crypto r.header = none
  openable : openable (storagePath r.header.filename) = true
  ready : r.upload.readySent = true
  alloc : r.upload.plaintextAlloc = true
  iv : r.upload.iv.isSome = true
  evp : r.upload.evp.works = true

/-- Then the upload gets as far as its target: in particular the hash is the one announced. -/
theorem Reaches.opens (lib : CryptoLib) (hclient : clientP.Agrees) (hserver : serverP.Agrees)
    (h : u.Reaches r) (haccepts : Accepts crypto r) (hstorable : r.Storable) :
    ∃ file, r.opens (lib.withBlake3 serverP) crypto = some file := by
  obtain ⟨hcommand, -, hsize, hhash⟩ := h.header_eq hclient
  have hpayload := h.payload_eq hclient
  have hshort := u.short
  rcases Option.isSome_iff_exists.1 haccepts.iv with ⟨iv, hiv⟩
  have hpasses : UploadPasses (lib.withBlake3 serverP) crypto r.upload r.header r.incoming :=
    { accepted := haccepts.accepted
      ready := haccepts.ready
      alloc := by
        have hmax : u.file.content.length ≤ ptrdiffMax := by
          unfold ptrdiffMax
          omega
        rw [hsize, toSizeT_of_lt (by omega) (by omega), Int.toNat_natCast, haccepts.alloc]
        simp [malloc, hmax]
      received := by
        rcases h.incoming with ⟨later, hincoming⟩
        rw [hsize, hincoming, List.length_append, u.stream_eq]
        omega
      hash := by rw [withBlake3_payload lib hserver, hpayload, hhash]
      evp := haccepts.evp
      positive := by
        rw [hsize, toInt_of_lt (by omega) (by omega)]
        omega }
  refine ⟨sealedFile (lib.withBlake3 serverP) crypto.key r.upload r.header r.incoming iv, ?_⟩
  rw [Request.opens, if_pos hcommand, openedFile, hstorable.opened, haccepts.openable]
  exact hpasses.file_eq hiv

/-- The server acknowledges such an upload of a new name, and whatever other requests it serves
afterwards, a download by the same client into a new local file gives the file back: its bytes can
arrive in any records, but the field `offset` must happen to be zero. -/
theorem upload_then_download (hlib : lib.Correct) (hclient : clientP.Agrees)
    (hserver : serverP.Agrees) (h : u.Reaches r)
    (haccepts : Accepts (Server.started key storage coll).crypto r) (hstorable : r.Storable)
    (hnew : firstUpload? coll r.header.filename = none)
    (hothers : ∀ q ∈ pre ++ post, q.header.filename = r.header.filename →
      q.opens (lib.withBlake3 serverP) (Server.started key storage coll).crypto = none)
    (halive : (serveAll (lib.withBlake3 serverP) (Server.started key storage coll)
      (pre ++ r :: post)).alive = true) :
    let run := serveAll (lib.withBlake3 serverP) (Server.started key storage coll)
    (serve (lib.withBlake3 serverP) (run pre) r).2 = [.status .success, .status .success] ∧
      ∀ a : Attempt, u.file.content ≠ [] → a.stack.offset = 0 → a.cut = false →
        a.Arrives (lib.withBlake3 serverP) u.remoteFilename r.client (run (pre ++ r :: post)) →
          downloadFileSsl none a.cut a.records = (u.file.content, .returned 0) := by
  intro run
  have hlib' := correct_withBlake3 hlib serverP
  have hpayload := h.payload_eq hclient
  obtain ⟨file, hopens⟩ := h.opens lib hclient hserver haccepts hstorable
  obtain ⟨-, hstored, hleft, -⟩ := hstorable.stores hopens
  have hfile : storedFile (lib.withBlake3 serverP) (Server.started key storage coll).crypto r =
      some file := by
    rw [hstorable.storedFile_eq, hopens]
  have hcrypto := serveAll_crypto (lib.withBlake3 serverP) (Server.started key storage coll) pre
  refine ⟨?_, fun a hne hoffset hcut harrives => ?_⟩
  · have hbefore : (run pre).alive = true := by
      rw [serveAll, List.foldl_append] at halive
      exact serveAll_alive_of_alive halive
    exact (serve_of_opens hbefore (by rw [hcrypto]; exact hopens)).2.2.2.2.2 hstored
  · have hdisk : r.upload.stdio.delivered file.ciphertext.length = file.ciphertext.length := by
      simp [StdioEnv.delivered, StdioEnv.written, hstorable.flushLimit, hstorable.writeLimit]
    have hholds := holds_of_run hlib' hnew hfile hdisk (by rw [hpayload]; exact u.short) hothers
      halive
    rw [hpayload, (h.header_eq hclient).2.1] at hholds
    have hvalid : invalidOffset a.stack.offset u.file.content.length = false := by
      rw [hoffset]
      simp [invalidOffset]
    have hwire := a.wire_eq hlib' hholds
    have hstream := harrives.flatten_eq hcut
    rw [hwire, hvalid, hoffset] at hstream
    have hshort := u.short
    have hcall := @downloadFileSsl_of_response none a.cut _ _ _ _ (by omega) (by omega) hstream
    have hsome : ¬ (ResponseStatus.success ≠ .success ∨ (u.file.content.length : Int) = 0) := by
      have hpos := List.length_pos_of_ne_nil hne
      simp only [ne_eq, not_true_eq_false, false_or]
      omega
    rw [hcall, if_neg hsome]
    simp

end Serve

/-! ## Two bytes -/

/-- The two bytes can be sent under the name "a". -/
theorem exists_hiUpload : ∃ u : FinishedUpload .portable, u.file = hiReads ∧
    u.remoteFilename = ascii "a" ∧ u.recipient = [] := by
  obtain ⟨header, hsent⟩ : ∃ header, (ClientCall.upload (hiReads.localFile .portable 2)
      (ascii "a") []).sentHeader blankStack = some header := by
    rw [ClientCall.sentHeader, ClientCall.stores, FileReads.localFile,
      computeFileBlake3_eq Platform.portable_agrees hiReads (by decide)]
    exact ⟨_, rfl⟩
  exact ⟨{
    file := hiReads
    remoteFilename := ascii "a"
    recipient := []
    noNul_name := by decide
    noNul_recipient := by decide
    short := by decide
    stack := blankStack
    header := header
    sentHeader := hsent
    writes := fun _ => Transfer.allAtOnce
    sent := { completed := true, chunks := [2], totalSent := 2, stream := ascii "hi" }
    sendFile := by decide
    completed := rfl }, rfl, rfl, rfl⟩

/-- They arrive in two records. -/
def hiRequest (header : Bytes) : Request :=
  { Request.uploading (ascii "alice") [] [] [] with
    header := RequestHeader.ofBytes (header ++ [])
    incoming := [ascii "h", ascii "i"] }

theorem arrives_at_once {lib : CryptoLib} {f client : CString} {srv : Server} (a : Attempt) :
    Attempt.Arrives lib f client srv
      { a with
        records := [a.wire lib f client srv]
        cut := false } := by
  simp [Attempt.Arrives, Attempt.wire]

/-- Alice's upload is acknowledged, and her download gives her the two bytes. -/
theorem upload_then_download_hi :
    ∃ (u : FinishedUpload .portable) (r : Request), u.Reaches r ∧ u.file.content = ascii "hi" ∧
      let lib := sampleLib.withBlake3 .portable
      let served := serve lib (Server.started sampleKey OrderedMap.empty []) r
      served.2 = [.status .success, .status .success] ∧
        downloadFileSsl none false [(sampleAttempt 0 []).wire lib (ascii "a") (ascii "alice")
          served.1] = (ascii "hi", .returned 0) := by
  obtain ⟨u, hfile, hname, hrecipient⟩ := exists_hiUpload
  have hreaches : u.Reaches (hiRequest u.header) :=
    ⟨⟨[], rfl⟩, [], by rw [u.stream_eq, hfile]; rfl⟩
  have hsent := u.sentHeader
  rw [hfile, hname, hrecipient] at hsent
  have hread := ofBytes_of_sentHeader [] Platform.portable_agrees (by decide)
    (by decide) (by decide) hsent
  have haccepts : Accepts (Server.started sampleKey OrderedMap.empty []).crypto
      (hiRequest u.header) := by
    refine ⟨?_, ?_, rfl, rfl, rfl, rfl⟩
    · rw [hiRequest, hread]
      rfl
    · rw [hiRequest, hread]
      exact (by decide : openable (storagePath (headerFilename (ascii "a"))) = true)
  have hworks : (hiRequest u.header).Works := by
    refine ⟨⟨rfl, rfl, rfl, rfl, rfl, fun _ => ?_⟩, rfl, rfl, rfl⟩
    rw [hiRequest, hread]
    exact (by decide : (Int64.ofNat hiReads.content.length).toInt < 2 ^ 31)
  obtain ⟨hack, hback⟩ := @upload_then_download .portable .portable u sampleLib
    (hiRequest u.header) sampleKey OrderedMap.empty [] [] [] sampleLib_correct
    Platform.portable_agrees Platform.portable_agrees hreaches haccepts hworks.toStorable rfl
    (by simp) (hworks.serve_alive rfl)
  rw [hfile, hname] at hback
  exact ⟨u, _, hreaches, by rw [hfile]; rfl, hack,
    hback _ (by decide : hiReads.content ≠ []) rfl rfl (arrives_at_once (sampleAttempt 0 []))⟩

end FinishedUpload

end FileExchange
