import FileExchange.Client.Download

/-!
# Server.Offset — downloads from an offset

The offset is checked against the size of the file on disk, the slice is taken from the decrypted
buffer, and its length is computed from the result of the decryption.

* `downloadAccesses` : what a download reads and writes of its plaintext buffer;
* `downloadAccesses_inside` : all of it is inside, unless the cipher runs beyond the buffers;
* `Holds.serve`      : other requests do not touch what the server holds for a client;
* `download_fromOffset` : the reply is the rest of the file from the offset on.
-/

namespace FileExchange

open Lib

/-! ## The plaintext buffer -/

/-- `size` bytes from `start` on in `plaintext`, a block of `block` bytes. -/
structure BufferAccess where
  start : Int
  size : Int
  block : Nat
  deriving DecidableEq, Repr

def BufferAccess.Inside (a : BufferAccess) : Prop :=
  0 ≤ a.start ∧ 0 ≤ a.size ∧ a.start + a.size ≤ a.block

/-- The handler allocates its plaintext buffer. -/
def allocatesPlaintext (env : DownloadEnv) (d : Document) (content : Bytes) (req : RequestHeader)
    (client : CString) : Bool :=
  !unsafeName req.filename && env.find && mayDownload d client && env.stat &&
    !invalidOffset req.offset content.length && env.opened &&
    malloc env.ciphertextAlloc content.length && env.read && (ivAndTag? d).isSome &&
    malloc env.plaintextAlloc content.length

/-- What the cipher writes: a negative length that is not refused counts as a `size_t`. -/
def decryptedSize (evp : EvpEnv) (ciphertextLen : Int) : Nat :=
  if evp.works && decide (ciphertextLen < 0) && !evp.refusesNegative then toSizeT ciphertextLen
  else ciphertextLen.toNat

/-- The decryption fills the buffer, `ssl_send_all` reads it from the offset on. -/
def plaintextAccesses (lib : CryptoLib) (key : Bytes) (evp : EvpEnv) (d : Document)
    (content : Bytes) (offset : Int64) : List BufferAccess :=
  let filled := decryptedSize evp (toInt content.length)
  { start := 0, size := filled, block := content.length } ::
    match decryptFile lib key evp d content with
    | .failed => []
    | .died => []
    | .done plaintext =>
        let bytesToSend : Int := plaintext.length - offset.toInt
        if bytesToSend > 0 then
          [{ start := offset.toInt, size := bytesToSend, block := content.length }]
        else []

def downloadAccesses (lib : CryptoLib) (srv : Server) (req : RequestHeader) (client : CString)
    (env : DownloadEnv) : List BufferAccess :=
  match firstUpload? srv.collection req.filename,
    srv.storage.get? (storagePath req.filename) with
  | some d, some content =>
      if allocatesPlaintext env d content req client then
        plaintextAccesses lib srv.crypto.key env.evp d content req.offset
      else []
  | _, _ => []

section Accesses

variable {lib : CryptoLib} {key : Bytes}

/-- A decryption never has more bytes than the file. -/
theorem length_decryptFile_le (hlib : lib.Correct) {evp : EvpEnv} {d : Document}
    {content plaintext : Bytes} (h : decryptFile lib key evp d content = .done plaintext) :
    plaintext.length ≤ content.length := by
  rcases decryptFile_eq_done h with ⟨_, _, _, hplain, _⟩
  rw [hlib.length_plaintext _ _ _ _ _ hplain]
  exact List.length_take_le' _ _

/-- The cipher stays within the buffer of a download that the process survives. -/
theorem decryptedSize_le {srv : Server} {req : RequestHeader} {client : CString}
    {env : DownloadEnv} {d : Document} {content : Bytes}
    (hcrash : downloadCrashes lib srv req client env = false)
    (hfound : firstUpload? srv.collection req.filename = some d)
    (hfile : srv.storage.get? (storagePath req.filename) = some content)
    (halloc : allocatesPlaintext env d content req client = true) :
    decryptedSize env.evp (toInt content.length) ≤ content.length := by
  unfold decryptedSize
  split
  · next hover =>
      simp only [allocatesPlaintext, Bool.and_eq_true, Bool.not_eq_true'] at halloc
      obtain ⟨⟨⟨⟨⟨⟨⟨⟨⟨hsafe, hfind⟩, hmay⟩, hstat⟩, hoff⟩, hopened⟩, hct⟩, hread⟩, hiv⟩, hpt⟩ :=
        halloc
      simp only [Bool.and_eq_true, decide_eq_true_eq, Bool.not_eq_true'] at hover
      have hdies : downloadCrashes lib srv req client env = true :=
        downloadCrashes_iff.2 ⟨d, content, ⟨hsafe, hfind, hfound, hmay, hstat, hfile, hoff, hopened,
          hct, hread⟩, hiv, hpt, hover.1.1, hover.1.2, hover.2⟩
      exact absurd (hcrash.symm.trans hdies) (by decide)
  · have hle := toInt_le (Int.natCast_nonneg content.length)
    omega

/-- No download that the process survives reads or writes outside its plaintext buffer, whatever
the file and the document are. -/
theorem downloadAccesses_inside (hlib : lib.Correct) {srv : Server} {req : RequestHeader}
    {client : CString} {env : DownloadEnv}
    (hcrash : downloadCrashes lib srv req client env = false) :
    ∀ a ∈ downloadAccesses lib srv req client env, a.Inside := by
  intro a ha
  unfold downloadAccesses at ha
  split at ha
  · next d content hfound hfile =>
      split at ha
      · next halloc =>
          -- the offset has been checked against the size of the file
          have hoffset : invalidOffset req.offset content.length = false := by
            cases hinvalid : invalidOffset req.offset content.length with
            | false => rfl
            | true => simp [allocatesPlaintext, hinvalid] at halloc
          simp only [invalidOffset, Bool.or_eq_false_iff, decide_eq_false_iff_not] at hoffset
          rcases List.mem_cons.1 ha with rfl | ha
          · have hle := decryptedSize_le hcrash hfound hfile halloc
            refine ⟨le_rfl, Int.natCast_nonneg _, ?_⟩
            dsimp only
            omega
          · split at ha
            · cases ha
            · cases ha
            · next plaintext hdec =>
                have hlen := length_decryptFile_le hlib hdec
                simp only at ha
                split at ha
                · cases List.mem_singleton.1 ha
                  simp only [BufferAccess.Inside]
                  omega
                · cases ha
      · cases ha
  · cases ha

end Accesses

/-! ## Requests that leave a file alone -/

section Kept

variable {lib : CryptoLib} {srv : Server} {f client : CString} {p : Bytes} {u : Request}

/-- A server that is down stays as it is. -/
theorem serve_alive_of_alive (h : (serve lib srv u).1.alive = true) : srv.alive = true := by
  cases halive : srv.alive with
  | true =>
      rfl
  | false =>
      simp [serve, halive] at h

theorem serveAll_alive_of_alive {rs : List Request} (h : (serveAll lib srv rs).alive = true) :
    srv.alive = true := by
  induction rs generalizing srv with
  | nil =>
      exact h
  | cons u rs ih =>
      exact serve_alive_of_alive (ih h)

/-- The upload documents of a name, after a request that is no successful upload of it. -/
theorem firstUpload?_serve_of_other
    (hu : srv.alive = true → u.header.filename = f → storedFile lib srv.crypto u = none) :
    (firstUpload? (serve lib srv u).1.collection f).map Document.withoutProc =
      (firstUpload? srv.collection f).map Document.withoutProc := by
  rw [firstUpload?_map_withoutProc, firstUpload?_map_withoutProc]
  rcases serve_cases lib srv u with ⟨_, _, hdocs⟩ | ⟨file, halive, hopens, _, hdocs⟩
  · rw [hdocs]
  · rw [hdocs, List.find?_append]
    -- the new document carries another name
    split
    · next hstored =>
        have hname : u.header.filename ≠ f := by
          intro hname
          have hnone := hu halive hname
          simp [storedFile, hopens, hstored] at hnone
        simp [SealedFile.document, hname]
    · simp

theorem storedFile_of_not_opens {crypto : FileCryptoCtx} (h : u.opens lib crypto = none) :
    storedFile lib crypto u = none := by
  rw [storedFile, h, Option.filter_none]

/-- What the server holds for a client stays, unless the name is uploaded again. -/
theorem Holds.serve (h : Holds lib srv f client p)
    (hu : u.header.filename = f → u.opens lib srv.crypto = none) :
    Holds lib (serve lib srv u).1 f client p := by
  refine h.of_same serve_crypto ?_
    (firstUpload?_serve_of_other fun _ hname => storedFile_of_not_opens (hu hname))
  rcases serve_cases lib srv u with ⟨_, hstorage, _⟩ | ⟨file, _, hopens, hstorage, _⟩
  · rw [hstorage]
  · rcases h with ⟨d, content, hown, _⟩
    have hname : u.header.filename ≠ f := by
      intro hname
      rw [hu hname] at hopens
      cases hopens
    rw [hstorage, OrderedMap.get?_set_of_ne
      (Request.storagePath_ne_of_opens hown.safe hopens hname)]

theorem Holds.serveAll {rs : List Request} (h : Holds lib srv f client p)
    (hrs : ∀ u ∈ rs, u.header.filename = f → u.opens lib srv.crypto = none) :
    Holds lib (serveAll lib srv rs) f client p := by
  induction rs generalizing srv with
  | nil =>
      exact h
  | cons u rs ih =>
      refine ih (h.serve (hrs u (by simp))) fun u' hu' => ?_
      rw [serve_crypto]
      exact hrs u' (by simp [hu'])

theorem firstUpload?_serveAll_of_others {rs : List Request}
    (hnew : firstUpload? srv.collection f = none)
    (hrs : ∀ u ∈ rs, u.header.filename = f → u.opens lib srv.crypto = none) :
    firstUpload? (FileExchange.serveAll lib srv rs).collection f = none := by
  induction rs generalizing srv with
  | nil =>
      exact hnew
  | cons u rs ih =>
      refine ih ?_ fun u' hu' => ?_
      · have hsame := firstUpload?_serve_of_other fun _ hname =>
          storedFile_of_not_opens (hrs u (by simp) hname)
        rw [hnew, Option.map_none, Option.map_eq_none_iff] at hsame
        exact hsame
      · rw [serve_crypto]
        exact hrs u' (by simp [hu'])

end Kept

/-! ## The reply -/

/-- The file bytes of a reply. -/
def replyPayload (msgs : List Message) : Bytes :=
  (msgs.map fun m => match m with
    | .response _ _ => []
    | .payload bytes => bytes).flatten

theorem replyPayload_fileMessages (p : Bytes) (offset : Int64) :
    replyPayload (fileMessages p offset) = p.drop offset.toInt.toNat := by
  by_cases hrest : (p.length : Int) - offset.toInt > 0
  · have hmessages : fileMessages p offset =
        [.response .success p.length, .payload (p.drop offset.toInt.toNat)] := by
      simp only [fileMessages, hrest, if_true]
    rw [hmessages]
    exact List.append_nil _
  · have hmessages : fileMessages p offset = [.response .success p.length] := by
      simp only [fileMessages, hrest, if_false]
    have hdrop : p.drop offset.toInt.toNat = [] := List.drop_of_length_le (by omega)
    rw [hmessages, hdrop]
    rfl

section Reply

variable {lib : CryptoLib} {key : Bytes} {storage : Storage} {coll : Collection}
  {pre post : List Request} {r : Request} {file : SealedFile}

/-- After a run in which a name was uploaded once, with success and with all bytes on the disk, the
server holds the contents for the client that uploaded them. -/
theorem holds_of_run (hlib : lib.Correct) (hnew : firstUpload? coll r.header.filename = none)
    (hstored : storedFile lib (Server.started key storage coll).crypto r = some file)
    (hdisk : r.upload.stdio.delivered file.ciphertext.length = file.ciphertext.length)
    (hshort : (payload r.header r.incoming).length < 2 ^ 31)
    (hothers : ∀ u ∈ pre ++ post, u.header.filename = r.header.filename →
      u.opens lib (Server.started key storage coll).crypto = none)
    (halive : (serveAll lib (Server.started key storage coll) (pre ++ r :: post)).alive = true) :
    Holds lib (serveAll lib (Server.started key storage coll) (pre ++ r :: post))
      r.header.filename r.client (payload r.header r.incoming) := by
  rcases Option.filter_eq_some_iff.1 hstored with ⟨hopens, hisStored⟩
  rcases Request.delivers_of_opens hopens with ⟨_, _, hdelivers⟩
  have hcrypto := serveAll_crypto lib (Server.started key storage coll) pre
  have hsplit : serveAll lib (Server.started key storage coll) (pre ++ r :: post) =
      serveAll lib (serve lib (serveAll lib (Server.started key storage coll) pre) r).1 post := by
    simp [serveAll]
  rw [hsplit] at halive ⊢
  -- the whole payload was encrypted, and the whole ciphertext written
  have hencrypted : (file.ciphertext, file.tag) =
      lib.encrypt key file.iv.val (payload r.header r.incoming) := by
    have hlen := hdelivers.length_payload
    have hnonneg := hdelivers.nonneg
    have hint : toInt r.header.filesize.toInt = r.header.filesize.toInt :=
      toInt_of_lt hnonneg (by omega)
    have henc := hdelivers.encrypted
    rwa [hint, List.take_of_length_le hlen.le] at henc
  have hleft : file.leftBytes r.upload.stdio = file.ciphertext := by
    rw [SealedFile.leftBytes,
      SealedFile.delivered_of_buffer (SealedFile.lacksBuffer_of_isStored hisStored), hdisk,
      List.take_length]
  have hbefore : firstUpload? (serveAll lib (Server.started key storage coll) pre).collection
      r.header.filename = none :=
    firstUpload?_serveAll_of_others hnew fun u hu => hothers u (List.mem_append_left _ hu)
  have halive₁ := serve_alive_of_alive (serveAll_alive_of_alive halive)
  have hholds := holds_of_stored hlib halive₁ hbefore (by rw [hcrypto]; exact hopens) hisStored
    hleft (by rw [hcrypto]; exact hencrypted)
  refine hholds.serveAll fun u hu hname => ?_
  rw [serve_crypto, hcrypto]
  exact hothers u (List.mem_append_right _ hu) hname

/-- The reply to a download of such a file from offset `k` is its length and what follows the first
`k` bytes, read inside the plaintext buffer, or a refusal if `k` is negative or behind the end. -/
theorem download_fromOffset (hlib : lib.Correct)
    (hnew : firstUpload? coll r.header.filename = none)
    (hstored : storedFile lib (Server.started key storage coll).crypto r = some file)
    (hdisk : r.upload.stdio.delivered file.ciphertext.length = file.ciphertext.length)
    (hshort : (payload r.header r.incoming).length < 2 ^ 31)
    (hothers : ∀ u ∈ pre ++ post, u.header.filename = r.header.filename →
      u.opens lib (Server.started key storage coll).crypto = none)
    (halive : (serveAll lib (Server.started key storage coll) (pre ++ r :: post)).alive = true)
    {env : DownloadEnv} (henv : env.Works) (req : RequestHeader) :
    let srv := serveAll lib (Server.started key storage coll) (pre ++ r :: post)
    let p := payload r.header r.incoming
    let asking (k : Int64) := { req with filename := r.header.filename, offset := k }
    let reply (k : Int64) := (handleDownload lib srv (asking k) r.client env).2
    (∀ k : Int64, 0 ≤ k.toInt ∧ k.toInt ≤ p.length →
      (reply k = .response .success p.length ::
        if k.toInt < p.length then [.payload (p.drop k.toInt.toNat)] else []) ∧
        ∀ a ∈ downloadAccesses lib srv (asking k) r.client env, a.Inside) ∧
      (∀ k : Int64, ¬ (0 ≤ k.toInt ∧ k.toInt ≤ p.length) →
        reply k = [.status .invalidOffset]) ∧
      ∀ j k : Int64, 0 ≤ j.toInt → j.toInt ≤ k.toInt →
        replyPayload (reply k) = (replyPayload (reply j)).drop (k.toInt - j.toInt).toNat := by
  intro srv p asking reply
  have hholds : Holds lib srv r.header.filename r.client p :=
    holds_of_run hlib hnew hstored hdisk hshort hothers halive
  have hreply : ∀ k, reply k = if invalidOffset k p.length then [.status .invalidOffset]
      else fileMessages p k := by
    intro k
    have hname : (asking k).filename = r.header.filename := rfl
    exact hholds.reply hlib hname henv
  have hvalid : ∀ k : Int64, invalidOffset k p.length = false ↔
      0 ≤ k.toInt ∧ k.toInt ≤ p.length := by
    intro k
    simp [invalidOffset]
  -- behind the end there is nothing left, as in a refusal
  have hpayload : ∀ k : Int64, 0 ≤ k.toInt → replyPayload (reply k) = p.drop k.toInt.toNat := by
    intro k hk
    rw [hreply]
    cases hinvalid : invalidOffset k p.length with
    | false =>
        exact replyPayload_fileMessages p k
    | true =>
        have hend : ¬ (0 ≤ k.toInt ∧ k.toInt ≤ p.length) := by
          rw [← hvalid, hinvalid]
          decide
        have hdrop : p.drop k.toInt.toNat = [] := List.drop_of_length_le (by omega)
        rw [hdrop]
        rfl
  have hlives : ∀ k, downloadCrashes lib srv (asking k) r.client env = false := by
    intro k
    have hname : (asking k).filename = r.header.filename := rfl
    exact hholds.downloadCrashes_eq hlib hname
  refine ⟨fun k hk => ⟨?_, downloadAccesses_inside hlib (hlives k)⟩, fun k hk => ?_, ?_⟩
  · rw [hreply, (hvalid k).2 hk]
    have hrest : (p.length : Int) - k.toInt > 0 ↔ k.toInt < p.length := by omega
    simp only [Bool.false_eq_true, if_false, fileMessages, hrest]
  · have hinvalid : invalidOffset k p.length = true := by
      rw [← Bool.not_eq_false, hvalid]
      exact hk
    rw [hreply, hinvalid]
    rfl
  · intro j k hj hjk
    rw [hpayload k (by omega), hpayload j hj, List.drop_drop]
    congr 1
    omega

end Reply

/-- Alice's file from its second byte on. -/
theorem download_second_byte :
    (handleDownload sampleLib afterAlice (downloadFrom (ascii "a") 1) (ascii "alice")
      (DownloadEnv.ok 0)).2 = [.response .success 2, .payload (ascii "i")] := by
  have hsome : (storedFile sampleLib (Server.started sampleKey OrderedMap.empty []).crypto
      aliceUpload).isSome = true := by decide
  rcases Option.isSome_iff_exists.1 hsome with ⟨file, hfile⟩
  have hothers : ∀ u ∈ ([] ++ [] : List Request),
      u.header.filename = aliceUpload.header.filename →
        u.opens sampleLib (Server.started sampleKey OrderedMap.empty []).crypto = none := by
    intro u hu
    cases hu
  have hslice := (download_fromOffset sampleLib_correct rfl hfile rfl (by decide) hothers
    (by decide) (DownloadEnv.works_ok 0) (downloadFrom (ascii "a") 1)).1 1 (by decide)
  exact hslice.1

end FileExchange
