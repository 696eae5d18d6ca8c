import FileExchange.Server.Upload

/-!
# Server.Acknowledged — what an acknowledged upload has stored

`handle_upload_request` acknowledges a file after `fwrite` accepted the ciphertext and the
document was inserted.  Two things can still be missing: the ciphertext has the length of the
file converted to `int`, and `fclose` may fail to deliver what `fwrite` accepted.

* `CompletelyStored` : file and document together give back the received bytes;
* `acknowledged_completelyStored_iff` : when an acknowledged upload is completely stored.
-/

namespace FileExchange

open Lib

variable {lib : CryptoLib} {srv : Server} {req : RequestHeader} {client : CString}
  {env : UploadEnv} {incoming : List Bytes}

/-- The file on disk, decrypted with the nonce and tag of `d`, is the payload, which has the
announced length and hash, and `d` carries this length. -/
def CompletelyStored (lib : CryptoLib) (after : Server) (req : RequestHeader)
    (incoming : List Bytes) (d : Document) : Prop :=
  (∃ bytes iv tag, after.storage.get? (storagePath req.filename) = some bytes ∧
      d.binary? .iv = some iv ∧ d.binary? .tag = some tag ∧
      lib.decrypt after.crypto.key iv tag bytes = some (payload req incoming)) ∧
    ((payload req incoming).length : Int) = req.filesize.toInt ∧
    lib.blake3 (payload req incoming) = req.fileHash ∧
    d.get? .size = some (.int64 (payload req incoming).length)

/-- The document that an upload inserts comes right after those that were there before. -/
def insertedDocument? (before after : Server) : Option Document :=
  after.collection[before.collection.length]?

/-- Events do not change the place of a document nor its fields. -/
theorem exists_getElem?_appendProcEvent (event : AppendEnv) (coll : Collection) (d : Document)
    (fileId changeType status : CString) :
    ∃ d', (appendProcEvent event (coll ++ [d]) fileId changeType status).1[coll.length]? =
        some d' ∧ d'.withoutProc = d.withoutProc := by
  rcases withoutEvents_appendProcEvent event (coll ++ [d]) fileId changeType status with
    ⟨base, hbase, _⟩
  have hget : (withoutEvents (appendProcEvent event (coll ++ [d]) fileId changeType
      status).1)[coll.length]? = some d.withoutProc := by
    rw [hbase]
    simp [withoutEvents]
  rw [withoutEvents, List.getElem?_map] at hget
  exact Option.map_eq_some_iff.1 hget

/-- An acknowledged upload is completely stored if and only if its length fits an `int` and
`fclose` delivered every byte. -/
theorem acknowledged_completelyStored_iff (hlib : lib.Correct)
    (hack : (handleUpload lib srv req client env incoming).sent =
      [.status .success, .status .success]) :
    (∃ d, insertedDocument? srv (handleUpload lib srv req client env incoming).server = some d ∧
        CompletelyStored lib (handleUpload lib srv req client env incoming).server req incoming
          d) ↔
      req.filesize.toInt < 2 ^ 31 ∧
        env.stdio.delivered req.filesize.toInt.toNat = req.filesize.toInt.toNat := by
  rcases handleUpload_success_iff.1 hack with ⟨file, hopen, hstored⟩
  have hfile := delivers_of_openedFile hopen
  rcases handleUpload_of_opened client hopen with ⟨hcrypto, hstorage, _, hcoll, _⟩
  -- the acknowledgement excludes the missing buffer, the short write and the failed insert
  have hbuffer := SealedFile.lacksBuffer_of_isStored hstored
  have hct := hfile.length_ciphertext hlib
  have hpay := hfile.length_payload
  have hleft : file.leftBytes env.stdio =
      file.ciphertext.take (env.stdio.delivered file.ciphertext.length) := by
    rw [SealedFile.leftBytes, SealedFile.delivered_of_buffer hbuffer]
  have hbytes : (handleUpload lib srv req client env incoming).server.storage.get?
      (storagePath req.filename) = some (file.leftBytes env.stdio) := by
    rw [hstorage, OrderedMap.get?_set_self]
  obtain ⟨d, hd, hsame⟩ := exists_getElem?_appendProcEvent env.event srv.collection
    (file.document req client) (storagePath req.filename) (ascii "upload") (ascii "success")
  have hins : insertedDocument? srv (handleUpload lib srv req client env incoming).server =
      some d := by
    rw [insertedDocument?, hcoll, if_pos hstored]
    exact hd
  -- the event of the upload has not changed nonce, tag and size
  have hiv : d.binary? .iv = some file.iv.val := by
    rw [Document.binary?_congr hsame (by decide), SealedFile.document, binary?_iv_uploadDocument]
  have htag : d.binary? .tag = some file.tag := by
    rw [Document.binary?_congr hsame (by decide), SealedFile.document, binary?_tag_uploadDocument]
  have hsize : d.get? .size = some (.int64 req.filesize.toInt) := by
    rw [Document.get?_congr hsame (by decide), SealedFile.document, get?_size_uploadDocument]
  have hnonneg := hfile.nonneg
  have hdeliv := env.stdio.delivered_le file.ciphertext.length
  constructor
  · rintro ⟨_, _, ⟨bytes, iv, tag, hbytes', _, _, hdec⟩, _⟩
    cases hbytes.symm.trans hbytes'
    -- decryption keeps the length, so the file on disk is as long as the payload
    have hlen := hlib.length_plaintext _ _ _ _ _ hdec
    rw [hpay, hleft, List.length_take, Nat.min_eq_left hdeliv] at hlen
    have hlt : toInt req.filesize.toInt < 2 ^ 31 := toInt_lt _
    have hle : toInt req.filesize.toInt ≤ req.filesize.toInt := toInt_le hnonneg
    have hsmall : req.filesize.toInt < 2 ^ 31 := by omega
    rw [hct, toInt_of_lt hnonneg hsmall] at hlen
    exact ⟨hsmall, hlen.symm⟩
  · rintro ⟨hsmall, hall⟩
    -- the cipher was given the whole file, and the disk has the whole ciphertext
    rw [toInt_of_lt hnonneg hsmall] at hct
    have henc := hfile.encrypted
    rw [toInt_of_lt hnonneg hsmall, List.take_of_length_le hpay.le] at henc
    refine ⟨d, hins, ⟨_, file.iv.val, file.tag, hbytes, hiv, htag, ?_⟩, ?_, hfile.hash, ?_⟩
    · have hwhole : file.leftBytes env.stdio = file.ciphertext := by
        rw [hleft, hct, hall, ← hct, List.take_length]
      rw [hwhole, hcrypto, (Prod.mk.inj henc).1, (Prod.mk.inj henc).2, hlib.decrypt_encrypt]
    · rw [hpay]
      omega
    · rw [hsize, hpay, Int.toNat_of_nonneg hnonneg]

/-- Two bytes on a server whose disk works. -/
theorem acknowledged_completelyStored_hi :
    let srv := Server.started sampleKey OrderedMap.empty []
    let req := RequestHeader.announcing (ascii "a") (ascii "hi") (sampleHash (ascii "hi")) []
    let after := (handleUpload sampleLib srv req (ascii "alice") (UploadEnv.ok sampleIv 7)
      [ascii "hi"]).server
    ∃ d, insertedDocument? srv after = some d ∧
      CompletelyStored sampleLib after req [ascii "hi"] d :=
  (acknowledged_completelyStored_iff sampleLib_correct (by decide)).2 (by decide)

/-- `fwrite` buffers the two bytes and `fclose` cannot write them: the upload is acknowledged
and the file is empty. -/
theorem acknowledged_but_not_flushed :
    let srv := Server.started sampleKey OrderedMap.empty []
    let req := RequestHeader.announcing (ascii "a") (ascii "hi") (sampleHash (ascii "hi")) []
    let env := { UploadEnv.ok sampleIv 7 with stdio := { StdioEnv.ok with flushLimit := some 0 } }
    let r := handleUpload sampleLib srv req (ascii "alice") env [ascii "hi"]
    r.sent = [.status .success, .status .success] ∧
      r.server.storage.get? (storagePath (ascii "a")) = some [] ∧
      ¬ ∃ d, insertedDocument? srv r.server = some d ∧
        CompletelyStored sampleLib r.server req [ascii "hi"] d := by
  refine ⟨by decide, by decide, ?_⟩
  rintro ⟨d, _, ⟨bytes, iv, tag, hbytes, _, _, hdec⟩, _⟩
  have hempty : bytes = [] := by
    refine (Option.some.inj (hbytes.symm.trans ?_))
    decide
  subst hempty
  have hlen := sampleLib_correct.length_plaintext _ _ _ _ _ hdec
  exact absurd hlen (by decide)

end FileExchange
