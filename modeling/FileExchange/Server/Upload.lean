import FileExchange.Server.State
import FileExchange.Tls

/-!
# Server.Upload — `handle_upload_request`

* `uploadPrologue` : the part that touches neither the disk nor the database: checks, readiness
  reply, receiving, integrity check and encryption;
* `handleUpload`   : the whole handler;
* `openedFile`     : the encrypted file of an upload that gets as far as opening its target;
* `handleUpload_of_not_opened`, `handleUpload_of_opened` : what an upload changes.
-/

namespace FileExchange

open Lib

/-! ## Surroundings -/

/-- What an upload finds: whether the readiness reply is sent, allocations are granted,
`RAND_bytes` delivers, what the EVP library does, the file is written, the document is inserted. -/
structure UploadEnv where
  readySent : Bool
  plaintextAlloc : Bool
  ciphertextAlloc : Bool
  iv : Option Iv
  evp : EvpEnv
  stdio : StdioEnv
  insert : Bool
  event : AppendEnv
  deriving DecidableEq, Repr

/-- Surroundings in which nothing fails. -/
def UploadEnv.ok (iv : Iv) (now : Int) : UploadEnv :=
  { readySent := true
    plaintextAlloc := true
    ciphertextAlloc := true
    iv := some iv
    evp := EvpEnv.ok
    stdio := StdioEnv.ok
    insert := true
    event := AppendEnv.ok 0 now }

/-- What a handler leaves: the server, the blocks sent, and the records not yet read. -/
structure Handled where
  server : Server
  sent : List Message
  incoming : List Bytes
  deriving DecidableEq

/-! ## Before the disk -/

/-- `strstr(filename, "..") || strchr(filename, '/')`. -/
def unsafeName (filename : CString) : Bool :=
  strstr filename (ascii "..") || strchr filename slash

/-- A digit or a letter from `a` to `f`. -/
def isHexDigit (b : UInt8) : Bool :=
  (48 ≤ b && b ≤ 57) || (97 ≤ b && b ≤ 102)

/-- The status with which an upload is refused at once. -/
def uploadRefusal (crypto : FileCryptoCtx) (req : RequestHeader) : Option ResponseStatus :=
  if !crypto.initialized then some .error
  else if unsafeName req.filename then some .permissionDenied
  else if req.recipient = [] then none
  else if req.recipient.length ≠ fingerprintLen - 1 then some .permissionDenied
  else if (req.recipient.take 64).all isHexDigit then none
  else some .permissionDenied

/-- The file to be stored.  `hasBuffer` is false when `malloc` gave no block for the ciphertext,
which the handler does not check. -/
structure SealedFile where
  ciphertext : Bytes
  hasBuffer : Bool
  iv : Iv
  tag : Bytes
  deriving DecidableEq

/-- The replies of the first part, the encrypted file unless the handler has returned, and whether
the process has died instead. -/
structure Prologue where
  sent : List Message
  incoming : List Bytes
  file : Option SealedFile
  died : Bool := false
  deriving DecidableEq

def uploadPrologue (lib : CryptoLib) (crypto : FileCryptoCtx) (env : UploadEnv)
    (req : RequestHeader) (incoming : List Bytes) : Prologue :=
  match uploadRefusal crypto req with
  | some st => { sent := [.status st], incoming := incoming, file := none }
  | none =>
      let ready := Message.status .success
      let filesize := req.filesize.toInt
      -- the client is told to send before the buffer is allocated
      if !env.readySent then { sent := [], incoming := incoming, file := none }
      else if !malloc env.plaintextAlloc (toSizeT filesize) then
        { sent := [ready, .status .error], incoming := incoming, file := none }
      else
        match receiveFile filesize incoming with
        -- the connection ended within the file; nobody is left to be answered
        | none => { sent := [ready], incoming := [], file := none }
        | some (plaintext, rest) =>
            if lib.blake3 plaintext ≠ req.fileHash then
              { sent := [ready, .status .integrityError], incoming := rest, file := none }
            else
              match env.iv with
              | none => { sent := [ready, .status .error], incoming := rest, file := none }
              | some iv =>
                  -- the hash covers `filesize` bytes, the cipher gets the length as an `int`
                  match enhancedAesGcmEncrypt lib env.evp plaintext (toInt filesize) crypto.key
                      iv.val with
                  | .failed => { sent := [ready, .status .error], incoming := rest, file := none }
                  | .died => { sent := [ready], incoming := rest, file := none, died := true }
                  | .done (ciphertext, tag) =>
                      { sent := [ready]
                        incoming := rest
                        file := some
                          { ciphertext := ciphertext
                            hasBuffer :=
                              malloc env.ciphertextAlloc (toSizeT (toInt64 (filesize + 16)))
                            iv := iv
                            tag := tag } }

/-! ## The handler -/

namespace SealedFile

/-- There are bytes to write, but no block for them. -/
def lacksBuffer (file : SealedFile) : Bool :=
  !file.hasBuffer && decide (file.ciphertext ≠ [])

/-- `fwrite` reads from the null pointer. -/
def crashes (file : SealedFile) (env : StdioEnv) : Bool :=
  file.lacksBuffer && env.nullFaults

/-- The result of `fwrite`. -/
def written (file : SealedFile) (env : StdioEnv) : Nat :=
  if file.lacksBuffer then 0 else env.written file.ciphertext.length

/-- The document of the file. -/
def document (file : SealedFile) (req : RequestHeader) (client : CString) : Document :=
  uploadDocument req.filename req.filesize file.iv file.tag client

/-- The number of bytes in the file after `fclose`. -/
def delivered (file : SealedFile) (env : StdioEnv) : Nat :=
  if file.lacksBuffer then 0 else env.delivered file.ciphertext.length

/-- What the file contains after `fclose`, or when the process has died. -/
def leftBytes (file : SealedFile) (env : StdioEnv) : Bytes :=
  file.ciphertext.take (file.delivered env)

end SealedFile

/-- `mongoc_collection_insert_one` of the document.  Recipient, publicity and time are appended
to it only afterwards, when it is inserted and destroyed. -/
def insertUpload (env : UploadEnv) (coll : Collection) (file : SealedFile) (req : RequestHeader)
    (client : CString) : Option Collection :=
  if !env.insert then none
  else
    match coll.insertOne (file.document req client) with
    | .ok coll' => some coll'
    | .error _ => none

def handleUpload (lib : CryptoLib) (srv : Server) (req : RequestHeader) (client : CString)
    (env : UploadEnv) (incoming : List Bytes) : Handled :=
  let pro := uploadPrologue lib srv.crypto env req incoming
  match pro.file with
  | none =>
      { server := { srv with alive := srv.alive && !pro.died }
        sent := pro.sent
        incoming := pro.incoming }
  | some file =>
      let path := storagePath req.filename
      match fopenWb env.stdio.opened srv.storage path with
      | none =>
          { server := srv, sent := pro.sent ++ [.status .error], incoming := pro.incoming }
      -- from here on the old file is gone
      | some opening =>
          -- `ciphertext` may be a null pointer
          if file.crashes env.stdio then
            { server := { srv with storage := opening, alive := false }
              sent := pro.sent
              incoming := pro.incoming }
          else
            let stored :=
              { srv with storage := opening.set path (file.leftBytes env.stdio) }
            -- only the result of `fwrite` is checked, not that of `fclose`
            if file.written env.stdio ≠ file.ciphertext.length then
              { server := stored, sent := pro.sent ++ [.status .error], incoming := pro.incoming }
            else
              match insertUpload env srv.collection file req client with
              | none =>
                  { server := stored
                    sent := pro.sent ++ [.status .error]
                    incoming := pro.incoming }
              | some coll =>
                  let event :=
                    appendProcEvent env.event coll path (ascii "upload") (ascii "success")
                  { server := { stored with collection := event.1 }
                    sent := pro.sent ++ [.status .success]
                    incoming := pro.incoming }

/-! ## What the first part delivers -/

/-- The bytes that an upload takes as its file. -/
def payload (req : RequestHeader) (incoming : List Bytes) : Bytes :=
  incoming.flatten.take req.filesize.toInt.toNat

theorem slash_not_mem_of_safe {filename : CString} (h : unsafeName filename = false) :
    slash ∉ filename := by
  simp only [unsafeName, strchr, Bool.or_eq_false_iff, decide_eq_false_iff_not] at h
  exact h.2

theorem safe_of_not_refused {crypto : FileCryptoCtx} {req : RequestHeader}
    (h : uploadRefusal crypto req = none) : unsafeName req.filename = false := by
  cases hsafe : unsafeName req.filename with
  | false =>
      rfl
  | true =>
      cases hinit : crypto.initialized <;> simp [uploadRefusal, hsafe, hinit] at h

theorem malloc_toSizeT_nonneg {granted : Bool} {n : Int64}
    (h : malloc granted (toSizeT n.toInt) = true) : 0 ≤ n.toInt := by
  have hle := Int64.le_toInt n
  simp only [malloc, Bool.and_eq_true, decide_eq_true_eq] at h
  have hsize := h.2
  unfold toSizeT ptrdiffMax at hsize
  by_contra hneg
  -- a negative size becomes one of 2^63 or more, which is never granted
  have hmod : n.toInt % 2 ^ 64 = n.toInt + 2 ^ 64 := by
    rw [← Int.add_emod_right, Int.emod_eq_of_lt (by omega) (by omega)]
  omega

/-- Every check and step before the encryption succeeds, but for the nonce, and the EVP library
works.  This is about the request and what its handler finds. -/
structure UploadReaches (lib : CryptoLib) (crypto : FileCryptoCtx) (env : UploadEnv)
    (req : RequestHeader) (incoming : List Bytes) : Prop where
  accepted : uploadRefusal crypto req = none
  ready : env.readySent = true
  alloc : malloc env.plaintextAlloc (toSizeT req.filesize.toInt) = true
  received : req.filesize.toInt.toNat ≤ incoming.flatten.length
  hash : lib.blake3 (payload req incoming) = req.fileHash
  evp : env.evp.works = true

/-- And the cipher gets a length that is not negative. -/
structure UploadPasses (lib : CryptoLib) (crypto : FileCryptoCtx) (env : UploadEnv)
    (req : RequestHeader) (incoming : List Bytes) : Prop
    extends UploadReaches lib crypto env req incoming where
  positive : 0 ≤ toInt req.filesize.toInt

/-- The upload ends in the cipher, which takes its length for a huge one. -/
structure UploadOverruns (lib : CryptoLib) (crypto : FileCryptoCtx) (env : UploadEnv)
    (req : RequestHeader) (incoming : List Bytes) : Prop
    extends UploadReaches lib crypto env req incoming where
  iv : env.iv.isSome = true
  negative : toInt req.filesize.toInt < 0
  unchecked : env.evp.refusesNegative = false

/-- The encrypted file that an upload makes of its payload with the nonce `iv`. -/
def sealedFile (lib : CryptoLib) (key : Bytes) (env : UploadEnv) (req : RequestHeader)
    (incoming : List Bytes) (iv : Iv) : SealedFile :=
  let sealed :=
    lib.encrypt key iv.val ((payload req incoming).take (toInt req.filesize.toInt).toNat)
  { ciphertext := sealed.1
    hasBuffer := malloc env.ciphertextAlloc (toSizeT (toInt64 (req.filesize.toInt + 16)))
    iv := iv
    tag := sealed.2 }

section Prologue

variable {lib : CryptoLib} {crypto : FileCryptoCtx} {env : UploadEnv} {req : RequestHeader}
  {incoming : List Bytes} {file : SealedFile}

theorem UploadReaches.nonneg (h : UploadReaches lib crypto env req incoming) :
    0 ≤ req.filesize.toInt :=
  malloc_toSizeT_nonneg h.alloc

/-- Its payload arrives. -/
theorem UploadReaches.exists_receiveFile (h : UploadReaches lib crypto env req incoming) :
    ∃ rest, receiveFile req.filesize.toInt incoming = some (payload req incoming, rest) := by
  rcases Option.isSome_iff_exists.1 (receiveFile_isSome_iff.2 h.received) with
    ⟨⟨plaintext, rest⟩, hrecv⟩
  have hpay : plaintext = payload req incoming := (receiveFile_eq_some hrecv).1
  exact ⟨rest, hpay ▸ hrecv⟩

/-- Then the first part delivers that file. -/
theorem UploadPasses.file_eq (h : UploadPasses lib crypto env req incoming) {iv : Iv}
    (hiv : env.iv = some iv) :
    (uploadPrologue lib crypto env req incoming).file =
      some (sealedFile lib crypto.key env req incoming iv) := by
  obtain ⟨rest, hrecv⟩ := h.exists_receiveFile
  have henc := enhancedAesGcmEncrypt_of_nonneg lib h.evp (payload req incoming) crypto.key iv.val
    h.positive
  simp [uploadPrologue, h.accepted, h.ready, h.alloc, hrecv, h.hash, hiv, henc, sealedFile]

/-- An upload comes to the cipher with the nonce `iv`; `rest` is what arrives behind its payload. -/
structure UploadSeals (lib : CryptoLib) (crypto : FileCryptoCtx) (env : UploadEnv)
    (req : RequestHeader) (incoming : List Bytes) (iv : Iv) (rest : List Bytes) : Prop where
  accepted : uploadRefusal crypto req = none
  ready : env.readySent = true
  alloc : malloc env.plaintextAlloc (toSizeT req.filesize.toInt) = true
  receives : receiveFile req.filesize.toInt incoming = some (payload req incoming, rest)
  hash : lib.blake3 (payload req incoming) = req.fileHash
  nonce : env.iv = some iv

/-- How the first part ends after the cipher. -/
def Prologue.ofCipher (env : UploadEnv) (req : RequestHeader) (iv : Iv) (rest : List Bytes) :
    EvpResult (Bytes × Bytes) → Prologue
  | .failed => { sent := [.status .success, .status .error], incoming := rest, file := none }
  | .died => { sent := [.status .success], incoming := rest, file := none, died := true }
  | .done (ciphertext, tag) =>
      { sent := [.status .success]
        incoming := rest
        file := some
          { ciphertext := ciphertext
            hasBuffer := malloc env.ciphertextAlloc (toSizeT (toInt64 (req.filesize.toInt + 16)))
            iv := iv
            tag := tag } }

/-- No exit before the cipher delivers a file, ends the process or reports success. -/
theorem uploadPrologue_cases (lib : CryptoLib) (crypto : FileCryptoCtx) (env : UploadEnv)
    (req : RequestHeader) (incoming : List Bytes) :
    ((uploadPrologue lib crypto env req incoming).file = none ∧
      (uploadPrologue lib crypto env req incoming).died = false ∧
      (uploadPrologue lib crypto env req incoming).sent ≠
        [.status .success, .status .success]) ∨
      ∃ iv rest, UploadSeals lib crypto env req incoming iv rest ∧
        uploadPrologue lib crypto env req incoming =
          .ofCipher env req iv rest (enhancedAesGcmEncrypt lib env.evp (payload req incoming)
            (toInt req.filesize.toInt) crypto.key iv.val) := by
  cases href : uploadRefusal crypto req with
  | some st =>
      left
      simp [uploadPrologue, href]
  | none =>
      by_cases hready : env.readySent = true
      swap
      · left
        simp [uploadPrologue, href, hready]
      by_cases halloc : malloc env.plaintextAlloc (toSizeT req.filesize.toInt) = true
      swap
      · left
        simp [uploadPrologue, href, hready, halloc, Message.status]
      cases hrecv : receiveFile req.filesize.toInt incoming with
      | none =>
          left
          simp [uploadPrologue, href, hready, halloc, hrecv]
      | some r =>
          rcases r with ⟨plaintext, rest⟩
          obtain rfl : plaintext = payload req incoming := (receiveFile_eq_some hrecv).1
          by_cases hhash : lib.blake3 (payload req incoming) = req.fileHash
          swap
          · left
            simp [uploadPrologue, href, hready, halloc, hrecv, hhash, Message.status,
              ResponseStatus.integrityError]
          cases hiv : env.iv with
          | none =>
              left
              simp [uploadPrologue, href, hready, halloc, hrecv, hhash, hiv, Message.status]
          | some iv =>
              right
              refine ⟨iv, rest, ⟨href, hready, halloc, hrecv, hhash, hiv⟩, ?_⟩
              simp only [uploadPrologue, href, hready, halloc, hrecv, hhash, hiv, Bool.not_true,
                Bool.false_eq_true, if_false, ne_eq, not_true_eq_false]
              cases enhancedAesGcmEncrypt lib env.evp (payload req incoming)
                (toInt req.filesize.toInt) crypto.key iv.val <;> rfl

/-- The process dies in the first part exactly when the cipher runs beyond the buffers. -/
theorem uploadPrologue_died_iff :
    (uploadPrologue lib crypto env req incoming).died = true ↔
      UploadOverruns lib crypto env req incoming := by
  constructor
  · intro h
    rcases uploadPrologue_cases lib crypto env req incoming with
      ⟨_, hlives, _⟩ | ⟨iv, rest, hseals, hends⟩
    · rw [hlives] at h
      cases h
    · rw [hends] at h
      cases henc : enhancedAesGcmEncrypt lib env.evp (payload req incoming)
          (toInt req.filesize.toInt) crypto.key iv.val with
      | failed =>
          rw [henc] at h
          cases h
      | done sealed =>
          rw [henc] at h
          cases h
      | died =>
          obtain ⟨hevp, hneg, hunchecked⟩ := enhancedAesGcmEncrypt_eq_died_iff.1 henc
          exact
            { accepted := hseals.accepted
              ready := hseals.ready
              alloc := hseals.alloc
              received := receiveFile_isSome_iff.1 (by simp [hseals.receives])
              hash := hseals.hash
              evp := hevp
              iv := by simp [hseals.nonce]
              negative := hneg
              unchecked := hunchecked }
  · intro h
    obtain ⟨rest, hrecv⟩ := h.exists_receiveFile
    rcases Option.isSome_iff_exists.1 h.iv with ⟨iv, hiv⟩
    have henc : enhancedAesGcmEncrypt lib env.evp (payload req incoming)
        (toInt req.filesize.toInt) crypto.key iv.val = .died :=
      enhancedAesGcmEncrypt_eq_died_iff.2 ⟨h.evp, h.negative, h.unchecked⟩
    simp [uploadPrologue, h.accepted, h.ready, h.alloc, hrecv, h.hash, hiv, henc]

/-- Everything that holds when the first part delivers an encrypted file. -/
structure Prologue.Delivers (lib : CryptoLib) (crypto : FileCryptoCtx) (env : UploadEnv)
    (req : RequestHeader) (incoming : List Bytes) (file : SealedFile) : Prop
    extends UploadPasses lib crypto env req incoming where
  encrypted : (file.ciphertext, file.tag) =
    lib.encrypt crypto.key file.iv.val
      ((payload req incoming).take (toInt req.filesize.toInt).toNat)
  buffer : file.hasBuffer =
    malloc env.ciphertextAlloc (toSizeT (toInt64 (req.filesize.toInt + 16)))
  iv : env.iv = some file.iv
  sent : (uploadPrologue lib crypto env req incoming).sent = [.status .success]
  rest : (uploadPrologue lib crypto env req incoming).incoming.flatten =
    incoming.flatten.drop req.filesize.toInt.toNat

theorem uploadPrologue_delivers
    (h : (uploadPrologue lib crypto env req incoming).file = some file) :
    Prologue.Delivers lib crypto env req incoming file := by
  rcases uploadPrologue_cases lib crypto env req incoming with
    ⟨hnone, _⟩ | ⟨iv, rest, hseals, hends⟩
  · rw [hnone] at h
    cases h
  · cases henc : enhancedAesGcmEncrypt lib env.evp (payload req incoming)
        (toInt req.filesize.toInt) crypto.key iv.val with
    | failed =>
        rw [hends, henc] at h
        cases h
    | died =>
        rw [hends, henc] at h
        cases h
    | done sealed =>
        rw [henc] at hends
        rw [hends] at h
        cases h
        rcases enhancedAesGcmEncrypt_eq_done henc with ⟨hevp, hpos, heq⟩
        exact
          { accepted := hseals.accepted
            ready := hseals.ready
            alloc := hseals.alloc
            received := receiveFile_isSome_iff.1 (by simp [hseals.receives])
            hash := hseals.hash
            evp := hevp
            positive := hpos
            encrypted := heq
            buffer := rfl
            iv := hseals.nonce
            sent := by rw [hends, Prologue.ofCipher]
            rest := by
              rw [hends]
              exact (receiveFile_eq_some hseals.receives).2.1 }

theorem Prologue.Delivers.eq_sealedFile
    (h : Prologue.Delivers lib crypto env req incoming file) :
    file = sealedFile lib crypto.key env req incoming file.iv := by
  cases file
  have hencrypted := Prod.mk.inj h.encrypted
  have hbuffer := h.buffer
  simp only at hencrypted hbuffer
  rw [hencrypted.1, hencrypted.2, hbuffer]
  rfl

theorem Prologue.Delivers.length_payload (h : Prologue.Delivers lib crypto env req incoming file) :
    (payload req incoming).length = req.filesize.toInt.toNat := by
  rw [payload, List.length_take]
  exact Nat.min_eq_left h.received

theorem Prologue.Delivers.length_tag (hlib : lib.Correct)
    (h : Prologue.Delivers lib crypto env req incoming file) : file.tag.length = 16 := by
  rw [(Prod.mk.inj h.encrypted).2, hlib.length_tag]

/-- The ciphertext has the length of the file converted to `int`. -/
theorem Prologue.Delivers.length_ciphertext (hlib : lib.Correct)
    (h : Prologue.Delivers lib crypto env req incoming file) :
    file.ciphertext.length = (toInt req.filesize.toInt).toNat := by
  have hle := toInt_le h.nonneg
  rw [(Prod.mk.inj h.encrypted).1, hlib.length_ciphertext, List.length_take, h.length_payload]
  omega

theorem Prologue.Delivers.length_ciphertext_lt (hlib : lib.Correct)
    (h : Prologue.Delivers lib crypto env req incoming file) : file.ciphertext.length < 2 ^ 31 := by
  have hct := h.length_ciphertext hlib
  have hlt := toInt_lt req.filesize.toInt
  omega

/-- Without a file the replies end the request, and they do not report success. -/
theorem uploadPrologue_sent_ne (h : (uploadPrologue lib crypto env req incoming).file = none) :
    (uploadPrologue lib crypto env req incoming).sent ≠
      [.status .success, .status .success] := by
  rcases uploadPrologue_cases lib crypto env req incoming with
    ⟨_, _, hsent⟩ | ⟨iv, rest, _, hends⟩
  · exact hsent
  · rw [hends] at h ⊢
    cases henc : enhancedAesGcmEncrypt lib env.evp (payload req incoming)
        (toInt req.filesize.toInt) crypto.key iv.val with
    | failed => simp [Prologue.ofCipher, Message.status]
    | died => simp [Prologue.ofCipher]
    | done sealed =>
        rw [henc] at h
        cases h

end Prologue

/-! ## What an upload changes -/

section Effect

variable {lib : CryptoLib} {srv : Server} {req : RequestHeader} {client : CString}
  {env : UploadEnv} {incoming : List Bytes} {file : SealedFile}

/-- What an upload leaves is as long as its ciphertext at most. -/
theorem SealedFile.length_leftBytes_le (file : SealedFile) (env : StdioEnv) :
    (file.leftBytes env).length ≤ file.ciphertext.length :=
  List.length_take_le' _ _

theorem SealedFile.delivered_le (file : SealedFile) (env : StdioEnv) :
    file.delivered env ≤ file.ciphertext.length := by
  unfold SealedFile.delivered
  split
  · exact Nat.zero_le _
  · exact env.delivered_le _

/-- The encrypted file of an upload that opens its target. -/
def openedFile (lib : CryptoLib) (crypto : FileCryptoCtx) (env : UploadEnv) (req : RequestHeader)
    (incoming : List Bytes) : Option SealedFile :=
  if env.stdio.opened && openable (storagePath req.filename) then
    (uploadPrologue lib crypto env req incoming).file
  else none

/-- An upload that opens its target and writes, inserts and acknowledges the file. -/
def SealedFile.isStored (file : SealedFile) (env : UploadEnv) : Bool :=
  !file.lacksBuffer &&
    decide (env.stdio.written file.ciphertext.length = file.ciphertext.length) && env.insert

theorem SealedFile.crashes_of_buffer {file : SealedFile} (h : file.lacksBuffer = false)
    (env : StdioEnv) : file.crashes env = false := by
  rw [SealedFile.crashes, h, Bool.false_and]

theorem SealedFile.lacksBuffer_of_isStored {file : SealedFile} {env : UploadEnv}
    (h : file.isStored env = true) : file.lacksBuffer = false := by
  simp only [SealedFile.isStored, Bool.and_eq_true, Bool.not_eq_true'] at h
  exact h.1.1

/-- Without a buffer `fwrite` falls short. -/
theorem SealedFile.written_ne_of_lacksBuffer {file : SealedFile} (h : file.lacksBuffer = true)
    (env : StdioEnv) : file.written env ≠ file.ciphertext.length := by
  have hbytes := h
  simp only [SealedFile.lacksBuffer, Bool.and_eq_true, decide_eq_true_eq] at hbytes
  rw [SealedFile.written, h]
  exact (List.length_pos_of_ne_nil hbytes.2).ne

theorem SealedFile.delivered_of_buffer {file : SealedFile} (h : file.lacksBuffer = false)
    (env : StdioEnv) : file.delivered env = env.delivered file.ciphertext.length := by
  rw [SealedFile.delivered, h]
  rfl

theorem insertUpload_eq (env : UploadEnv) (coll : Collection) (file : SealedFile)
    (req : RequestHeader) (client : CString) :
    insertUpload env coll file req client =
      if env.insert then some (coll ++ [file.document req client]) else none := by
  have hid : (file.document req client).get? .id = none := by
    simp [SealedFile.document, uploadDocument, OrderedMap.get?]
  cases hins : env.insert with
  | false =>
      simp [insertUpload, hins]
  | true =>
      simp [insertUpload, hins, Collection.insertOne, hid]

theorem delivers_of_openedFile (h : openedFile lib srv.crypto env req incoming = some file) :
    Prologue.Delivers lib srv.crypto env req incoming file := by
  unfold openedFile at h
  split at h
  · exact uploadPrologue_delivers h
  · cases h

/-- The file that an upload opens its target for, by what the upload finds. -/
theorem openedFile_eq_some_iff :
    openedFile lib srv.crypto env req incoming = some file ↔
      (env.stdio.opened = true ∧ openable (storagePath req.filename) = true) ∧
        UploadPasses lib srv.crypto env req incoming ∧
          ∃ iv, env.iv = some iv ∧ file = sealedFile lib srv.crypto.key env req incoming iv := by
  constructor
  · intro h
    have hdel := delivers_of_openedFile h
    have hopen : (env.stdio.opened && openable (storagePath req.filename)) = true := by
      by_contra hopen
      simp [openedFile, hopen] at h
    exact ⟨Bool.and_eq_true_iff.1 hopen, hdel.toUploadPasses, file.iv, hdel.iv,
      hdel.eq_sealedFile⟩
  · rintro ⟨hopen, hpasses, iv, hiv, rfl⟩
    simp [openedFile, hopen.1, hopen.2, hpasses.file_eq hiv]

/-- A process that has delivered a file lives. -/
theorem uploadPrologue_died_of_file {crypto : FileCryptoCtx}
    (h : (uploadPrologue lib crypto env req incoming).file = some file) :
    (uploadPrologue lib crypto env req incoming).died = false := by
  have hdel := uploadPrologue_delivers h
  refine Bool.eq_false_iff.2 fun hdied => ?_
  have hneg := (uploadPrologue_died_iff.1 hdied).negative
  have hpos := hdel.positive
  omega

/-- An upload that does not open its target does not report success, and it changes nothing, unless
it ends the process. -/
theorem handleUpload_of_not_opened (client : CString)
    (h : openedFile lib srv.crypto env req incoming = none) :
    (handleUpload lib srv req client env incoming).server =
        { srv with
          alive := srv.alive && !(uploadPrologue lib srv.crypto env req incoming).died } ∧
      (handleUpload lib srv req client env incoming).sent ≠
        [.status .success, .status .success] := by
  -- the handler returned before `fopen`, or `fopen` failed
  cases hfile : (uploadPrologue lib srv.crypto env req incoming).file with
  | none =>
      simp only [handleUpload, hfile, true_and]
      exact uploadPrologue_sent_ne hfile
  | some file =>
      have hsent := (uploadPrologue_delivers hfile).sent
      have hdied := uploadPrologue_died_of_file hfile
      have hclosed : ¬ (env.stdio.opened && openable (storagePath req.filename)) = true := by
        intro hopen
        simp [openedFile, hopen, hfile] at h
      simp [handleUpload, hfile, hdied, fopenWb, hclosed, hsent, Message.status]

/-- What an upload that opens its target leaves. -/
theorem handleUpload_of_opened (client : CString)
    (h : openedFile lib srv.crypto env req incoming = some file) :
    let r := handleUpload lib srv req client env incoming
    r.server.crypto = srv.crypto ∧
      r.server.storage = srv.storage.set (storagePath req.filename) (file.leftBytes env.stdio) ∧
      r.server.alive = (srv.alive && !file.crashes env.stdio) ∧
      r.server.collection =
        (if file.isStored env then
          (appendProcEvent env.event (srv.collection ++ [file.document req client])
            (storagePath req.filename) (ascii "upload") (ascii "success")).1
        else srv.collection) ∧
      (r.sent = [.status .success, .status .success] ↔ file.isStored env = true) := by
  have hsent := (delivers_of_openedFile h).sent
  have hopen : (env.stdio.opened && openable (storagePath req.filename)) = true := by
    by_contra hopen
    simp [openedFile, hopen] at h
  have hfile : (uploadPrologue lib srv.crypto env req incoming).file = some file := by
    simpa [openedFile, hopen] using h
  simp only [handleUpload, hfile, fopenWb, hopen, if_true, hsent]
  -- after `fopen`: no buffer, the short write, the failed insert, the success
  cases hlacks : file.lacksBuffer with
  | true =>
      have hshort := SealedFile.written_ne_of_lacksBuffer hlacks env.stdio
      cases hfaults : env.stdio.nullFaults <;>
        simp [SealedFile.leftBytes, SealedFile.isStored, SealedFile.crashes, SealedFile.delivered,
          hlacks, hfaults, hshort, OrderedMap.set_set_self, Message.status]
  | false =>
      by_cases hwritten : env.stdio.written file.ciphertext.length = file.ciphertext.length
      · cases hins : env.insert with
        | false =>
            simp [SealedFile.leftBytes, SealedFile.isStored, SealedFile.crashes,
              SealedFile.written, SealedFile.delivered, hlacks, hwritten, insertUpload_eq, hins,
              OrderedMap.set_set_self, Message.status]
        | true =>
            simp [SealedFile.leftBytes, SealedFile.isStored, SealedFile.crashes,
              SealedFile.written, SealedFile.delivered, hlacks, hwritten, insertUpload_eq, hins,
              OrderedMap.set_set_self, Message.status]
      · simp [SealedFile.leftBytes, SealedFile.isStored, SealedFile.crashes, SealedFile.written,
          SealedFile.delivered, hlacks, hwritten, OrderedMap.set_set_self, Message.status]

/-- The two replies of a complete upload. -/
theorem handleUpload_success_iff :
    (handleUpload lib srv req client env incoming).sent =
        [.status .success, .status .success] ↔
      ∃ file, openedFile lib srv.crypto env req incoming = some file ∧
        file.isStored env = true := by
  cases hfile : openedFile lib srv.crypto env req incoming with
  | none =>
      simpa using (handleUpload_of_not_opened client hfile).2
  | some file =>
      simpa using (handleUpload_of_opened client hfile).2.2.2.2

end Effect

end FileExchange
