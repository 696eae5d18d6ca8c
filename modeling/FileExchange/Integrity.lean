import FileExchange.Blake3.Hasher
import FileExchange.Client.Header
import FileExchange.Server.Upload

/-!
# Integrity — the hash that goes with an upload

The client hashes a file as `fread` cuts it, the server hashes the buffer that it has received at
once, and the two run on different processors.

* `computeFileBlake3`, `computeBufferBlake3` : the functions of `client.c` and `server.c`;
* `blake3Hash`  : the hash of the tree over the chunks of a content;
* `withBlake3`  : a library whose hash is the one that the server computes.

The check of the server passes if and only if what arrived has the hash of what the client read
(`integrity_check_iff`).
-/

namespace FileExchange

open Blake3

/-! ## The two functions -/

/-- The first 32 bytes of the output for the tree over a content. -/
def blake3Hash (content : Bytes) : Bytes :=
  (rootStream (rootNode iv 0 content)).take 32

@[simp] theorem length_blake3Hash (content : Bytes) : (blake3Hash content).length = 32 :=
  Stream'.length_take _ _

def computeBufferBlake3 (P : Platform) (data : Bytes) : Option Bytes :=
  (hasherUpdate P hasherInit data).map fun hasher => hasherFinalize P hasher 32

/-- What a call of `fread` with a buffer of 4096 bytes gives, until it gives nothing. -/
abbrev Chunk := { chunk : Bytes // chunk ≠ [] ∧ chunk.length ≤ 4096 }

/-- What `compute_file_blake3` finds: whether `fopen` succeeds, what the calls of `fread` give, and
what `ferror` tells afterwards. -/
structure FileReads where
  opened : Bool
  chunks : List Chunk
  failed : Bool

/-- The bytes that were read. -/
def FileReads.content (file : FileReads) : Bytes :=
  (file.chunks.map Subtype.val).flatten

/-- Nothing stands for the result -1. -/
def computeFileBlake3 (P : Platform) (file : FileReads) : Option Bytes :=
  if !file.opened then none
  else
    ((file.chunks.map Subtype.val).foldlM (hasherUpdate P) hasherInit).bind fun hasher =>
      if file.failed then none else some (hasherFinalize P hasher 32)

/-- The library with the hash that the server computes. -/
def CryptoLib.withBlake3 (lib : CryptoLib) (P : Platform) : CryptoLib :=
  { lib with blake3 := fun data => (computeBufferBlake3 P data).getD [] }

section Hash

variable {P : Platform} {content : Bytes}

theorem computeBufferBlake3_eq (hP : P.Agrees) (h : content.length < 2 ^ 64) :
    computeBufferBlake3 P content = some (blake3Hash content) := by
  obtain ⟨hasher, hrun, hout⟩ := hasherUpdates_finalizeSeek hP iv 0 [content] (by simpa using h)
  have hupdate : hasherUpdate P hasherInit content = some hasher := by
    simpa [hasherInit] using hrun
  rw [computeBufferBlake3, hupdate, Option.map_some, hasherFinalize, hout]
  simp [blake3Hash]

/-- Reading in pieces does not matter. -/
theorem computeFileBlake3_eq (hP : P.Agrees) (file : FileReads)
    (h : file.content.length < 2 ^ 64) :
    computeFileBlake3 P file =
      if file.opened && !file.failed then some (blake3Hash file.content) else none := by
  obtain ⟨hasher, hrun, hout⟩ := hasherUpdates_finalizeSeek hP iv 0 (file.chunks.map Subtype.val) h
  have hfold : (file.chunks.map Subtype.val).foldlM (hasherUpdate P) hasherInit = some hasher :=
    hrun
  rw [computeFileBlake3, hfold, Option.bind_some, hasherFinalize, hout]
  cases file.opened <;> cases file.failed <;> rfl

end Hash

/-! ## An upload -/

/-- A hash has 32 bytes. -/
def toDigest (hash : Bytes) : Option Digest :=
  if h : hash.length = 32 then some ⟨hash, h⟩ else none

/-- What `upload_file_ssl` finds at a path from which the content is read for the hash. -/
def FileReads.localFile (P : Platform) (file : FileReads) (size : Int64) : LocalFile where
  size := some size
  opened := true
  hash := (computeFileBlake3 P file).bind toDigest

section Upload

variable {clientP serverP : Platform} {lib : CryptoLib} {crypto : FileCryptoCtx} {env : UploadEnv}
  {file : FileReads} {size : Int64} {stack : HeaderMemory} {remoteFilename recipient : CString}
  {header after : Bytes} {incoming : List Bytes}

/-- What is sent announces the hash of what was read. -/
theorem ofBytes_of_sentHeader (after : Bytes) (hclient : clientP.Agrees)
    (hlen : file.content.length < 2 ^ 64) (hname : 0 ∉ remoteFilename) (hrecipient : 0 ∉ recipient)
    (hsent : (ClientCall.upload (file.localFile clientP size) remoteFilename recipient).sentHeader
      stack = some header) :
    RequestHeader.ofBytes (header ++ after) =
      { RequestHeader.ofBytes (stack.val ++ after) with
          command := .upload
          filename := headerFilename remoteFilename
          filesize := size
          fileHash := blake3Hash file.content
          recipient := recipient.take (fingerprintLen - 1) } := by
  rw [ClientCall.sentHeader, ClientCall.stores, FileReads.localFile,
    computeFileBlake3_eq hclient file hlen] at hsent
  by_cases hread : (file.opened && !file.failed) = true
  · rw [if_pos hread, Option.bind_some, toDigest, dif_pos (length_blake3Hash _)] at hsent
    obtain rfl := Option.some.inj hsent
    exact ofBytes_upload stack after size ⟨blake3Hash file.content, length_blake3Hash _⟩
      hname hrecipient
  · rw [if_neg hread] at hsent
    cases hsent

/-- The hash that the server computes of what it has received. -/
theorem withBlake3_payload (lib : CryptoLib) (hserver : serverP.Agrees) (req : RequestHeader)
    (incoming : List Bytes) :
    (lib.withBlake3 serverP).blake3 (payload req incoming) = blake3Hash (payload req incoming) := by
  have hlt : (payload req incoming).length < 2 ^ 64 := by
    have hmax := req.filesize.toInt_lt
    rw [payload, List.length_take]
    omega
  simp only [CryptoLib.withBlake3]
  rw [computeBufferBlake3_eq hserver hlt, Option.getD_some]

/-- Of a client that announces what it has read, the server keeps a file, encrypted with the nonce
that it drew, if what arrived has the same hash; otherwise it answers that the check failed. -/
theorem integrity_check_iff (hclient : clientP.Agrees) (hserver : serverP.Agrees)
    (hlen : file.content.length < 2 ^ 64) (hname : 0 ∉ remoteFilename) (hrecipient : 0 ∉ recipient)
    (hsent : (ClientCall.upload (file.localFile clientP size) remoteFilename recipient).sentHeader
      stack = some header)
    (haccepted : uploadRefusal crypto (RequestHeader.ofBytes (header ++ after)) = none)
    (hready : env.readySent = true) (halloc : malloc env.plaintextAlloc (toSizeT size.toInt) = true)
    (hreceived : size.toInt.toNat ≤ incoming.flatten.length) :
    let req := RequestHeader.ofBytes (header ++ after)
    let pro := uploadPrologue (lib.withBlake3 serverP) crypto env req incoming
    let arrived := incoming.flatten.take size.toInt.toNat
    (pro.sent = [.status .success, .status .integrityError] ↔
        blake3Hash arrived ≠ blake3Hash file.content) ∧
      (blake3Hash arrived = blake3Hash file.content → ∀ iv, env.iv = some iv →
        env.evp.works = true → 0 ≤ toInt size.toInt →
          pro.file =
            some (sealedFile (lib.withBlake3 serverP) crypto.key env req incoming iv)) := by
  have hreq := ofBytes_of_sentHeader after hclient hlen hname hrecipient hsent
  have hsize := congrArg RequestHeader.filesize hreq
  have hhash := congrArg RequestHeader.fileHash hreq
  simp only at hsize hhash
  clear hreq
  generalize RequestHeader.ofBytes (header ++ after) = req at haccepted hsize hhash ⊢
  subst hsize
  have hserverHash := withBlake3_payload lib hserver req incoming
  have hcheck : (lib.withBlake3 serverP).blake3 (payload req incoming) = req.fileHash ↔
      blake3Hash (incoming.flatten.take req.filesize.toInt.toNat) = blake3Hash file.content := by
    rw [hserverHash, hhash]
    rfl
  simp only
  rw [ne_eq, ← hcheck]
  refine ⟨?_, fun hsame iv hiv hevp hpositive => ?_⟩
  · obtain ⟨⟨plaintext, rest⟩, hrecv⟩ :=
      Option.isSome_iff_exists.1 (receiveFile_isSome_iff.2 hreceived)
    obtain rfl : plaintext = payload req incoming := (receiveFile_eq_some hrecv).1
    simp only [uploadPrologue, haccepted, hready, halloc, hrecv]
    by_cases hhash' : (lib.withBlake3 serverP).blake3 (payload req incoming) = req.fileHash
    · -- the check is passed, and what can still fail is answered differently
      cases hiv : env.iv with
      | none => simp [hhash', Message.status, ResponseStatus.integrityError]
      | some iv =>
          cases henc : enhancedAesGcmEncrypt (lib.withBlake3 serverP) env.evp
              (payload req incoming) (toInt req.filesize.toInt) crypto.key iv.val with
          | failed => simp [hhash', henc, Message.status, ResponseStatus.integrityError]
          | died => simp [hhash', henc]
          | done sealed => simp [hhash', henc]
    · simp [hhash']
  · have hpasses : UploadPasses (lib.withBlake3 serverP) crypto env req incoming :=
      { accepted := haccepted
        ready := hready
        alloc := halloc
        received := hreceived
        hash := hsame
        evp := hevp
        positive := hpositive }
    exact hpasses.file_eq hiv

/-- A file of two bytes, which is read at once. -/
def hiReads : FileReads where
  opened := true
  chunks := [⟨ascii "hi", by decide⟩]
  failed := false

/-- The two bytes are kept when they arrive one by one. -/
theorem integrity_check_hi :
    ∃ header, (ClientCall.upload (hiReads.localFile .portable 2) (ascii "a") []).sentHeader
        blankStack = some header ∧
      let crypto := (Server.started sampleKey Lib.OrderedMap.empty []).crypto
      let req := RequestHeader.ofBytes (header ++ [])
      let incoming := [ascii "h", ascii "i"]
      let pro := uploadPrologue (sampleLib.withBlake3 .portable) crypto (UploadEnv.ok sampleIv 7)
        req incoming
      pro.sent ≠ [.status .success, .status .integrityError] ∧
        pro.file = some (sealedFile (sampleLib.withBlake3 .portable) crypto.key
          (UploadEnv.ok sampleIv 7) req incoming sampleIv) := by
  have hlen : hiReads.content.length < 2 ^ 64 := by decide
  obtain ⟨header, hsent⟩ : ∃ header, (ClientCall.upload (hiReads.localFile .portable 2)
      (ascii "a") []).sentHeader blankStack = some header := by
    rw [ClientCall.sentHeader, ClientCall.stores, FileReads.localFile,
      computeFileBlake3_eq Platform.portable_agrees hiReads hlen]
    exact ⟨_, rfl⟩
  have hreq := ofBytes_of_sentHeader [] Platform.portable_agrees hlen (by decide)
    (by decide) hsent
  have haccepted : uploadRefusal (Server.started sampleKey Lib.OrderedMap.empty []).crypto
      (RequestHeader.ofBytes (header ++ [])) = none := by
    rw [hreq]
    rfl
  obtain ⟨hfailed, hkept⟩ := @integrity_check_iff .portable .portable sampleLib _
    (UploadEnv.ok sampleIv 7) hiReads 2 blankStack (ascii "a") [] header [] [ascii "h", ascii "i"]
    Platform.portable_agrees Platform.portable_agrees hlen (by decide) (by decide) hsent haccepted
    rfl (by decide) (by decide)
  exact ⟨header, hsent, fun h => hfailed.1 h rfl, hkept rfl sampleIv rfl rfl (by decide)⟩

end Upload

end FileExchange
