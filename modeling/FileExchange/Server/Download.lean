import FileExchange.Server.Upload

/-!
# Server.Download — `handle_download_request`

* `mayDownload`    : the permission check;
* `sendFile`       : decryption and sending, once the file is read;
* `handleDownload` : the whole handler;
* `downloadReply_congr` : the reply depends on the first upload document, and on the file only
  through its length and what it decrypts to.
-/

namespace FileExchange

open Lib

/-- What a download finds: whether the query, `stat`, `fopen` and `fread` succeed, allocations
are granted, and what the EVP library does. -/
structure DownloadEnv where
  find : Bool
  stat : Bool
  opened : Bool
  ciphertextAlloc : Bool
  read : Bool
  plaintextAlloc : Bool
  evp : EvpEnv
  event : AppendEnv
  deriving DecidableEq, Repr

/-- Surroundings in which nothing fails. -/
def DownloadEnv.ok (now : Int) : DownloadEnv :=
  { find := true
    stat := true
    opened := true
    ciphertextAlloc := true
    read := true
    plaintextAlloc := true
    evp := EvpEnv.ok
    event := AppendEnv.ok 0 now }

/-- Every step of a download works. -/
structure DownloadEnv.Works (env : DownloadEnv) : Prop where
  find : env.find = true
  stat : env.stat = true
  opened : env.opened = true
  ciphertextAlloc : env.ciphertextAlloc = true
  read : env.read = true
  plaintextAlloc : env.plaintextAlloc = true
  evp : env.evp.works = true

theorem DownloadEnv.works_ok (now : Int) : (DownloadEnv.ok now).Works :=
  ⟨rfl, rfl, rfl, rfl, rfl, rfl, rfl⟩

/-! ## The parts of the handler -/

/-- `is_public || (owner_fp && strcmp(owner_fp, client_fingerprint) == 0)`. -/
def mayDownload (d : Document) (client : CString) : Bool :=
  d.bool? .isPublic = some true || d.utf8? .ownerFingerprint = some client

/-- `req->offset < 0 || req->offset > filesize`. -/
def invalidOffset (offset : Int64) (filesize : Nat) : Bool :=
  decide (offset.toInt < 0) || decide (offset.toInt > filesize)

/-- The nonce and the tag of a document, when both have the right length. -/
def ivAndTag? (d : Document) : Option (Bytes × Bytes) :=
  match d.binary? .iv, d.binary? .tag with
  | some iv, some tag => if iv.length = 12 ∧ tag.length = 16 then some (iv, tag) else none
  | _, _ => none

/-- What the file decrypts to with the nonce and tag of `d`. -/
def decryptFile (lib : CryptoLib) (key : Bytes) (evp : EvpEnv) (d : Document) (content : Bytes) :
    EvpResult Bytes :=
  match ivAndTag? d with
  | none => .failed
  | some p => enhancedAesGcmDecrypt lib evp content (toInt content.length) key p.1 p.2

/-- The header and, unless it is empty, the part of the file from `offset` on. -/
def fileMessages (plaintext : Bytes) (offset : Int64) : List Message :=
  let ptLen : Int := plaintext.length
  let bytesToSend := ptLen - offset.toInt
  .response .success ptLen ::
    if bytesToSend > 0 then [.payload (plaintext.drop offset.toInt.toNat)] else []

/-- How a download ends: its reply reports an error, its file is sent, or the process dies. -/
inductive DownloadExit
  | refused
  | sent
  | died
  deriving DecidableEq, Repr

/-- From the allocation of the plaintext on: the messages, and how the handler ends. -/
def sendFile (lib : CryptoLib) (key : Bytes) (env : DownloadEnv) (d : Document) (content : Bytes)
    (offset : Int64) : List Message × DownloadExit :=
  if (ivAndTag? d).isSome && !malloc env.plaintextAlloc content.length then
    ([.status .error], .refused)
  else
    match decryptFile lib key env.evp d content with
    -- no usable nonce and tag, or the tag does not match
    | .failed => ([.status .error], .refused)
    | .died => ([], .died)
    | .done plaintext => (fileMessages plaintext offset, .sent)

/-- The reply for the document found and the contents of the path, and how the handler ends. -/
def downloadReply (lib : CryptoLib) (key : Bytes) (env : DownloadEnv) (found : Option Document)
    (file : Option Bytes) (req : RequestHeader) (client : CString) :
    List Message × DownloadExit :=
  if unsafeName req.filename then ([.status .permissionDenied], .refused)
  else
    -- a query that fails leaves the cursor without a document
    match if env.find then found else none with
    | none => ([.status .fileNotFound], .refused)
    | some d =>
        if !mayDownload d client then ([.status .permissionDenied], .refused)
        else
          match if env.stat then file else none with
          | none => ([.status .fileNotFound], .refused)
          | some content =>
              -- the offset is checked against the file on disk, which is as long as its plaintext
              if invalidOffset req.offset content.length then
                ([.status .invalidOffset], .refused)
              else if !env.opened then ([.status .error], .refused)
              else if !malloc env.ciphertextAlloc content.length then
                ([.status .error], .refused)
              else if !env.read then ([.status .error], .refused)
              else sendFile lib key env d content req.offset

def handleDownload (lib : CryptoLib) (srv : Server) (req : RequestHeader) (client : CString)
    (env : DownloadEnv) : Server × List Message :=
  let path := storagePath req.filename
  let r := downloadReply lib srv.crypto.key env (firstUpload? srv.collection req.filename)
    (srv.storage.get? path) req client
  match r.2 with
  | .refused => (srv, r.1)
  | .died => ({ srv with alive := false }, r.1)
  | .sent =>
      let event :=
        appendProcEvent env.event srv.collection path (ascii "download") (ascii "success")
      ({ srv with collection := event.1 }, r.1)

/-- The process dies of the download. -/
def downloadCrashes (lib : CryptoLib) (srv : Server) (req : RequestHeader) (client : CString)
    (env : DownloadEnv) : Bool :=
  decide ((downloadReply lib srv.crypto.key env (firstUpload? srv.collection req.filename)
    (srv.storage.get? (storagePath req.filename)) req client).2 = .died)

/-! ## What a download changes -/

section Effect

variable {lib : CryptoLib} {srv : Server} {req : RequestHeader} {client : CString}
  {env : DownloadEnv}

/-- A download appends an event at most, or it ends the process. -/
theorem handleDownload_server (lib : CryptoLib) (srv : Server) (req : RequestHeader)
    (client : CString) (env : DownloadEnv) :
    (handleDownload lib srv req client env).1.crypto = srv.crypto ∧
      (handleDownload lib srv req client env).1.storage = srv.storage ∧
      (handleDownload lib srv req client env).1.alive =
        (srv.alive && !downloadCrashes lib srv req client env) ∧
      uploadDocs (handleDownload lib srv req client env).1.collection =
        uploadDocs srv.collection := by
  simp only [handleDownload, downloadCrashes]
  split
  · next hexit => exact ⟨rfl, rfl, by simp [hexit], rfl⟩
  · next hexit => exact ⟨rfl, rfl, by simp [hexit], rfl⟩
  · next hexit => exact ⟨rfl, rfl, by simp [hexit], uploadDocs_appendProcEvent _ _ _ _ _⟩

theorem handleDownload_sent :
    (handleDownload lib srv req client env).2 =
      (downloadReply lib srv.crypto.key env (firstUpload? srv.collection req.filename)
        (srv.storage.get? (storagePath req.filename)) req client).1 := by
  simp only [handleDownload]
  split <;> rfl

/-- Only the cipher ends the process, and only where it is given a negative length and does not
refuse it. -/
theorem sendFile_died_iff {key : Bytes} {d : Document} {content : Bytes} {offset : Int64} :
    (sendFile lib key env d content offset).2 = .died ↔
      (ivAndTag? d).isSome = true ∧ malloc env.plaintextAlloc content.length = true ∧
        env.evp.works = true ∧ toInt content.length < 0 ∧ env.evp.refusesNegative = false := by
  unfold sendFile decryptFile
  cases hp : ivAndTag? d with
  | none => simp
  | some p =>
      cases halloc : malloc env.plaintextAlloc content.length with
      | false => simp
      | true =>
          simp only [Option.isSome_some, Bool.not_true, Bool.and_false, Bool.false_eq_true,
            if_false, true_and]
          rw [← @enhancedAesGcmDecrypt_eq_died_iff lib env.evp content key p.1 p.2
            (toInt content.length)]
          cases enhancedAesGcmDecrypt lib env.evp content (toInt content.length) key p.1 p.2 <;>
            simp

/-- A download that comes to its decryption, by what it finds. -/
structure DownloadReads (env : DownloadEnv) (doc? : Option Document) (file? : Option Bytes)
    (req : RequestHeader) (client : CString) (d : Document) (content : Bytes) : Prop where
  safe : unsafeName req.filename = false
  find : env.find = true
  found : doc? = some d
  may : mayDownload d client = true
  stat : env.stat = true
  file : file? = some content
  offset : invalidOffset req.offset content.length = false
  opened : env.opened = true
  ciphertextAlloc : malloc env.ciphertextAlloc content.length = true
  read : env.read = true

/-- All exits before the decryption report an error. -/
theorem downloadReply_cases (lib : CryptoLib) (key : Bytes) (env : DownloadEnv)
    (doc? : Option Document) (file? : Option Bytes) (req : RequestHeader) (client : CString) :
    (∃ status, downloadReply lib key env doc? file? req client = ([.status status], .refused)) ∨
      ∃ d content, DownloadReads env doc? file? req client d content ∧
        downloadReply lib key env doc? file? req client =
          sendFile lib key env d content req.offset := by
  generalize hreply : downloadReply lib key env doc? file? req client = reply
  unfold downloadReply at hreply
  split at hreply
  · exact Or.inl ⟨_, hreply.symm⟩
  rename_i hsafe
  split at hreply
  · exact Or.inl ⟨_, hreply.symm⟩
  rename_i d hfound
  split at hreply
  · exact Or.inl ⟨_, hreply.symm⟩
  rename_i hmay
  split at hreply
  · exact Or.inl ⟨_, hreply.symm⟩
  rename_i content hfile
  split at hreply
  · exact Or.inl ⟨_, hreply.symm⟩
  rename_i hoffset
  split at hreply
  · exact Or.inl ⟨_, hreply.symm⟩
  rename_i hopened
  split at hreply
  · exact Or.inl ⟨_, hreply.symm⟩
  rename_i halloc
  split at hreply
  · exact Or.inl ⟨_, hreply.symm⟩
  rename_i hread
  rw [Option.ite_none_right_eq_some] at hfound hfile
  simp only [Bool.not_eq_true', Bool.not_eq_false, Bool.not_eq_true] at *
  exact Or.inr ⟨d, content,
    { safe := hsafe
      find := hfound.1
      found := hfound.2
      may := hmay
      stat := hfile.1
      file := hfile.2
      offset := hoffset
      opened := hopened
      ciphertextAlloc := halloc
      read := hread }, hreply.symm⟩

/-- A download that ends the process: the cipher is given a negative length and does not refuse
it. -/
structure DownloadOverruns (srv : Server) (req : RequestHeader) (client : CString)
    (env : DownloadEnv) (d : Document) (content : Bytes) : Prop extends
    DownloadReads env (firstUpload? srv.collection req.filename)
      (srv.storage.get? (storagePath req.filename)) req client d content where
  ivAndTag : (ivAndTag? d).isSome = true
  plaintextAlloc : malloc env.plaintextAlloc content.length = true
  evp : env.evp.works = true
  negative : toInt content.length < 0
  unchecked : env.evp.refusesNegative = false

theorem downloadCrashes_iff :
    downloadCrashes lib srv req client env = true ↔
      ∃ d content, DownloadOverruns srv req client env d content := by
  rw [downloadCrashes, decide_eq_true_iff]
  constructor
  · intro h
    rcases downloadReply_cases lib srv.crypto.key env (firstUpload? srv.collection req.filename)
      (srv.storage.get? (storagePath req.filename)) req client with
      ⟨_, hreply⟩ | ⟨d, content, hreads, hreply⟩
    · rw [hreply] at h
      cases h
    · rw [hreply] at h
      obtain ⟨hiv, hplain, hevp, hneg, hunchecked⟩ := sendFile_died_iff.1 h
      exact ⟨d, content, hreads, hiv, hplain, hevp, hneg, hunchecked⟩
  · rintro ⟨d, content, h⟩
    have hdied : (sendFile lib srv.crypto.key env d content req.offset).2 = .died :=
      sendFile_died_iff.2 ⟨h.ivAndTag, h.plaintextAlloc, h.evp, h.negative, h.unchecked⟩
    simp [downloadReply, h.safe, h.find, h.found, h.may, h.stat, h.file, h.offset, h.opened,
      h.ciphertextAlloc, h.read, hdied]

theorem downloadCrashes_of_refuses (h : env.evp.refusesNegative = true) :
    downloadCrashes lib srv req client env = false := by
  refine Bool.eq_false_iff.2 fun hdies => ?_
  obtain ⟨d, content, hover⟩ := downloadCrashes_iff.1 hdies
  exact absurd (hover.unchecked.symm.trans h) (by decide)

end Effect

/-! ## What the reply depends on -/

section Reply

variable {lib : CryptoLib} {key : Bytes} {env : DownloadEnv} {req : RequestHeader}
  {client : CString}

theorem ivAndTag?_congr {d d' : Document} (h : d.withoutProc = d'.withoutProc) :
    ivAndTag? d = ivAndTag? d' := by
  rw [ivAndTag?, ivAndTag?, Document.binary?_congr h (by decide),
    Document.binary?_congr h (by decide)]

theorem mayDownload_congr {d d' : Document} (h : d.withoutProc = d'.withoutProc) :
    mayDownload d client = mayDownload d' client := by
  rw [mayDownload, mayDownload, Document.bool?_congr h (by decide),
    Document.utf8?_congr h (by decide)]

theorem decryptFile_congr {evp : EvpEnv} {d d' : Document} (h : d.withoutProc = d'.withoutProc)
    (content : Bytes) : decryptFile lib key evp d content = decryptFile lib key evp d' content := by
  rw [decryptFile, decryptFile, ivAndTag?_congr h]

/-- Events in the document found do not matter. -/
theorem downloadReply_congr {found found' : Option Document}
    (h : found.map Document.withoutProc = found'.map Document.withoutProc) (file : Option Bytes) :
    downloadReply lib key env found file req client =
      downloadReply lib key env found' file req client := by
  cases found with
  | none =>
      cases found' with
      | none => rfl
      | some d' => simp at h
  | some d =>
      cases found' with
      | none => simp at h
      | some d' =>
          -- the handler reads fields other than `proc` only
          have hd : d.withoutProc = d'.withoutProc := by simpa using h
          cases hfind : env.find <;>
            simp [downloadReply, sendFile, hfind, mayDownload_congr hd, ivAndTag?_congr hd,
              decryptFile_congr hd]

section Document

variable {d : Document} {filename : CString} {filesize : Int64} {iv : Iv} {tag : Bytes}
  {owner : CString}

/-- The permission check on a document as uploads insert it: only the owner passes. -/
theorem mayDownload_of_document
    (h : d.withoutProc = uploadDocument filename filesize iv tag owner) :
    mayDownload d client = decide (owner = client) := by
  rw [← withoutProc_uploadDocument] at h
  simp [mayDownload, Document.bool?_congr h (f := .isPublic) (by decide),
    Document.utf8?_congr h (f := .ownerFingerprint) (by decide)]

theorem ivAndTag?_of_document
    (h : d.withoutProc = uploadDocument filename filesize iv tag owner) (htag : tag.length = 16) :
    ivAndTag? d = some (iv.val, tag) := by
  rw [← withoutProc_uploadDocument] at h
  simp [ivAndTag?, Document.binary?_congr h (f := .iv) (by decide),
    Document.binary?_congr h (f := .tag) (by decide), iv.property, htag]

theorem decryptFile_of_document
    (h : d.withoutProc = uploadDocument filename filesize iv tag owner) (htag : tag.length = 16)
    {evp : EvpEnv} (hevp : evp.works = true) {content : Bytes} (hlen : content.length < 2 ^ 31) :
    decryptFile lib key evp d content = .ofOption (lib.decrypt key iv.val tag content) := by
  have hint : toInt content.length = content.length := toInt_of_lt (by omega) (by omega)
  have hpos : ¬ ((content.length : Int) < 0) := by omega
  simp [decryptFile, ivAndTag?_of_document h htag, enhancedAesGcmDecrypt, hevp, hint, hpos]

end Document

/-- Without the EVP library nothing decrypts, with it the length of the file and its contents
decide. -/
theorem decryptFile_evp (lib : CryptoLib) (key : Bytes) (evp : EvpEnv) (d : Document)
    (content : Bytes) :
    decryptFile lib key evp d content =
      if !evp.works || (ivAndTag? d).isNone then .failed
      else if toInt content.length < 0 then evp.atNegative
      else decryptFile lib key EvpEnv.ok d content := by
  cases hp : ivAndTag? d with
  | none => simp [decryptFile, hp]
  | some p =>
      cases hworks : evp.works with
      | false => simp [decryptFile, hp, enhancedAesGcmDecrypt, hworks]
      | true =>
          by_cases hneg : toInt content.length < 0
          · simp [decryptFile, hp, enhancedAesGcmDecrypt, hworks, hneg]
          · simp [decryptFile, hp, enhancedAesGcmDecrypt, hworks, hneg, EvpEnv.ok]

/-- A file that was decrypted decrypts in the same way wherever the EVP library works. -/
theorem decryptFile_eq_done {evp : EvpEnv} {d : Document} {content p : Bytes}
    (h : decryptFile lib key evp d content = .done p) :
    ∃ iv tag, ivAndTag? d = some (iv, tag) ∧
      lib.decrypt key iv tag (content.take (toInt content.length).toNat) = some p ∧
      ∀ evp' : EvpEnv, evp'.works = true → decryptFile lib key evp' d content = .done p := by
  have hevp := decryptFile_evp lib key evp d content
  rw [h] at hevp
  unfold decryptFile at h
  split at h
  · cases h
  · next q hivtag =>
      refine ⟨q.1, q.2, hivtag, enhancedAesGcmDecrypt_eq_done h, fun evp' hworks => ?_⟩
      split at hevp
      · cases hevp
      · split at hevp
        · exact absurd hevp.symm (evp.atNegative_ne_done p)
        · next hneg => rw [decryptFile_evp, if_neg (by simp [hworks, hivtag]), if_neg hneg, hevp]

/-- Two contents that no download can tell apart. -/
def Interchangeable (lib : CryptoLib) (key : Bytes) (d : Document) (content content' : Bytes) :
    Prop :=
  content.length = content'.length ∧
    decryptFile lib key EvpEnv.ok d content = decryptFile lib key EvpEnv.ok d content'

instance (lib : CryptoLib) (key : Bytes) (d : Document) (content content' : Bytes) :
    Decidable (Interchangeable lib key d content content') := by
  unfold Interchangeable
  infer_instance

theorem downloadReply_of_interchangeable {d : Document} {content content' : Bytes}
    (h : Interchangeable lib key d content content') :
    downloadReply lib key env (some d) (some content) req client =
      downloadReply lib key env (some d) (some content') req client := by
  rcases h with ⟨hlen, hdec⟩
  have hevp : decryptFile lib key env.evp d content = decryptFile lib key env.evp d content' := by
    rw [decryptFile_evp, decryptFile_evp lib key env.evp d content', hdec, hlen]
  -- the handler looks at the length and at what the contents decrypt to
  cases hfind : env.find <;> cases hstat : env.stat <;>
    simp [downloadReply, sendFile, hfind, hstat, hlen, hevp]

/-- The reply of a download in which every step works. -/
theorem downloadReply_of_works (henv : env.Works) (hsafe : unsafeName req.filename = false)
    {d : Document} {content : Bytes} (hsize : content.length ≤ ptrdiffMax) :
    (downloadReply lib key env (some d) (some content) req client).1 =
      if !mayDownload d client then [.status .permissionDenied]
      else if invalidOffset req.offset content.length then [.status .invalidOffset]
      else
        match decryptFile lib key env.evp d content with
        | .failed => [.status .error]
        | .died => []
        | .done p => fileMessages p req.offset := by
  have hmalloc : malloc true content.length = true := by
    simp [malloc, hsize]
  cases hmay : mayDownload d client with
  | false =>
      simp [downloadReply, hsafe, henv.find, hmay]
  | true =>
      cases hoff : invalidOffset req.offset content.length with
      | true =>
          simp [downloadReply, hsafe, henv.find, hmay, henv.stat, hoff]
      | false =>
          cases hdec : decryptFile lib key env.evp d content <;>
            simp [downloadReply, sendFile, hsafe, henv.find, hmay, henv.stat, hoff, henv.opened,
              henv.ciphertextAlloc, henv.read, henv.plaintextAlloc, hmalloc, hdec]

theorem fileMessages_injective {p p' : Bytes} (h : fileMessages p 0 = fileMessages p' 0) :
    p = p' := by
  have hzero : (0 : Int64).toInt = 0 := rfl
  simp only [fileMessages, hzero, Int.sub_zero, List.cons.injEq, Message.response.injEq,
    Int.toNat_zero, List.drop_zero, true_and] at h
  rcases h with ⟨hlen, htail⟩
  have hlen' : p.length = p'.length := by exact_mod_cast hlen
  -- an empty file has no payload message, but then its length tells
  by_cases hpos : (p.length : Int) > 0
  · have hpos' : (p'.length : Int) > 0 := hlen ▸ hpos
    rw [if_pos hpos, if_pos hpos'] at htail
    exact Message.payload.inj (List.cons.inj htail).1
  · have hnil : p = [] := List.length_eq_zero_iff.1 (by omega)
    have hnil' : p' = [] := List.length_eq_zero_iff.1 (by omega)
    rw [hnil, hnil']

/-- The reply to a download from the start tells whether the file decrypts, and to what. -/
theorem decryptedReply_injective {plain plain' : EvpResult Bytes}
    (h : (match plain with
      | .failed => [Message.status .error]
      | .died => []
      | .done p => fileMessages p 0) =
        match plain' with
        | .failed => [Message.status .error]
        | .died => []
        | .done p => fileMessages p 0) : plain = plain' := by
  have hne : ∀ p, fileMessages p 0 ≠ [Message.status .error] := fun p heq => by
    simp [fileMessages, Message.status] at heq
  have hcons : ∀ p, fileMessages p 0 ≠ [] := fun p => List.cons_ne_nil _ _
  cases plain with
  | failed =>
      cases plain' with
      | failed => rfl
      | died => cases h
      | done p' => exact absurd h.symm (hne p')
  | died =>
      cases plain' with
      | failed => cases h
      | died => rfl
      | done p' => exact absurd h.symm (hcons p')
  | done p =>
      cases plain' with
      | failed => exact absurd h (hne p)
      | died => exact absurd h (hcons p)
      | done p' => rw [fileMessages_injective h]

end Reply

end FileExchange
