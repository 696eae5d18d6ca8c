import FileExchange.Server.Isolation
import FileExchange.Server.RoundTrip

/-!
# Client.Download — `download_file_ssl` against `handle_download_request`

The client measures what it already has of a file, but sends whatever its stack holds in the
field `offset`, and opens the file anew with `"wb"` before the first byte arrives.

* `downloadFileSsl` : what a call leaves in the local file, and how it ends;
* `downloads`       : attempts one after the other as a transition system;
* `Resumed`, `Harmless` : what an attempt should do, and when it does;
* `resumed_iff`     : the two are the same, attempt by attempt, in every run.
-/

namespace FileExchange

open Lib

/-! ## The client -/

/-- How a call ends: it returns, or it waits for bytes that nobody sends. -/
inductive Outcome
  | returned (code : Int)
  | waiting
  deriving DecidableEq, Repr

/-- What becomes of `SSL_read` when there is nothing left to read. -/
def Outcome.atEnd (cut : Bool) : Outcome :=
  if cut then .returned (-1) else .waiting

/-- `strncpy(header.filename, remote_filename, FILENAME_MAX_LEN - 1)`. -/
def headerFilename (remoteFilename : CString) : CString :=
  remoteFilename.take (filenameMaxLen - 1)

/-- The header that is sent, in the memory that `stack` was before. -/
def downloadHeader (stack : RequestHeader) (remoteFilename : CString) : RequestHeader :=
  -- `offset`, `flags`, `file_hash` and `recipient` keep what the stack held
  { stack with
      command := .download
      filename := headerFilename remoteFilename
      filesize := 0 }

/-- `while (total_received < filesize)`: the local file, and how the call ends. -/
def receiveRest (cut : Bool) :
    Nat → Int → Int → List Bytes → Bytes → Bytes × Outcome
  | 0, _, _, _, file => (file, .returned 0)
  | fuel + 1, totalReceived, filesize, records, file =>
      if totalReceived < filesize then
        match sslRead (toRead (filesize - totalReceived)) records with
        | none => (file, .atEnd cut)
        | some (bytes, rest) =>
            receiveRest cut fuel (totalReceived + bytes.length) filesize rest (file ++ bytes)
      else (file, .returned 0)

/-- A download to a local file with the contents `saved`, if it exists, from a connection on
which `records` arrive before it ends or falls silent. -/
def downloadFileSsl (saved : Option Bytes) (cut : Bool) (records : List Bytes) :
    Bytes × Outcome :=
  -- `"ab"` creates the file
  let file := saved.getD []
  -- `ftell`; the value is never put into the header
  let offset : Int := file.length
  match sslRecvAll responseHeaderSize records with
  | none => (file, .atEnd cut)
  | some (header, rest) =>
      let response := ResponseHeader.ofBytes header
      let filesize := response.filesize.toInt
      if response.status ≠ ResponseStatus.success.code then (file, .returned (-1))
      else if filesize ≤ 0 then (file, .returned (-1))
      -- `"wb"` empties it
      else receiveRest cut (filesize - offset).toNat offset filesize rest []

/-! ## Attempts -/

/-- One attempt: what the client's stack holds, what the server finds, where every step works,
the records that arrive, and whether the connection is cut after them. -/
structure Attempt where
  stack : RequestHeader
  env : DownloadEnv
  works : env.Works
  records : List Bytes
  cut : Bool

/-- The server, and the local file unless there is none. -/
structure Transfer where
  server : Server
  saved : Option Bytes

/-- What the server sends in an attempt. -/
def Attempt.wire (lib : CryptoLib) (f client : CString) (srv : Server) (a : Attempt) : Bytes :=
  ((handleDownload lib srv (downloadHeader a.stack f) client a.env).2.map Message.wire).flatten

/-- A first part of it arrives, and all of it unless the connection is cut. -/
def Attempt.Arrives (lib : CryptoLib) (f client : CString) (srv : Server) (a : Attempt) : Prop :=
  if a.cut then a.records.flatten <+: a.wire lib f client srv
  else a.records.flatten = a.wire lib f client srv

instance (lib : CryptoLib) (f client : CString) (srv : Server) (a : Attempt) :
    Decidable (a.Arrives lib f client srv) := by
  unfold Attempt.Arrives
  infer_instance

/-- An attempt to download `f`. -/
def attemptStep (lib : CryptoLib) (f client : CString) (s : Transfer) (a : Attempt) :
    Option Transfer :=
  if a.Arrives lib f client s.server then
    some
      { server := (handleDownload lib s.server (downloadHeader a.stack f) client a.env).1
        saved := some (downloadFileSsl s.saved a.cut a.records).1 }
  else none

def downloads (lib : CryptoLib) (f client : CString) : Lts Transfer Attempt where
  step := attemptStep lib f client

/-- What an attempt should do: the local file is a prefix of `p` and not shorter than before;
if the connection is not cut, the client returns 0 and the local file is `p`. -/
def Resumed (p : Bytes) (s : Transfer) (a : Attempt) : Prop :=
  let r := downloadFileSsl s.saved a.cut a.records
  r.1 <+: p ∧ (s.saved.getD []).length ≤ r.1.length ∧
    (a.cut = false → r = (p, .returned 0))

/-- When it does so.  A complete attempt: there is nothing yet, and something to come, and the
offset happens to be 0.  One that is cut: it does not get to the second `fopen`, or the bytes
that arrive are the first ones of `p` and not fewer than there were. -/
def Harmless (p : Bytes) (s : Transfer) (a : Attempt) : Prop :=
  let k := (s.saved.getD []).length
  let o := a.stack.offset.toInt
  if a.cut then
    a.records.flatten.length < responseHeaderSize ∨ o < 0 ∨ o > p.length ∨ p = [] ∨
      (let w := (p.drop o.toNat).take
        (min (a.records.flatten.length - responseHeaderSize) (p.length - k))
      w <+: p ∧ k ≤ w.length)
  else k = 0 ∧ o = 0 ∧ p ≠ []

instance (p : Bytes) (s : Transfer) (a : Attempt) : Decidable (Harmless p s a) := by
  unfold Harmless
  infer_instance

instance (p : Bytes) (s : Transfer) (a : Attempt) : Decidable (Resumed p s a) := by
  unfold Resumed
  infer_instance

/-! ## What a call leaves -/

/-- The loop takes what it wants off the stream, as far as the stream goes. -/
theorem receiveRest_eq (cut : Bool) {fuel : Nat} : ∀ {totalReceived filesize : Int}
    {records : List Bytes} {file : Bytes}, (filesize - totalReceived).toNat ≤ fuel →
    receiveRest cut fuel totalReceived filesize records file =
      (file ++ records.flatten.take (filesize - totalReceived).toNat,
        if (filesize - totalReceived).toNat ≤ records.flatten.length then .returned 0
        else .atEnd cut) := by
  induction fuel with
  | zero =>
      intro totalReceived filesize records file hfuel
      have hzero : (filesize - totalReceived).toNat = 0 := Nat.le_zero.1 hfuel
      simp [receiveRest, hzero]
  | succ fuel ih =>
      intro totalReceived filesize records file hfuel
      by_cases hmore : totalReceived < filesize
      · rcases toRead_bounds (show filesize - totalReceived > 0 by omega) with ⟨hone, hmax⟩
        rw [receiveRest, if_pos hmore]
        cases hread : sslRead (toRead (filesize - totalReceived)) records with
        | none =>
            -- the end of the stream
            have hempty := sslRead_eq_none hread
            have hwant : ¬ (filesize - totalReceived).toNat ≤ 0 := by omega
            simp [hempty, hwant]
        | some r =>
            rcases r with ⟨bytes, rest⟩
            rcases sslRead_eq_some hone hread with ⟨hstream, hpos, hle⟩
            -- a read adds to the file what it takes off the rest of the request
            have hleft : (filesize - (totalReceived + bytes.length)).toNat =
                (filesize - totalReceived).toNat - bytes.length := by omega
            dsimp only
            rw [ih (by omega), hleft, hstream, List.take_append, List.append_assoc,
              List.length_append]
            have htake : bytes.take (filesize - totalReceived).toNat = bytes :=
              List.take_of_length_le (by omega)
            have hwant : (filesize - totalReceived).toNat - bytes.length ≤ rest.flatten.length ↔
                (filesize - totalReceived).toNat ≤ bytes.length + rest.flatten.length := by omega
            rw [htake]
            simp only [hwant]
      · have hzero : (filesize - totalReceived).toNat = 0 := by omega
        rw [receiveRest, if_neg hmore]
        simp [hzero]

section Call

variable {saved : Option Bytes} {cut : Bool} {records : List Bytes}

/-- Without a whole response header the call changes nothing. -/
theorem downloadFileSsl_of_short (h : records.flatten.length < responseHeaderSize) :
    downloadFileSsl saved cut records = (saved.getD [], .atEnd cut) := by
  cases hrecv : sslRecvAll responseHeaderSize records with
  | none =>
      simp [downloadFileSsl, hrecv]
  | some r =>
      rcases r with ⟨header, rest⟩
      rcases sslRecvAll_eq_some hrecv with ⟨hlen, hstream⟩
      rw [hstream, List.length_append] at h
      omega

/-- A call that gets a whole response header. -/
theorem downloadFileSsl_of_response {st : ResponseStatus} {filesize : Int} {payload : Bytes}
    (h0 : 0 ≤ filesize) (hlt : filesize < 2 ^ 63)
    (hstream : records.flatten = (Message.response st filesize).wire ++ payload) :
    downloadFileSsl saved cut records =
      if st ≠ .success ∨ filesize = 0 then (saved.getD [], .returned (-1))
      else
        let want := (filesize - (saved.getD []).length).toNat
        (payload.take want, if want ≤ payload.length then .returned 0 else .atEnd cut) := by
  have hwire := Message.length_wire_response st filesize
  have hwhole : responseHeaderSize ≤ records.flatten.length := by
    rw [hstream, List.length_append]
    omega
  rcases Option.isSome_iff_exists.1 (sslRecvAll_isSome hwhole) with ⟨⟨header, rest⟩, hrecv⟩
  rcases sslRecvAll_eq_some hrecv with ⟨hlen, hsplit⟩
  -- the header is the one that the server sent, and its payload follows
  rcases List.append_inj (hsplit.symm.trans hstream) (hlen.trans hwire.symm) with ⟨hheader, hrest⟩
  rcases ResponseHeader.ofBytes_wire st h0 hlt with ⟨hstatus, hsize⟩
  rw [← hheader] at hstatus hsize
  have hcode : st.code = ResponseStatus.success.code ↔ st = .success := by
    cases st <;> decide
  simp only [downloadFileSsl, hrecv, hstatus, hsize]
  -- the two early returns come before the second `fopen`
  by_cases hsuccess : st = .success
  · by_cases hzero : filesize = 0
    · simp [hsuccess, hzero]
    · have hpos : ¬ filesize ≤ 0 := by omega
      simp only [hsuccess, hzero, hpos, ne_eq, not_true_eq_false, if_false, or_self]
      rw [receiveRest_eq cut le_rfl, hrest, List.nil_append]
  · simp [hcode, hsuccess]

end Call

/-! ## What the server sends -/

/-- `client` owns `f`, and `p` is what a download of it delivers. -/
def Holds (lib : CryptoLib) (srv : Server) (f client : CString) (p : Bytes) : Prop :=
  ∃ d content, Owns srv f client d ∧ srv.storage.get? (storagePath f) = some content ∧
    content.length = p.length ∧ decryptFile lib srv.crypto.key EvpEnv.ok d content = .done p

section Serving

variable {lib : CryptoLib} {srv : Server} {f client : CString} {p : Bytes}

/-- Contents that can be decrypted at all are shorter than 2³¹ bytes. -/
theorem Holds.length_lt (hlib : lib.Correct) (h : Holds lib srv f client p) :
    p.length < 2 ^ 31 := by
  rcases h with ⟨d, content, _, _, _, hdec⟩
  rcases decryptFile_eq_done hdec with ⟨iv, tag, _, hplain, _⟩
  -- the cipher is given the length of the file as an `int`
  have hlen := hlib.length_plaintext _ _ _ _ _ hplain
  have hlt := toInt_lt content.length
  rw [List.length_take] at hlen
  omega

/-- So the process survives every download of them. -/
theorem Holds.downloadCrashes_eq (hlib : lib.Correct) (h : Holds lib srv f client p)
    {req : RequestHeader} (hreq : req.filename = f) {other : CString} {env : DownloadEnv} :
    downloadCrashes lib srv req other env = false := by
  have hlt := h.length_lt hlib
  rcases h with ⟨_, content, _, hfile, hlen, _⟩
  refine Bool.eq_false_iff.2 fun hdies => ?_
  obtain ⟨_, content', hover⟩ := downloadCrashes_iff.1 hdies
  subst hreq
  cases hfile.symm.trans hover.file
  have hneg := hover.negative
  rw [toInt_of_lt (by omega) (by omega)] at hneg
  omega

/-- It depends on the key, the file and the document that is found. -/
theorem Holds.of_same {srv' : Server} (h : Holds lib srv f client p)
    (hcrypto : srv'.crypto = srv.crypto)
    (hfile : srv'.storage.get? (storagePath f) = srv.storage.get? (storagePath f))
    (hfound : (firstUpload? srv'.collection f).map Document.withoutProc =
      (firstUpload? srv.collection f).map Document.withoutProc) : Holds lib srv' f client p := by
  rcases h with ⟨d, content, hown, hcontent, hlen, hdec⟩
  rw [hown.found, Option.map_some] at hfound
  rcases Option.map_eq_some_iff.1 hfound with ⟨d', hd', hsame⟩
  refine ⟨d', content, ⟨hd', hown.safe, ?_⟩, hfile.trans hcontent, hlen, ?_⟩
  · rw [mayDownload_congr hsame]
    exact hown.may
  · rw [hcrypto, decryptFile_congr hsame]
    exact hdec

/-- A download changes nothing that another one depends on. -/
theorem Holds.handleDownload (h : Holds lib srv f client p) (req : RequestHeader)
    (other : CString) (env : DownloadEnv) :
    Holds lib (handleDownload lib srv req other env).1 f client p := by
  rcases handleDownload_server lib srv req other env with ⟨hcrypto, hstorage, _, hdocs⟩
  refine h.of_same hcrypto (by rw [hstorage]) ?_
  -- the event of a download goes into another document, or into the `proc` field
  rw [firstUpload?_map_withoutProc, hdocs, firstUpload?_map_withoutProc]

/-- The reply to a download by the owner: a refusal of the offset, or the rest of the file. -/
theorem Holds.reply (hlib : lib.Correct) (h : Holds lib srv f client p) {req : RequestHeader}
    (hreq : req.filename = f) {env : DownloadEnv} (henv : env.Works) :
    (FileExchange.handleDownload lib srv req client env).2 =
      if invalidOffset req.offset p.length then [.status .invalidOffset]
      else fileMessages p req.offset := by
  have hlt := h.length_lt hlib
  rcases h with ⟨d, content, hown, hfile, hlen, hdec⟩
  have hsize : content.length ≤ ptrdiffMax := by
    unfold ptrdiffMax
    omega
  subst hreq
  rcases decryptFile_eq_done hdec with ⟨_, _, _, _, hworks⟩
  rw [handleDownload_sent, hown.found, hfile, downloadReply_of_works henv hown.safe hsize,
    hown.may, hlen, hworks env.evp henv.evp]
  rfl

/-- The reply to an attempt: a refusal of the offset, or the length and the rest of the file. -/
theorem Attempt.wire_eq (hlib : lib.Correct) (h : Holds lib srv (headerFilename f) client p)
    (a : Attempt) :
    a.wire lib f client srv =
      if invalidOffset a.stack.offset p.length then (Message.status .invalidOffset).wire
      else (Message.response .success p.length).wire ++ p.drop a.stack.offset.toInt.toNat := by
  have hfilename : (downloadHeader a.stack f).filename = headerFilename f := rfl
  have hreply : (FileExchange.handleDownload lib srv (downloadHeader a.stack f) client a.env).2 =
      if invalidOffset a.stack.offset p.length then [.status .invalidOffset]
      else fileMessages p a.stack.offset := h.reply hlib hfilename a.works
  rw [Attempt.wire, hreply]
  cases hvalid : invalidOffset a.stack.offset p.length with
  | true =>
      simp
  | false =>
      by_cases hrest : (p.length : Int) - a.stack.offset.toInt > 0
      · have hmessages : fileMessages p a.stack.offset =
            [.response .success p.length, .payload (p.drop a.stack.offset.toInt.toNat)] := by
          simp only [fileMessages, hrest, if_true]
        simp [hmessages, Message.wire]
      · -- nothing is left from the offset on
        have hmessages : fileMessages p a.stack.offset = [.response .success p.length] := by
          simp only [fileMessages, hrest, if_false]
        have hdrop : p.drop a.stack.offset.toInt.toNat = [] :=
          List.drop_of_length_le (by omega)
        rw [hdrop]
        simp [hmessages]

end Serving

/-! ## One attempt -/

section OneAttempt

variable {lib : CryptoLib} {f client : CString} {p : Bytes} {s s' : Transfer} {a : Attempt}

/-- The bytes that arrive, when they are a whole response header and more. -/
theorem flatten_eq_of_prefix {header payload stream : Bytes}
    (h : stream <+: header ++ payload) (hlen : header.length ≤ stream.length) :
    stream = header ++ payload.take (stream.length - header.length) := by
  rcases h with ⟨rest, hrest⟩
  calc stream = (stream ++ rest).take stream.length := (List.take_left).symm
    _ = (header ++ payload).take stream.length := by rw [hrest]
    _ = header ++ payload.take (stream.length - header.length) := by
        rw [List.take_append, List.take_of_length_le hlen]

/-- A call that is told that the offset is wrong. -/
theorem downloadFileSsl_of_refused {saved : Option Bytes} {cut : Bool} {records : List Bytes}
    (h : records.flatten = (Message.status .invalidOffset).wire) :
    downloadFileSsl saved cut records = (saved.getD [], .returned (-1)) := by
  have hstream : records.flatten = (Message.response .invalidOffset 0).wire ++ [] := by
    rw [h, List.append_nil]
    rfl
  rw [downloadFileSsl_of_response le_rfl (by decide) hstream]
  simp

theorem arrives_of_step (hstep : attemptStep lib f client s a = some s') :
    a.Arrives lib f client s.server ∧
      s' =
        { server := (handleDownload lib s.server (downloadHeader a.stack f) client a.env).1
          saved := some (downloadFileSsl s.saved a.cut a.records).1 } := by
  unfold attemptStep at hstep
  split at hstep
  · next harrives =>
      exact ⟨harrives, (Option.some.inj hstep).symm⟩
  · cases hstep

theorem Attempt.Arrives.flatten_initial {srv : Server} (h : a.Arrives lib f client srv) :
    a.records.flatten <+: a.wire lib f client srv := by
  unfold Attempt.Arrives at h
  split at h
  · exact h
  · rw [h]

theorem Attempt.Arrives.flatten_eq {srv : Server} (h : a.Arrives lib f client srv)
    (hcut : a.cut = false) : a.records.flatten = a.wire lib f client srv := by
  simpa [Attempt.Arrives, hcut] using h

/-- What an attempt does when the server accepts the offset and its whole header arrives. -/
theorem attempt_of_accepted (hlib : lib.Correct)
    (hholds : Holds lib s.server (headerFilename f) client p)
    (hvalid : invalidOffset a.stack.offset p.length = false)
    (harrives : a.Arrives lib f client s.server)
    (hlen : responseHeaderSize ≤ a.records.flatten.length) :
    downloadFileSsl s.saved a.cut a.records =
      if p = [] then (s.saved.getD [], .returned (-1))
      else
        let arrived := (p.drop a.stack.offset.toInt.toNat).take
          (a.records.flatten.length - responseHeaderSize)
        let want := p.length - (s.saved.getD []).length
        (arrived.take want, if want ≤ arrived.length then .returned 0 else .atEnd a.cut) := by
  have hlt := hholds.length_lt hlib
  have hwire := a.wire_eq hlib hholds
  rw [hvalid] at hwire
  have hprefix := harrives.flatten_initial
  rw [hwire] at hprefix
  have hheader := Message.length_wire_response .success p.length
  have hstream := flatten_eq_of_prefix hprefix (by rw [hheader]; exact hlen)
  rw [hheader] at hstream
  rw [downloadFileSsl_of_response (by omega) (by omega) hstream]
  by_cases hempty : p = []
  · simp [hempty]
  · have hpos : ¬ ((p.length : Int) = 0) := by
      have hlength := List.length_pos_of_ne_nil hempty
      omega
    have hwant : ((p.length : Int) - ((s.saved.getD []).length : Int)).toNat =
        p.length - (s.saved.getD []).length := by omega
    simp only [hempty, hpos, ne_eq, not_true_eq_false, or_self, if_false, hwant]

/-- Less than a response header arrives. -/
theorem resumed_iff_harmless_of_short (hlib : lib.Correct)
    (hholds : Holds lib s.server (headerFilename f) client p) (hsaved : s.saved.getD [] <+: p)
    (harrives : a.Arrives lib f client s.server)
    (hshort : a.records.flatten.length < responseHeaderSize) : Resumed p s a ↔ Harmless p s a := by
  have hwire := a.wire_eq hlib hholds
  -- only a cut connection delivers so little
  have hcut : a.cut = true := by
    by_contra hcut
    have hlength := congrArg List.length (harrives.flatten_eq (by simpa using hcut))
    rw [hwire] at hlength
    split at hlength
    · have hheader := Message.length_wire_response .invalidOffset 0
      rw [Message.status] at hlength
      omega
    · have hheader := Message.length_wire_response .success p.length
      rw [List.length_append] at hlength
      omega
  rw [Resumed, Harmless, downloadFileSsl_of_short hshort, hcut]
  exact iff_of_true ⟨hsaved, le_rfl, by simp⟩ (Or.inl hshort)

theorem invalidOffset_iff (offset : Int64) (n : Nat) :
    invalidOffset offset n = true ↔ offset.toInt < 0 ∨ offset.toInt > n := by
  simp [invalidOffset]

/-- The server refuses the offset. -/
theorem resumed_iff_harmless_of_refused (hlib : lib.Correct)
    (hholds : Holds lib s.server (headerFilename f) client p) (hsaved : s.saved.getD [] <+: p)
    (harrives : a.Arrives lib f client s.server)
    (hwhole : responseHeaderSize ≤ a.records.flatten.length)
    (hvalid : invalidOffset a.stack.offset p.length = true) : Resumed p s a ↔ Harmless p s a := by
  have hk : (s.saved.getD []).length ≤ p.length := hsaved.length_le
  have hwire := a.wire_eq hlib hholds
  rw [hvalid, if_pos rfl] at hwire
  have hheader := Message.length_wire_response .invalidOffset 0
  have hprefix := harrives.flatten_initial
  rw [hwire] at hprefix
  have hstream : a.records.flatten = (Message.status .invalidOffset).wire :=
    hprefix.eq_of_length_le (by rw [Message.status]; omega)
  rw [Resumed, Harmless, downloadFileSsl_of_refused hstream]
  have hinvalid := (invalidOffset_iff _ _).1 hvalid
  cases hcut : a.cut with
  | false =>
      refine iff_of_false (fun h => ?_) (fun h => ?_)
      · exact absurd (Prod.mk.inj (h.2.2 rfl)).2 (by decide)
      · rcases h with ⟨_, hzero, _⟩
        omega
  | true =>
      refine iff_of_true ⟨hsaved, le_rfl, by simp⟩ ?_
      rcases hinvalid with hneg | hbig
      · exact Or.inr (Or.inl hneg)
      · exact Or.inr (Or.inr (Or.inl hbig))

/-- The server sends the file from the offset on. -/
theorem resumed_iff_harmless_of_accepted (hlib : lib.Correct)
    (hholds : Holds lib s.server (headerFilename f) client p) (hsaved : s.saved.getD [] <+: p)
    (harrives : a.Arrives lib f client s.server)
    (hwhole : responseHeaderSize ≤ a.records.flatten.length)
    (hvalid : invalidOffset a.stack.offset p.length = false) : Resumed p s a ↔ Harmless p s a := by
  have hwire := a.wire_eq hlib hholds
  have hcall := attempt_of_accepted hlib hholds hvalid harrives hwhole
  have haccepted : ¬ (a.stack.offset.toInt < 0 ∨ a.stack.offset.toInt > p.length) := by
    rw [← invalidOffset_iff, hvalid]
    simp
  by_cases hempty : p = []
  · -- the client takes an empty file for an error
    rw [if_pos hempty] at hcall
    rw [Resumed, Harmless, hcall]
    cases hcut : a.cut with
    | false =>
        refine iff_of_false (fun h => ?_) (fun h => h.2.2 hempty)
        exact absurd (Prod.mk.inj (h.2.2 rfl)).2 (by decide)
    | true =>
        exact iff_of_true ⟨hsaved, le_rfl, by simp⟩
          (Or.inr (Or.inr (Or.inr (Or.inl hempty))))
  rw [if_neg hempty] at hcall
  rw [Resumed, Harmless, hcall]
  cases hcut : a.cut with
  | true =>
      -- the bytes that arrive take the place of the old ones
      have hnot : ¬ a.records.flatten.length < responseHeaderSize := Nat.not_lt.2 hwhole
      simp only [if_true, List.take_take, Bool.true_eq_false, false_imp_iff, and_true,
        hnot, false_or, hempty]
      rw [min_comm]
      constructor
      · intro h
        exact Or.inr (Or.inr h)
      · rintro (hneg | hbig | h)
        · exact absurd (Or.inl hneg) haccepted
        · exact absurd (Or.inr hbig) haccepted
        · exact h
  | false =>
      have hstream := harrives.flatten_eq hcut
      rw [hwire, hvalid] at hstream
      have hlength := congrArg List.length hstream
      have hheader := Message.length_wire_response .success p.length
      simp only [Bool.false_eq_true, if_false, List.length_append, List.length_drop,
        hheader] at hlength
      -- everything arrives: the header and the file from the offset on
      have harrived : (p.drop a.stack.offset.toInt.toNat).take
          (a.records.flatten.length - responseHeaderSize) =
            p.drop a.stack.offset.toInt.toNat :=
        List.take_of_length_le (by rw [List.length_drop]; omega)
      have hpos := List.length_pos_of_ne_nil hempty
      simp only [harrived, Bool.false_eq_true, if_false, forall_const, ne_eq, hempty,
        not_false_eq_true, and_true]
      constructor
      · -- the whole of `p` fits only if it starts at 0 and nothing was there
        rintro ⟨_, _, hresult⟩
        have hfile := congrArg List.length (Prod.mk.inj hresult).1
        rw [List.length_take, List.length_drop] at hfile
        omega
      · rintro ⟨hnothing, hzero⟩
        simp [hnothing, hzero]

/-- An attempt does what it should if and only if it is harmless. -/
theorem resumed_iff_harmless (hlib : lib.Correct)
    (hholds : Holds lib s.server (headerFilename f) client p) (hsaved : s.saved.getD [] <+: p)
    (harrives : a.Arrives lib f client s.server) : Resumed p s a ↔ Harmless p s a := by
  by_cases hshort : a.records.flatten.length < responseHeaderSize
  · exact resumed_iff_harmless_of_short hlib hholds hsaved harrives hshort
  -- from here on the client has read a whole response header
  have hwhole : responseHeaderSize ≤ a.records.flatten.length := by omega
  cases hvalid : invalidOffset a.stack.offset p.length with
  | true => exact resumed_iff_harmless_of_refused hlib hholds hsaved harrives hwhole hvalid
  | false => exact resumed_iff_harmless_of_accepted hlib hholds hsaved harrives hwhole hvalid

end OneAttempt

/-! ## Runs of attempts -/

section Runs

variable {lib : CryptoLib} {f client : CString} {p : Bytes}

/-- The document of the first upload of a name. -/
theorem firstUpload?_serve_of_stored {srv : Server} {r : Request} {file : SealedFile}
    (halive : srv.alive = true) (hnew : firstUpload? srv.collection r.header.filename = none)
    (h : r.opens lib srv.crypto = some file) (hstored : file.isStored r.upload = true) :
    (firstUpload? (serve lib srv r).1.collection r.header.filename).map Document.withoutProc =
      some (file.document r.header r.client) := by
  have hnone := firstUpload?_map_withoutProc srv.collection r.header.filename
  rw [hnew, Option.map_none] at hnone
  -- there was no document of this name, so the new one is the first
  rw [firstUpload?_map_withoutProc, (serve_of_opens halive h).2.2.2.1, hstored, if_pos rfl,
    List.find?_append, ← hnone, Option.none_or]
  simp [SealedFile.document]

/-- A first upload of a name that stores its whole ciphertext makes the server hold what was
sent. -/
theorem holds_of_stored {srv : Server} {r : Request} {file : SealedFile} (hlib : lib.Correct)
    (halive : srv.alive = true) (hnew : firstUpload? srv.collection r.header.filename = none)
    (h : r.opens lib srv.crypto = some file) (hstored : file.isStored r.upload = true)
    (hleft : file.leftBytes r.upload.stdio = file.ciphertext)
    (hencrypted : (file.ciphertext, file.tag) =
      lib.encrypt srv.crypto.key file.iv.val (payload r.header r.incoming)) :
    Holds lib (serve lib srv r).1 r.header.filename r.client (payload r.header r.incoming) := by
  rcases serve_of_opens halive h with ⟨hcrypto, hstorage, _, _, _⟩
  rcases Prod.mk.inj hencrypted with ⟨hciphertext, htag⟩
  rcases Request.delivers_of_opens h with ⟨_, _, hdelivers⟩
  have hfirst := firstUpload?_serve_of_stored halive hnew h hstored
  rcases Option.map_eq_some_iff.1 hfirst with ⟨d, hd, hdoc⟩
  refine ⟨d, file.ciphertext, ⟨hd, safe_of_not_refused hdelivers.accepted, ?_⟩, ?_, ?_, ?_⟩
  · rw [mayDownload_of_document hdoc]
    exact decide_eq_true rfl
  · rw [hstorage, OrderedMap.get?_set_self, hleft]
  · rw [hciphertext, hlib.length_ciphertext]
  · rw [hcrypto, decryptFile_of_document hdoc (hdelivers.length_tag hlib) rfl
      (hdelivers.length_ciphertext_lt hlib), hciphertext, htag, hlib.decrypt_encrypt]
    rfl

theorem holds_of_upload {srv : Server} {r : Request} {file : SealedFile} (hlib : lib.Correct)
    (halive : srv.alive = true) (hnew : firstUpload? srv.collection r.header.filename = none)
    (hr : r.Works) (h : r.opens lib srv.crypto = some file) :
    Holds lib (serve lib srv r).1 r.header.filename r.client (payload r.header r.incoming) := by
  rcases hr.stores h with ⟨_, hstored, hleft, hencrypted⟩
  exact holds_of_stored hlib halive hnew h hstored hleft hencrypted

/-- In every run of attempts by the owner of a file, from a local file that holds its first
bytes: each attempt leaves a prefix that is not shorter, and a complete one the whole file, if
and only if each attempt is harmless. -/
theorem resumed_iff {s : Transfer} (hlib : lib.Correct)
    (hholds : Holds lib s.server (headerFilename f) client p) (hsaved : s.saved.getD [] <+: p)
    (as : List Attempt) :
    (downloads lib f client).EachStep (Resumed p) s as ↔
      (downloads lib f client).EachStep (Harmless p) s as := by
  refine (downloads lib f client).eachStep_congr
    (fun s => Holds lib s.server (headerFilename f) client p ∧ s.saved.getD [] <+: p)
    ?_ ?_ ⟨hholds, hsaved⟩
  -- as long as every attempt was fine, the local file is a prefix of `p`
  · rintro s a s' ⟨hs, hprefix⟩ hstep
    exact resumed_iff_harmless hlib hs hprefix (arrives_of_step hstep).1
  · rintro s a s' ⟨hs, _⟩ hresumed hstep
    rcases arrives_of_step hstep with ⟨_, rfl⟩
    exact ⟨hs.handleDownload _ _ _, hresumed.1⟩

end Runs

/-! ## One file -/

/-- A complete attempt to download "a", with `offset` in the field that the client does not
assign, when `bytes` arrive after the header. -/
def sampleAttempt (offset : Int64) (bytes : Bytes) : Attempt where
  stack := { RequestHeader.announcing [] [] [] [] with offset := offset }
  env := DownloadEnv.ok 0
  works := DownloadEnv.works_ok 0
  records := [(Message.response .success 2).wire, bytes]
  cut := false

theorem afterAlice_holds :
    Holds sampleLib afterAlice (headerFilename (ascii "a")) (ascii "alice") (ascii "hi") := by
  have hopens : ∃ file, aliceUpload.opens sampleLib
      (Server.started sampleKey OrderedMap.empty []).crypto = some file :=
    Option.isSome_iff_exists.1 (by decide)
  rcases hopens with ⟨file, hfile⟩
  exact holds_of_upload sampleLib_correct rfl rfl (Request.works_uploading (by decide)) hfile

/-- A first attempt, with 0 in the field. -/
theorem resumed_from_nothing :
    (downloads sampleLib (ascii "a") (ascii "alice")).EachStep (Resumed (ascii "hi"))
      { server := afterAlice, saved := none } [sampleAttempt 0 (ascii "hi")] := by
  have hharmless : (downloads sampleLib (ascii "a") (ascii "alice")).EachStep
      (Harmless (ascii "hi")) { server := afterAlice, saved := none }
      [sampleAttempt 0 (ascii "hi")] := by decide
  exact (resumed_iff (s := { server := afterAlice, saved := none }) sampleLib_correct
    afterAlice_holds List.nil_prefix _).2 hharmless

/-- One byte of "hi" is there, and the field happens to say so: the server sends the other one,
and the client puts it in the place of the first. -/
theorem resumed_loses_first_byte :
    let s : Transfer := { server := afterAlice, saved := some (ascii "h") }
    let a := sampleAttempt 1 (ascii "i")
    Holds sampleLib s.server (headerFilename (ascii "a")) (ascii "alice") (ascii "hi") ∧
      ((attemptStep sampleLib (ascii "a") (ascii "alice") s a).map Transfer.saved) =
        some (some (ascii "i")) ∧
      (downloadFileSsl s.saved a.cut a.records).2 = .returned 0 ∧
      ¬ (downloads sampleLib (ascii "a") (ascii "alice")).EachStep (Resumed (ascii "hi")) s
        [a] := by
  refine ⟨afterAlice_holds, by decide, by decide, by decide⟩

end FileExchange
