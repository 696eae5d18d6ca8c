import FileExchange.Client.Download
import FileExchange.Lib.Memory
import FileExchange.Server.Filename

/-!
# Client.Header — the request headers of `client.c`

The three operations fill a `RequestHeader` on the stack, field by field, and send all of it.

* `ClientCall.stores` : the assignments of an operation, unless it returns before it sends;
* `ofBytes_upload`, `ofBytes_download` : the header as the server reads it;
* `readsFaithfully_iff` : it carries the names that were given if and only if they fit;
* `sentHeader_eq_iff`   : which bytes of the earlier stack contents are sent.
-/

namespace FileExchange

open Lib Lib.Memory

/-! ## The assignments -/

/-- The memory of `header` before the first assignment. -/
abbrev HeaderMemory := { mem : Bytes // mem.length = requestHeaderSize }

/-- `header.command = command`. -/
def commandStore (command : Nat) : Store UInt8 :=
  { addr := 0, data := leBytes 4 command }

/-- `strncpy(field, s, n)` and `field[n] = '\0'`. -/
def stringStores (addr n : Nat) (s : CString) : List (Store UInt8) :=
  [{ addr := addr, data := strncpy s n }, { addr := addr + n, data := [0] }]

def filenameStores (remoteFilename : CString) : List (Store UInt8) :=
  stringStores 4 (filenameMaxLen - 1) remoteFilename

/-- `header.filesize = filesize`. -/
def filesizeStore (filesize : Int64) : Store UInt8 :=
  { addr := 264, data := leBytes 8 (toSizeT filesize.toInt) }

/-- `memcpy(header.file_hash, file_hash, BLAKE3_HASH_LEN)`. -/
def hashStore (hash : Digest) : Store UInt8 :=
  { addr := 281, data := hash.val }

/-- `memset` of the field, and the recipient if there is one. -/
def recipientStores (recipient : CString) : List (Store UInt8) :=
  { addr := 313, data := List.replicate fingerprintLen 0 } ::
    if recipient ≠ [] then stringStores 313 (fingerprintLen - 1) recipient else []

/-- What `upload_file_ssl` finds at its local path: the size that `stat` tells, whether the file
opens, and the hash unless `compute_file_blake3` fails. -/
structure LocalFile where
  size : Option Int64
  opened : Bool
  hash : Option Digest
  deriving DecidableEq, Repr

/-- Whether `fopen`, `fseek` and `ftell` of `download_file_ssl` succeed. -/
structure LocalTarget where
  opened : Bool
  sought : Bool
  told : Bool
  deriving DecidableEq, Repr

/-- Command, name and size. -/
def requestStores (command : Nat) (remoteFilename : CString) (filesize : Int64) :
    List (Store UInt8) :=
  commandStore command :: filenameStores remoteFilename ++ [filesizeStore filesize]

def uploadStores (filesize : Int64) (hash : Digest) (remoteFilename recipient : CString) :
    List (Store UInt8) :=
  requestStores 0 remoteFilename filesize ++ recipientStores recipient ++
    -- assigned once more after the hash is computed
    requestStores 0 remoteFilename filesize ++ [hashStore hash]

def downloadStores (remoteFilename : CString) : List (Store UInt8) :=
  requestStores 1 remoteFilename 0

/-- Only the first byte of the name is assigned. -/
def listStores : List (Store UInt8) :=
  [commandStore 2, { addr := 4, data := [0] }, filesizeStore 0]

/-- A call of one of the three operations; no recipient is the empty one. -/
inductive ClientCall
  | upload (file : LocalFile) (remoteFilename recipient : CString)
  | download (target : LocalTarget) (remoteFilename : CString)
  | list
  deriving DecidableEq, Repr

namespace ClientCall

/-- The assignments up to `ssl_send_all` of the header, if the call gets that far. -/
def stores : ClientCall → Option (List (Store UInt8))
  | upload file remoteFilename recipient =>
      match file.size with
      | none => none
      | some filesize =>
          if !file.opened then none
          else
            match file.hash with
            | none => none
            | some hash => some (uploadStores filesize hash remoteFilename recipient)
  | download target remoteFilename =>
      if !target.opened then none
      else if !target.sought then none
      else if !target.told then none
      else some (downloadStores remoteFilename)
  | list => some listStores

/-- The 384 bytes that are sent. -/
def sentHeader (stack : HeaderMemory) (call : ClientCall) : Option Bytes :=
  call.stores.map (storeAll stack.val)

end ClientCall

/-! ## Fields -/

section Fields

variable {mem : Bytes} {addr n size : Nat} {s : CString}

/-- A string field holds what was copied to it, if nothing is stored to it afterwards. -/
theorem load_stringStores {pre post : List (Store UInt8)}
    (h : Fit (pre ++ stringStores addr n s ++ post) mem.length)
    (hout : ∀ i, addr ≤ i → i < addr + (n + 1) → ¬ Covered post i) :
    load (storeAll mem (pre ++ stringStores addr n s ++ post)) addr (n + 1) =
      strncpy s n ++ [0] := by
  have hseries : pre ++ stringStores addr n s ++ post =
      pre ++ Store.mk addr (strncpy s n) :: (Store.mk (addr + n) [0] :: post) := by
    simp [stringStores]
  have hseries' : pre ++ stringStores addr n s ++ post =
      pre ++ [Store.mk addr (strncpy s n)] ++ Store.mk (addr + n) [0] :: post := by
    simp [stringStores]
  -- the copy stays when the NUL is put behind it
  have hcopy : load (storeAll mem (pre ++ stringStores addr n s ++ post)) addr n = strncpy s n := by
    have hlast := @load_storeAll_of_last _ mem (Store.mk addr (strncpy s n)) pre
      (Store.mk (addr + n) [0] :: post) (hseries ▸ h) (by
        intro i hi hlt
        rw [stop_mk, length_strncpy] at hlt
        rw [covered_cons, not_or]
        exact ⟨fun hcover => absurd hcover.1 (Nat.not_le.2 hlt), hout i hi (by omega)⟩)
    rwa [length_strncpy, ← hseries] at hlast
  have hnul : load (storeAll mem (pre ++ stringStores addr n s ++ post)) (addr + n) 1 = [0] := by
    rw [hseries']
    refine load_storeAll_of_last (hseries' ▸ h) fun i hi hlt => ?_
    exact hout i ((Nat.le_add_right _ _).trans hi) hlt
  rw [load_add, hcopy, hnul]

/-- Such a field is read as the first bytes of the string. -/
theorem cstringAt_of_load (hs : 0 ∉ s) (hfield : addr + (n + 1) ≤ mem.length)
    (h : load mem addr (n + 1) = strncpy s n ++ [0]) (after : Bytes) :
    cstringAt (mem ++ after) addr = s.take n := by
  have hdrop : (mem ++ after).drop addr =
      strncpy s n ++ 0 :: (mem.drop (addr + (n + 1)) ++ after) := by
    rw [List.drop_append_of_le_length (by omega), ← List.take_append_drop (n + 1) (mem.drop addr),
      List.drop_drop]
    rw [load] at h
    rw [h, List.append_assoc, List.append_assoc, List.singleton_append]
  rw [cstringAt, hdrop, takeWhile_strncpy hs]

end Fields

/-! ## What the server reads -/

section Read

variable (stack : HeaderMemory) (after : Bytes) (filesize : Int64) (hash : Digest)
  {remoteFilename recipient : CString}

/-- Writing a size and reading it back. -/
theorem ofNat_leNat_leBytes (n : Int64) :
    Int64.ofNat (leNat (leBytes 8 (toSizeT n.toInt))) = n := by
  have hlow := Int64.le_toInt n
  have hhigh := Int64.toInt_lt n
  have hsize : ((toSizeT n.toInt : Nat) : Int) = n.toInt % 2 ^ 64 := by
    unfold toSizeT
    omega
  rw [leNat_leBytes (by unfold toSizeT; omega)]
  refine Int64.toInt_inj.1 ?_
  rw [Int64.toInt_ofNat', hsize]
  refine (Int.emod_bmod n.toInt (2 ^ 64)).trans ?_
  exact Int.bmod_eq_of_le (by omega) (by omega)

/-- The cells that an upload sets. -/
theorem covered_uploadStores (remoteFilename recipient : CString) (i : Nat) :
    Covered (uploadStores filesize hash remoteFilename recipient) i ↔
      i < 260 ∨ (264 ≤ i ∧ i < 272) ∨ (281 ≤ i ∧ i < 378) := by
  by_cases hrecipient : recipient = []
  · simp [uploadStores, requestStores, commandStore, filenameStores, stringStores, filesizeStore,
      hashStore, recipientStores, hrecipient, length_leBytes, length_strncpy, hash.property,
      filenameMaxLen, fingerprintLen]
    omega
  · simp [uploadStores, requestStores, commandStore, filenameStores, stringStores, filesizeStore,
      hashStore, recipientStores, hrecipient, length_leBytes, length_strncpy, hash.property,
      filenameMaxLen, fingerprintLen]
    omega

theorem covered_downloadStores (remoteFilename : CString) (i : Nat) :
    Covered (downloadStores remoteFilename) i ↔ i < 260 ∨ (264 ≤ i ∧ i < 272) := by
  simp [downloadStores, requestStores, commandStore, filenameStores, stringStores, filesizeStore,
    length_leBytes, length_strncpy, filenameMaxLen]
  omega

theorem covered_listStores (i : Nat) :
    Covered listStores i ↔ i < 5 ∨ (264 ≤ i ∧ i < 272) := by
  simp [listStores, commandStore, filesizeStore, length_leBytes]
  omega

theorem fit_uploadStores (remoteFilename recipient : CString) :
    Fit (uploadStores filesize hash remoteFilename recipient) stack.val.length := by
  rw [stack.property]
  by_cases hrecipient : recipient = []
  · simp [Fit, uploadStores, requestStores, commandStore, filenameStores, stringStores,
      filesizeStore, hashStore, recipientStores, hrecipient, length_leBytes, length_strncpy,
      hash.property, filenameMaxLen, fingerprintLen, requestHeaderSize]
  · simp [Fit, uploadStores, requestStores, commandStore, filenameStores, stringStores,
      filesizeStore, hashStore, recipientStores, hrecipient, length_leBytes, length_strncpy,
      hash.property, filenameMaxLen, fingerprintLen, requestHeaderSize]

theorem fit_downloadStores (remoteFilename : CString) :
    Fit (downloadStores remoteFilename) stack.val.length := by
  rw [stack.property]
  simp [Fit, downloadStores, requestStores, commandStore, filenameStores, stringStores,
    filesizeStore, length_leBytes, length_strncpy, filenameMaxLen, requestHeaderSize]

theorem fit_listStores : Fit listStores stack.val.length := by
  rw [stack.property]
  simp [Fit, listStores, commandStore, filesizeStore, length_leBytes, requestHeaderSize]

/-- The three fields that uploads and downloads have in common, if nothing is stored to them
afterwards. -/
theorem load_requestStores {command : Nat} {pre post : List (Store UInt8)}
    (h : Fit (pre ++ requestStores command remoteFilename filesize ++ post) stack.val.length)
    (hout : ∀ i, i < 272 → ¬ Covered post i) :
    let header :=
      storeAll stack.val (pre ++ requestStores command remoteFilename filesize ++ post)
    load header 0 4 = leBytes 4 command ∧
      load header 4 (filenameMaxLen - 1 + 1) =
        strncpy remoteFilename (filenameMaxLen - 1) ++ [0] ∧
      load header 264 8 = leBytes 8 (toSizeT filesize.toInt) := by
  have hcommand : pre ++ requestStores command remoteFilename filesize ++ post =
      pre ++ commandStore command ::
        (filenameStores remoteFilename ++ filesizeStore filesize :: post) := by
    simp [requestStores]
  have hname : pre ++ requestStores command remoteFilename filesize ++ post =
      pre ++ [commandStore command] ++ stringStores 4 (filenameMaxLen - 1) remoteFilename ++
        filesizeStore filesize :: post := by
    simp [requestStores, filenameStores]
  have hsize : pre ++ requestStores command remoteFilename filesize ++ post =
      pre ++ commandStore command :: filenameStores remoteFilename ++
        filesizeStore filesize :: post := by
    simp [requestStores]
  dsimp only
  refine ⟨?_, ?_, ?_⟩
  · rw [hcommand] at h ⊢
    refine load_storeAll_of_last h fun i _ hi => ?_
    have hlt : i < 4 := by
      simpa [commandStore, length_leBytes] using hi
    have hpost : ¬ Covered post i := hout i (by omega)
    simp [filenameStores, stringStores, filesizeStore, hpost]
    omega
  · rw [hname] at h ⊢
    refine load_stringStores h fun i _ hi => ?_
    have hlt : i < 260 := hi
    have hpost : ¬ Covered post i := hout i (by omega)
    simp [filesizeStore, hpost]
    omega
  · rw [hsize] at h ⊢
    refine load_storeAll_of_last h fun i _ hi => ?_
    simp [filesizeStore, length_leBytes] at hi
    exact hout i hi

/-- The recipient, if nothing is stored to it afterwards: without one the field is zero. -/
theorem load_recipientStores {pre post : List (Store UInt8)}
    (h : Fit (pre ++ recipientStores recipient ++ post) stack.val.length)
    (hout : ∀ i, 313 ≤ i → i < 378 → ¬ Covered post i) :
    load (storeAll stack.val (pre ++ recipientStores recipient ++ post)) 313
        (fingerprintLen - 1 + 1) =
      strncpy recipient (fingerprintLen - 1) ++ [0] := by
  by_cases hrecipient : recipient = []
  · have hseries : pre ++ recipientStores recipient ++ post =
        pre ++ Store.mk 313 (List.replicate fingerprintLen 0) :: post := by
      simp [recipientStores, hrecipient]
    rw [hseries] at h ⊢
    have hlast := load_storeAll_of_last h fun i hi hlt => hout i hi hlt
    rw [List.length_replicate] at hlast
    rw [hrecipient]
    exact hlast
  · have hseries : pre ++ recipientStores recipient ++ post =
        pre ++ [Store.mk 313 (List.replicate fingerprintLen 0)] ++
          stringStores 313 (fingerprintLen - 1) recipient ++ post := by
      simp [recipientStores, hrecipient]
    rw [hseries] at h ⊢
    exact load_stringStores h fun i hi hlt => hout i hi hlt

/-- The server reads the numbers and the hash from the 384 bytes, and the strings from there on. -/
theorem ofBytes_eq_load {mem : Bytes} (hlen : mem.length = 384) (after : Bytes) :
    RequestHeader.ofBytes (mem ++ after) =
      { command := CommandType.ofCode (leNat (load mem 0 4))
        filename := cstringAt (mem ++ after) 4
        filesize := Int64.ofNat (leNat (load mem 264 8))
        offset := Int64.ofNat (leNat (load mem 272 8))
        flags := (load mem 280 1).headD 0
        fileHash := load mem 281 32
        recipient := cstringAt (mem ++ after) 313 } := by
  have hslice : ∀ addr size, addr + size ≤ 384 →
      slice (mem ++ after) addr size = load mem addr size := fun addr size h =>
    slice_append (hlen.symm ▸ h)
  rw [RequestHeader.ofBytes, hslice 0 4 (by decide), hslice 264 8 (by decide),
    hslice 272 8 (by decide), hslice 280 1 (by decide), hslice 281 32 (by decide)]

/-- What the server reads of an upload request. -/
theorem ofBytes_upload (hname : 0 ∉ remoteFilename) (hrecipient : 0 ∉ recipient) :
    RequestHeader.ofBytes
        (storeAll stack.val (uploadStores filesize hash remoteFilename recipient) ++ after) =
      { RequestHeader.ofBytes (stack.val ++ after) with
          command := .upload
          filename := headerFilename remoteFilename
          filesize := filesize
          fileHash := hash.val
          recipient := recipient.take (fingerprintLen - 1) } := by
  have hfit := fit_uploadStores stack filesize hash remoteFilename recipient
  have hcovered := covered_uploadStores filesize hash remoteFilename recipient
  -- the fields that are assigned, by the last assignment of each
  have hrequest := @load_requestStores stack filesize remoteFilename 0
    (requestStores 0 remoteFilename filesize ++ recipientStores recipient) [hashStore hash] hfit
    (by
      intro i hi
      simp [hashStore]
      omega)
  have hhash := @load_storeAll_of_last _ stack.val (hashStore hash) _ [] hfit (by simp)
  have hassoc : uploadStores filesize hash remoteFilename recipient =
      requestStores 0 remoteFilename filesize ++ recipientStores recipient ++
        (requestStores 0 remoteFilename filesize ++ [hashStore hash]) :=
    List.append_assoc _ _ _
  have hfield := @load_recipientStores stack recipient (requestStores 0 remoteFilename filesize)
    (requestStores 0 remoteFilename filesize ++ [hashStore hash]) (hassoc ▸ hfit)
    (by
      intro i hi hlt
      simp [requestStores, commandStore, filenameStores, stringStores, filesizeStore, hashStore,
        length_leBytes, length_strncpy, hash.property, filenameMaxLen]
      omega)
  -- the fields that are not
  have hstack : ∀ addr size, 272 ≤ addr → addr + size ≤ 281 →
      load (storeAll stack.val (uploadStores filesize hash remoteFilename recipient)) addr size =
        load stack.val addr size := by
    intro addr size hlow hhigh
    refine load_storeAll_of_not_covered hfit fun i hi hlt => ?_
    rw [hcovered]
    omega
  rw [← hassoc] at hfield
  change load (storeAll stack.val (uploadStores filesize hash remoteFilename recipient)) 0 4 = _ ∧
    load (storeAll stack.val (uploadStores filesize hash remoteFilename recipient)) 4 _ = _ ∧
    load (storeAll stack.val (uploadStores filesize hash remoteFilename recipient)) 264 8 = _
    at hrequest
  change load (storeAll stack.val (uploadStores filesize hash remoteFilename recipient)) 281 _ = _
    at hhash
  rw [show (hashStore hash).data.length = 32 from hash.property] at hhash
  have hlen := (length_storeAll hfit).trans stack.property
  generalize storeAll stack.val (uploadStores filesize hash remoteFilename recipient) = header at *
  rw [ofBytes_eq_load hlen, ofBytes_eq_load stack.property, hhash, hstack 272 8 (by decide)
    (by decide), hstack 280 1 (by decide) (by decide),
    cstringAt_of_load hname (by rw [hlen]; decide) hrequest.2.1,
    cstringAt_of_load hrecipient (by rw [hlen]; decide) hfield, hrequest.1, hrequest.2.2,
    ofNat_leNat_leBytes]
  rfl

/-- What the server reads of a download request: the call leaves the rest to the stack. -/
theorem ofBytes_download (hname : 0 ∉ remoteFilename) :
    RequestHeader.ofBytes (storeAll stack.val (downloadStores remoteFilename) ++ after) =
      downloadHeader (RequestHeader.ofBytes (stack.val ++ after)) remoteFilename := by
  have hfit := fit_downloadStores stack remoteFilename
  have hcovered := covered_downloadStores remoteFilename
  have hrequest := @load_requestStores stack 0 remoteFilename 1 [] [] (by
    rw [List.nil_append, List.append_nil]
    exact hfit) (by simp)
  rw [List.nil_append, List.append_nil] at hrequest
  change load (storeAll stack.val (downloadStores remoteFilename)) 0 4 = _ ∧
    load (storeAll stack.val (downloadStores remoteFilename)) 4 _ = _ ∧
    load (storeAll stack.val (downloadStores remoteFilename)) 264 8 = _ at hrequest
  have hstack : ∀ addr size, 272 ≤ addr →
      load (storeAll stack.val (downloadStores remoteFilename)) addr size =
        load stack.val addr size := by
    intro addr size hlow
    refine load_storeAll_of_not_covered hfit fun i hi _ => ?_
    rw [hcovered]
    omega
  have hlen := (length_storeAll hfit).trans stack.property
  generalize storeAll stack.val (downloadStores remoteFilename) = header at *
  -- the recipient is whatever stands there
  have hrecipient : cstringAt (header ++ after) 313 = cstringAt (stack.val ++ after) 313 := by
    have hdrop : header.drop 313 = stack.val.drop 313 := by
      have hload := hstack 313 71 (by decide)
      rwa [load, load, List.take_of_length_le (by rw [List.length_drop, hlen]; decide),
        List.take_of_length_le (by rw [List.length_drop, stack.property]; decide)] at hload
    rw [cstringAt, cstringAt, List.drop_append_of_le_length (by rw [hlen]; decide), hdrop,
      List.drop_append_of_le_length (by rw [stack.property]; decide)]
  rw [ofBytes_eq_load hlen, ofBytes_eq_load stack.property, hstack 272 8 le_rfl,
    hstack 280 1 (by decide), hstack 281 32 (by decide), hrecipient,
    cstringAt_of_load hname (by rw [hlen]; decide) hrequest.2.1, hrequest.1, hrequest.2.2,
    ofNat_leNat_leBytes]
  rfl

end Read

/-- What the server reads of a list request: no filename. -/
theorem cstringAt_list (stack : HeaderMemory) (after : Bytes) :
    cstringAt (storeAll stack.val listStores ++ after) 4 = [] := by
  have hfit := fit_listStores stack
  have hlen := (length_storeAll hfit).trans stack.property
  have hnul : load (storeAll stack.val listStores) 4 (0 + 1) = strncpy [] 0 ++ [0] :=
    @load_storeAll_of_last _ stack.val { addr := 4, data := [0] } [commandStore 2]
      [filesizeStore 0] hfit (by
        intro i hi hlt
        simp at hlt
        simp [filesizeStore]
        omega)
  exact cstringAt_of_load (by simp) (by rw [hlen]; decide) hnul after

/-! ## The names -/

namespace ClientCall

def remoteFilename : ClientCall → CString
  | upload _ remoteFilename _ => remoteFilename
  | download _ remoteFilename => remoteFilename
  | list => []

def recipient? : ClientCall → Option CString
  | upload _ _ recipient => some recipient
  | _ => none

/-- The arguments are C strings. -/
def NoNul (call : ClientCall) : Prop :=
  0 ∉ call.remoteFilename ∧ ∀ recipient ∈ call.recipient?, 0 ∉ recipient

/-- They fit into their fields. -/
def Fits (call : ClientCall) : Prop :=
  call.remoteFilename.length < filenameMaxLen ∧
    ∀ recipient ∈ call.recipient?, recipient.length < fingerprintLen

/-- The filename and, of an upload, the recipient that the server reads. -/
def readStrings (stack : HeaderMemory) (after : Bytes) (call : ClientCall) :
    Option (CString × Option CString) :=
  (call.sentHeader stack).map fun header =>
    let req := RequestHeader.ofBytes (header ++ after)
    (req.filename, call.recipient?.map fun _ => req.recipient)

/-- If anything is sent, the server reads what was given. -/
def ReadsFaithfully (stack : HeaderMemory) (after : Bytes) (call : ClientCall) : Prop :=
  ∀ read, call.readStrings stack after = some read →
    read = (call.remoteFilename, call.recipient?)

/-- The same header strings stand for the same names and the same recipients. -/
def KeptApart (read read' : CString × Option CString) (call call' : ClientCall) : Prop :=
  (read.1 = read'.1 → call.remoteFilename = call'.remoteFilename) ∧
    ∀ recipient ∈ call.recipient?, ∀ recipient' ∈ call'.recipient?,
      read.2 = read'.2 → recipient = recipient'

section Names

variable {stack stack' : HeaderMemory} {after after' : Bytes} {call call' : ClientCall}

/-- The server reads the first 255 and the first 64 bytes. -/
theorem readStrings_eq (hcall : call.NoNul) :
    call.readStrings stack after =
      call.stores.map fun _ =>
        (headerFilename call.remoteFilename,
          call.recipient?.map (·.take (fingerprintLen - 1))) := by
  cases call with
  | upload file remoteFilename recipient =>
      have hname : 0 ∉ remoteFilename := hcall.1
      have hrecipient : 0 ∉ recipient := hcall.2 recipient rfl
      cases hsize : file.size with
      | none =>
          simp [readStrings, sentHeader, stores, hsize]
      | some filesize =>
          cases hopened : file.opened with
          | false =>
              simp [readStrings, sentHeader, stores, hsize, hopened]
          | true =>
              cases hhash : file.hash with
              | none =>
                  simp [readStrings, sentHeader, stores, hsize, hopened, hhash]
              | some hash =>
                  simp [readStrings, sentHeader, stores, hsize, hopened, hhash,
                    ofBytes_upload stack after filesize hash hname hrecipient,
                    ClientCall.remoteFilename, recipient?]
  | download target remoteFilename =>
      have hname : 0 ∉ remoteFilename := hcall.1
      have hread := ofBytes_download stack after hname
      cases hopened : target.opened <;> cases hsought : target.sought <;>
        cases htold : target.told <;>
          simp [readStrings, sentHeader, stores, hopened, hsought, htold, hread, downloadHeader,
            ClientCall.remoteFilename, recipient?]
  | list =>
      have hread := cstringAt_list stack after
      simp [readStrings, sentHeader, stores, RequestHeader.ofBytes, hread,
        ClientCall.remoteFilename, recipient?, headerFilename]

theorem readsFaithfully_iff (hcall : call.NoNul) :
    call.ReadsFaithfully stack after ↔ call.stores = none ∨ call.Fits := by
  have hname : headerFilename call.remoteFilename = call.remoteFilename ↔
      call.remoteFilename.length < filenameMaxLen := by
    rw [headerFilename, List.take_eq_self_iff]
    unfold filenameMaxLen
    omega
  have hrecipient : call.recipient?.map (·.take (fingerprintLen - 1)) = call.recipient? ↔
      ∀ recipient ∈ call.recipient?, recipient.length < fingerprintLen := by
    cases call.recipient? with
    | none =>
        simp
    | some recipient =>
        have hlength : recipient.length ≤ fingerprintLen - 1 ↔ recipient.length < fingerprintLen :=
          Nat.lt_succ_iff.symm
        simp [hlength]
  rw [ReadsFaithfully, readStrings_eq hcall]
  cases hstores : call.stores with
  | none =>
      simp
  | some ss =>
      simp only [Option.map_some, Option.some.injEq, forall_eq', Prod.mk.injEq, hname, hrecipient,
        reduceCtorEq, false_or, Fits]

/-- For every two calls: the server reads the names that were given, and different names never as
the same strings, if and only if each call refuses before it sends or its names fit into their
fields. -/
theorem readsFaithfully_and_keptApart_iff (hcall : call.NoNul) (hcall' : call'.NoNul) :
    (call.ReadsFaithfully stack after ∧ call'.ReadsFaithfully stack' after' ∧
        ∀ read read', call.readStrings stack after = some read →
          call'.readStrings stack' after' = some read' → KeptApart read read' call call') ↔
      (call.stores = none ∨ call.Fits) ∧ (call'.stores = none ∨ call'.Fits) := by
  rw [← @readsFaithfully_iff stack after call hcall,
    ← @readsFaithfully_iff stack' after' call' hcall']
  refine ⟨fun h => ⟨h.1, h.2.1⟩, fun h => ⟨h.1, h.2, ?_⟩⟩
  intro read read' hread hread'
  have hsame := h.1 read hread
  have hsame' := h.2 read' hread'
  subst hsame hsame'
  refine ⟨fun heq => heq, ?_⟩
  intro recipient hmem recipient' hmem' heq
  rw [Option.mem_def] at hmem hmem'
  simpa [hmem, hmem'] using heq

end Names

end ClientCall

/-- What the client finds at the path of a file of two bytes. -/
def smallFile : LocalFile :=
  { size := some 2, opened := true, hash := some ⟨List.replicate 32 7, rfl⟩ }

/-- A stack that is zero before the call. -/
def blankStack : HeaderMemory :=
  ⟨List.replicate 384 0, List.length_replicate⟩

/-- An upload for a recipient and a download of another name. -/
theorem readsFaithfully_a_b :
    let call := ClientCall.upload smallFile (ascii "a") (List.replicate 64 97)
    let call' := ClientCall.download ⟨true, true, true⟩ (ascii "b")
    call.ReadsFaithfully blankStack [] ∧ call'.ReadsFaithfully blankStack [] ∧
      ∀ read read', call.readStrings blankStack [] = some read →
        call'.readStrings blankStack [] = some read' →
          ClientCall.KeptApart read read' call call' := by
  intro call call'
  have hnul : call.NoNul := by
    refine ⟨by decide, fun recipient hmem => ?_⟩
    cases hmem
    decide
  have hnul' : call'.NoNul := by
    refine ⟨by decide, fun recipient hmem => ?_⟩
    cases hmem
  refine (ClientCall.readsFaithfully_and_keptApart_iff hnul hnul').2 ⟨Or.inr ⟨by decide, ?_⟩,
    Or.inr ⟨by decide, ?_⟩⟩
  · intro recipient hmem
    cases hmem
    exact (List.length_replicate).trans_lt (by decide)
  · intro recipient hmem
    cases hmem

set_option maxRecDepth 10000 in
/-- Two uploads whose names agree in the first 255 letters, and whose recipients agree in the
first 64, are sent with the same strings. -/
theorem not_keptApart_long_names :
    let call := ClientCall.upload smallFile (List.replicate 255 97 ++ [98])
      (List.replicate 64 97 ++ [98])
    let call' := ClientCall.upload smallFile (List.replicate 255 97 ++ [99])
      (List.replicate 64 97 ++ [99])
    let read := (List.replicate 255 97, some (List.replicate 64 97))
    call.readStrings blankStack [] = some read ∧ call'.readStrings blankStack [] = some read ∧
      ¬ ClientCall.KeptApart read read call call' ∧
      ¬ call.ReadsFaithfully blankStack [] ∧ ¬ call'.ReadsFaithfully blankStack [] := by
  intro call call' read
  have hnul : call.NoNul := by
    refine ⟨by decide, fun recipient hmem => ?_⟩
    cases hmem
    decide
  have hnul' : call'.NoNul := by
    refine ⟨by decide, fun recipient hmem => ?_⟩
    cases hmem
    decide
  have hread : call.readStrings blankStack [] = some read := by
    rw [ClientCall.readStrings_eq hnul]
    decide
  have hread' : call'.readStrings blankStack [] = some read := by
    rw [ClientCall.readStrings_eq hnul']
    decide
  refine ⟨hread, hread', ?_, ?_, ?_⟩
  · intro hapart
    exact absurd (hapart.1 rfl) (by decide)
  · intro hfaithful
    exact absurd (congrArg Prod.fst (hfaithful read hread)) (by decide)
  · intro hfaithful
    exact absurd (congrArg Prod.fst (hfaithful read hread')) (by decide)

/-! ## What is not assigned -/

namespace ClientCall

/-- The bytes that a call leaves as they were: padding, and fields that it does not fill. -/
def unset : ClientCall → Nat → Bool
  -- padding, `offset` and `flags`, padding
  | upload _ _ _, i => (260 ≤ i && i < 264) || (272 ≤ i && i < 281) || (378 ≤ i && i < 384)
  -- padding, and everything from `offset` on
  | download _ _, i => (260 ≤ i && i < 264) || (272 ≤ i && i < 384)
  -- and all of the name but its first byte
  | list, i => (5 ≤ i && i < 264) || (272 ≤ i && i < 384)

variable {call : ClientCall} {ss : List (Store UInt8)}

/-- What is assigned when a call gets to send. -/
theorem stores_eq_some (h : call.stores = some ss) :
    match call with
    | upload _ remoteFilename recipient =>
        ∃ filesize hash, ss = uploadStores filesize hash remoteFilename recipient
    | download _ remoteFilename => ss = downloadStores remoteFilename
    | list => ss = listStores := by
  cases call with
  | upload file remoteFilename recipient =>
      simp only [stores] at h
      split at h
      · cases h
      · split at h
        · cases h
        · split at h
          · cases h
          · cases h
            exact ⟨_, _, rfl⟩
  | download target remoteFilename =>
      simp only [stores] at h
      split at h
      · cases h
      · split at h
        · cases h
        · split at h
          · cases h
          · cases h
            rfl
  | list =>
      cases h
      rfl

theorem fit_stores (stack : HeaderMemory) (h : call.stores = some ss) :
    Fit ss stack.val.length := by
  have hss := stores_eq_some h
  cases call with
  | upload file remoteFilename recipient =>
      rcases hss with ⟨filesize, hash, rfl⟩
      exact fit_uploadStores stack filesize hash remoteFilename recipient
  | download target remoteFilename =>
      rw [show ss = downloadStores remoteFilename from hss]
      exact fit_downloadStores stack remoteFilename
  | list =>
      rw [show ss = listStores from hss]
      exact fit_listStores stack

/-- The bytes of the header that the assignments leave out. -/
theorem not_covered_stores_iff {i : Nat} (hi : i < requestHeaderSize) (h : call.stores = some ss) :
    ¬ Covered ss i ↔ call.unset i = true := by
  have hss := stores_eq_some h
  unfold requestHeaderSize at hi
  cases call with
  | upload file remoteFilename recipient =>
      rcases hss with ⟨filesize, hash, rfl⟩
      rw [covered_uploadStores]
      simp only [unset, Bool.or_eq_true, Bool.and_eq_true, decide_eq_true_eq]
      omega
  | download target remoteFilename =>
      rw [show ss = downloadStores remoteFilename from hss, covered_downloadStores]
      simp only [unset, Bool.or_eq_true, Bool.and_eq_true, decide_eq_true_eq]
      omega
  | list =>
      rw [show ss = listStores from hss, covered_listStores]
      simp only [unset, Bool.or_eq_true, Bool.and_eq_true, decide_eq_true_eq]
      omega

/-- For two earlier contents of the stack the same 384 bytes are sent if and only if nothing is
sent, or the two agree in the bytes that the call leaves as they were. -/
theorem sentHeader_eq_iff (call : ClientCall) (stack stack' : HeaderMemory) :
    call.sentHeader stack = call.sentHeader stack' ↔
      call.stores = none ∨ ∀ i, call.unset i = true → stack.val[i]? = stack'.val[i]? := by
  have hlen : stack.val.length = stack'.val.length := stack.property.trans stack'.property.symm
  unfold sentHeader
  cases hstores : call.stores with
  | none =>
      simp
  | some ss =>
      simp only [Option.map_some, Option.some.injEq, reduceCtorEq, false_or]
      rw [storeAll_eq_iff hlen (fit_stores stack hstores)]
      refine forall_congr' fun i => ?_
      by_cases hi : i < requestHeaderSize
      · rw [not_covered_stores_iff hi hstores]
      · -- behind the header there is nothing to compare
        have hnone : ∀ mem : HeaderMemory, mem.val[i]? = none := fun mem =>
          List.getElem?_eq_none (by rw [mem.property]; omega)
        simp [hnone]

end ClientCall

/-- A stack on which every byte is one. -/
def usedStack : HeaderMemory :=
  ⟨List.replicate 384 1, List.length_replicate⟩

set_option maxRecDepth 10000 in
/-- Each of the three operations sends other bytes from it than from a blank one; an upload makes
the file public by what was there. -/
theorem sentHeader_stack :
    let call := ClientCall.upload smallFile (ascii "a") []
    let call' := ClientCall.download ⟨true, true, true⟩ (ascii "a")
    call.sentHeader blankStack ≠ call.sentHeader usedStack ∧
      call'.sentHeader blankStack ≠ call'.sentHeader usedStack ∧
      ClientCall.list.sentHeader blankStack ≠ ClientCall.list.sentHeader usedStack ∧
      (call.sentHeader blankStack).map (fun h => (RequestHeader.ofBytes h).flags) = some 0 ∧
      (call.sentHeader usedStack).map (fun h => (RequestHeader.ofBytes h).flags) = some 1 := by
  decide

end FileExchange
