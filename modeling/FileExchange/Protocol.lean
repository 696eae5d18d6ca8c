import FileExchange.CLibrary

/-!
# Protocol — requests and replies of `protocol.h`

* `CommandType`, `ResponseStatus` : the two enumerations, with the aliases the header defines;
* `RequestHeader`                 : a request header as the server reads it;
* `RequestHeader.ofBytes`         : the 384 bytes on the wire as that record (x86-64 layout);
* `Message`                       : what the server sends, with its bytes on the wire;
* `ResponseHeader.ofBytes_wire`   : the client reads the header that the server sent.
-/

namespace FileExchange

/-! ## Enumerations -/

inductive CommandType
  | upload
  | download
  | list
  | unknown
  deriving DecidableEq, Repr

/-- The command that `switch(req.command)` selects. -/
def CommandType.ofCode : Nat → CommandType
  | 0 => .upload
  | 1 => .download
  | 2 => .list
  | _ => .unknown

inductive ResponseStatus
  | success
  | failure
  | fileNotFound
  | permissionDenied
  | error
  | invalidOffset
  deriving DecidableEq, Repr

namespace ResponseStatus

/-- The numbers of the enumeration. -/
def code : ResponseStatus → Nat
  | success => 0
  | failure => 1
  | fileNotFound => 2
  | permissionDenied => 3
  | error => 4
  | invalidOffset => 5

/-- `#define RESP_INTEGRITY_ERROR 3`, the number of `RESP_PERMISSION_DENIED`. -/
def integrityError : ResponseStatus := permissionDenied

/-- `RESP_UNKNOWN_COMMAND = 4`, the number of `RESP_ERROR`. -/
def unknownCommand : ResponseStatus := error

end ResponseStatus

/-! ## Request headers -/

def fingerprintLen : Nat := 65

def filenameMaxLen : Nat := 256

/-- A digest of 32 bytes: BLAKE3 of a file, or SHA-256 of a certificate. -/
abbrev Digest := { digest : Bytes // digest.length = 32 }

/-- A `RequestHeader` as the server reads it: `filename` and `recipient` are the C strings
that start at these fields. -/
structure RequestHeader where
  command : CommandType
  filename : CString
  filesize : Int64
  offset : Int64
  flags : UInt8
  fileHash : Bytes
  recipient : CString
  deriving DecidableEq, Repr

/-- `sizeof(RequestHeader)`. -/
def requestHeaderSize : Nat := 384

/-- An unsigned little-endian number. -/
def leNat (bs : Bytes) : Nat :=
  bs.foldr (fun b acc => b.toNat + 256 * acc) 0

/-- The last `size` bytes of a number, the lowest one first. -/
def leBytes : Nat → Nat → Bytes
  | 0, _ => []
  | size + 1, n => (n % 256).toUInt8 :: leBytes size (n / 256)

theorem length_leBytes (size n : Nat) : (leBytes size n).length = size := by
  induction size generalizing n with
  | zero =>
      rfl
  | succ size ih =>
      rw [leBytes, List.length_cons, ih]

theorem leNat_leBytes {size n : Nat} (h : n < 256 ^ size) : leNat (leBytes size n) = n := by
  induction size generalizing n with
  | zero =>
      rw [Nat.pow_zero] at h
      rw [Nat.lt_one_iff.1 h]
      rfl
  | succ size ih =>
      -- the remaining bytes carry `n / 256`, the first one the rest
      have hhigh : n / 256 < 256 ^ size := by
        rw [Nat.div_lt_iff_lt_mul (by decide), ← Nat.pow_succ]
        exact h
      have hlow : (n % 256).toUInt8.toNat = n % 256 :=
        Nat.mod_eq_of_lt (Nat.mod_lt n (by decide))
      calc leNat (leBytes (size + 1) n)
          = (n % 256).toUInt8.toNat + 256 * leNat (leBytes size (n / 256)) := rfl
        _ = n % 256 + 256 * (n / 256) := by rw [hlow, ih hhigh]
        _ = n := Nat.mod_add_div n 256

/-- `size` bytes from address `addr` on. -/
def slice (mem : Bytes) (addr size : Nat) : Bytes :=
  (mem.drop addr).take size

/-- A block is read in the same way, whatever is behind it. -/
theorem slice_append {mem after : Bytes} {addr size : Nat} (h : addr + size ≤ mem.length) :
    slice (mem ++ after) addr size = slice mem addr size := by
  have haddr : addr ≤ mem.length := by omega
  -- the slice ends before the memory behind the block begins
  have hrest : size ≤ (mem.drop addr).length := by
    rw [List.length_drop]
    omega
  rw [slice, slice, List.drop_append_of_le_length haddr, List.take_append_of_le_length hrest]

/-- And whatever is in front of it. -/
theorem slice_append_right (before mem : Bytes) (addr size : Nat) :
    slice (before ++ mem) (before.length + addr) size = slice mem addr size := by
  rw [slice, slice, ← List.drop_drop, List.drop_left]

/-- The bytes between what is in front of them and what follows. -/
theorem slice_middle (before mem after : Bytes) :
    slice (before ++ (mem ++ after)) before.length mem.length = mem := by
  rw [slice, List.drop_left, List.take_left]

/-- The C string that starts at `addr`. -/
def cstringAt (mem : Bytes) (addr : Nat) : CString :=
  (mem.drop addr).takeWhile (· ≠ 0)

theorem cstringAt_of_drop {mem rest : Bytes} {s : CString} {addr : Nat} (hs : 0 ∉ s)
    (h : mem.drop addr = s ++ 0 :: rest) : cstringAt mem addr = s := by
  have hall : ∀ b ∈ s, decide (b ≠ 0) = true := fun b hb =>
    decide_eq_true fun hzero => hs (hzero ▸ hb)
  rw [cstringAt, h, List.takeWhile_append_of_pos hall]
  simp

/-- The header that starts a piece of memory: nothing ends the two strings at the end of
their field, so what follows the header can belong to them. -/
def RequestHeader.ofBytes (mem : Bytes) : RequestHeader :=
  { command := CommandType.ofCode (leNat (slice mem 0 4))
    filename := cstringAt mem 4
    filesize := Int64.ofNat (leNat (slice mem 264 8))
    offset := Int64.ofNat (leNat (slice mem 272 8))
    flags := (slice mem 280 1).headD 0
    fileHash := slice mem 281 32
    recipient := cstringAt mem 313 }

/-- The header that announces a file truthfully. -/
def RequestHeader.announcing (filename : CString) (content hash : Bytes) (recipient : CString) :
    RequestHeader :=
  { command := .upload
    filename := filename
    filesize := Int64.ofNat content.length
    offset := 0
    flags := 0
    fileHash := hash
    recipient := recipient }

/-! ## Replies -/

/-- `sizeof(ResponseHeader)`: the status, four bytes of padding and the file size. -/
def responseHeaderSize : Nat := 16

/-- A block that the server passes to `ssl_send_all`. -/
inductive Message
  | response (status : ResponseStatus) (filesize : Int)
  | payload (bytes : Bytes)
  deriving DecidableEq, Repr

namespace Message

/-- `ResponseHeader resp = { .status = status }`. -/
def status (st : ResponseStatus) : Message := response st 0

/-- The bytes on the wire: of a response header in its x86-64 layout. -/
def wire : Message → Bytes
  | response st filesize =>
      leBytes 4 st.code ++ List.replicate 4 0 ++ leBytes 8 (toSizeT filesize)
  | payload bytes => bytes

theorem length_wire_response (st : ResponseStatus) (filesize : Int) :
    (response st filesize).wire.length = responseHeaderSize := by
  simp [wire, length_leBytes, responseHeaderSize]

end Message

/-- A `ResponseHeader` as the client reads it. -/
structure ResponseHeader where
  status : Nat
  filesize : Int64
  deriving DecidableEq, Repr

/-- The header that starts a piece of memory. -/
def ResponseHeader.ofBytes (mem : Bytes) : ResponseHeader :=
  { status := leNat (slice mem 0 4)
    filesize := Int64.ofNat (leNat (slice mem 8 8)) }

/-- The client reads what the server sent. -/
theorem ResponseHeader.ofBytes_wire (st : ResponseStatus) {filesize : Int} (h0 : 0 ≤ filesize)
    (h : filesize < 2 ^ 63) :
    (ResponseHeader.ofBytes (Message.response st filesize).wire).status = st.code ∧
      (ResponseHeader.ofBytes (Message.response st filesize).wire).filesize.toInt = filesize := by
  -- the status stands in bytes 0 to 3, the size in bytes 8 to 15, after the padding
  have hstatus : slice (Message.response st filesize).wire 0 4 = leBytes 4 st.code := by
    simp [slice, Message.wire, length_leBytes]
  have hsize : slice (Message.response st filesize).wire 8 8 = leBytes 8 (toSizeT filesize) := by
    have hdrop : (Message.response st filesize).wire.drop 8 = leBytes 8 (toSizeT filesize) :=
      List.drop_left' (by simp [length_leBytes])
    rw [slice, hdrop]
    exact List.take_of_length_le (length_leBytes 8 _).le
  have hcode : st.code < 256 ^ 4 := by
    cases st <;> decide
  -- a nonnegative size survives the conversion to eight bytes and back
  have hbound : toSizeT filesize < 256 ^ 8 := by
    rw [toSizeT_of_lt h0 h]
    omega
  constructor
  · rw [ofBytes, hstatus, leNat_leBytes hcode]
  · have hnat : ((filesize.toNat : Nat) : Int) = filesize := Int.toNat_of_nonneg h0
    rw [ofBytes, hsize, leNat_leBytes hbound, toSizeT_of_lt h0 h]
    exact (Int64.toInt_ofNat_of_lt (by omega)).trans hnat

end FileExchange
