import FileExchange.CLibrary

/-!
# Tls — receiving and sending on a connection

What a peer sends arrives in TLS records.  `SSL_read` returns bytes of the current record
only, and a value `≤ 0` once the connection is closed.

* `sslRead`, `sslRecvAll` : one call, and the loop around it;
* `receiveFile`           : the receive loop of `handle_upload_request`;
* `receiveFile_eq_some`   : the loop takes the file off the front of the byte stream,
  wherever its records end;
* `sslSendAll`            : the loop around `SSL_write`.
-/

namespace FileExchange

/-! ## Reading -/

/-- `SSL_read(ssl, buf, n)` for `n > 0`: the bytes read and the records that are left. -/
def sslRead {α : Type} (n : Nat) : List (List α) → Option (List α × List (List α))
  | [] => none
  | [] :: records => sslRead n records
  | (b :: r) :: records =>
      some ((b :: r).take n,
        if (b :: r).length ≤ n then records else (b :: r).drop n :: records)

/-- The loop of `ssl_recv_all`, in which every round reads at least one byte. -/
def recvLoop : Nat → Nat → List Bytes → Option (Bytes × List Bytes)
  | 0, _, records => some ([], records)
  | fuel + 1, len, records =>
      if len = 0 then some ([], records)
      else
        (sslRead len records).bind fun r =>
          (recvLoop fuel (len - r.1.length) r.2).map fun s => (r.1 ++ s.1, s.2)

/-- `ssl_recv_all` with the result `len`, or `none` for `-1`. -/
def sslRecvAll (len : Nat) (records : List Bytes) : Option (Bytes × List Bytes) :=
  recvLoop len len records

/-- `BUFFER_SIZE`. -/
def bufferSize : Nat := 4096

/-- `to_read`, the number of bytes of one round of the upload loop. -/
def toRead (remaining : Int) : Nat :=
  if remaining < bufferSize then remaining.toNat else bufferSize

/-- `while (remaining > 0)` of `handle_upload_request`. -/
def receiveLoop : Nat → Int → List Bytes → Option (Bytes × List Bytes)
  | 0, _, records => some ([], records)
  | fuel + 1, remaining, records =>
      if remaining > 0 then
        (sslRecvAll (toRead remaining) records).bind fun r =>
          (receiveLoop fuel (remaining - toRead remaining) r.2).map fun s => (r.1 ++ s.1, s.2)
      else some ([], records)

/-- The bytes of the file and the records after it, unless the stream ends before. -/
def receiveFile (filesize : Int) (records : List Bytes) : Option (Bytes × List Bytes) :=
  receiveLoop filesize.toNat filesize records

/-! ## What is taken off the stream -/

/-- One read takes between 1 and `n` bytes off the front of the stream. -/
theorem sslRead_eq_some {α : Type} {n : Nat} (hn : 0 < n) {records rest : List (List α)}
    {bytes : List α} (h : sslRead n records = some (bytes, rest)) :
    records.flatten = bytes ++ rest.flatten ∧ 0 < bytes.length ∧ bytes.length ≤ n := by
  induction records with
  | nil =>
      cases h
  | cons r records ih =>
      cases r with
      | nil =>
          simpa using ih h
      | cons b r =>
          rw [sslRead] at h
          cases h
          refine ⟨?_, ?_, List.length_take_le _ _⟩
          -- the record is used up, or its rest stays in front of the stream
          · split
            · next hle => simp [List.take_of_length_le hle]
            · rw [List.flatten_cons, List.flatten_cons, ← List.append_assoc, List.take_append_drop]
          · rw [List.length_take, List.length_cons]
            omega

/-- A read fails only at the end of the stream. -/
theorem sslRead_eq_none {α : Type} {n : Nat} {records : List (List α)}
    (h : sslRead n records = none) : records.flatten = [] := by
  induction records with
  | nil =>
      rfl
  | cons r records ih =>
      cases r with
      | nil =>
          simpa using ih h
      | cons b r =>
          rw [sslRead] at h
          cases h

theorem recvLoop_eq_some {fuel : Nat} : ∀ {len : Nat} {records rest : List Bytes} {bytes : Bytes},
    len ≤ fuel → recvLoop fuel len records = some (bytes, rest) →
      bytes.length = len ∧ records.flatten = bytes ++ rest.flatten := by
  induction fuel with
  | zero =>
      intro len records rest bytes hlen h
      cases h
      exact ⟨by simp only [List.length_nil]; omega, rfl⟩
  | succ fuel ih =>
      intro len records rest bytes hlen h
      by_cases hzero : len = 0
      · rw [recvLoop, if_pos hzero] at h
        cases h
        exact ⟨hzero.symm, rfl⟩
      · rw [recvLoop, if_neg hzero] at h
        rcases Option.bind_eq_some_iff.1 h with ⟨⟨got, left⟩, hread, h⟩
        rcases Option.map_eq_some_iff.1 h with ⟨⟨more, rest'⟩, hrec, heq⟩
        cases heq
        -- induction on the fuel: every round takes a byte, so `len` rounds are enough
        rcases sslRead_eq_some (by omega) hread with ⟨hstream, hpos, hle⟩
        dsimp only at hrec ⊢
        rcases ih (by omega) hrec with ⟨hmore, hleft⟩
        refine ⟨by rw [List.length_append]; omega, ?_⟩
        rw [hstream, hleft, List.append_assoc]

theorem recvLoop_isSome {fuel : Nat} : ∀ {len : Nat} {records : List Bytes},
    len ≤ records.flatten.length → (recvLoop fuel len records).isSome = true := by
  induction fuel with
  | zero =>
      intro len records _
      rfl
  | succ fuel ih =>
      intro len records hlen
      by_cases hzero : len = 0
      · simp [recvLoop, hzero]
      · cases hread : sslRead len records with
        | none =>
            have hempty := sslRead_eq_none hread
            rw [hempty] at hlen
            exact absurd (Nat.le_zero.1 hlen) hzero
        | some r =>
            rcases sslRead_eq_some (by omega) hread with ⟨hstream, _, _⟩
            -- what a read takes is missing from the request and from the stream alike
            have hleft : len - r.1.length ≤ r.2.flatten.length := by
              rw [hstream, List.length_append] at hlen
              omega
            simpa [recvLoop, hzero, hread] using ih hleft

/-- `ssl_recv_all` takes the first `len` bytes, if there are so many. -/
theorem sslRecvAll_eq_some {len : Nat} {records rest : List Bytes} {bytes : Bytes}
    (h : sslRecvAll len records = some (bytes, rest)) :
    bytes.length = len ∧ records.flatten = bytes ++ rest.flatten :=
  recvLoop_eq_some le_rfl h

theorem sslRecvAll_isSome {len : Nat} {records : List Bytes}
    (h : len ≤ records.flatten.length) : (sslRecvAll len records).isSome = true :=
  recvLoop_isSome h

/-- A round takes at least one byte and no more than there are to come. -/
theorem toRead_bounds {remaining : Int} (h : remaining > 0) :
    0 < toRead remaining ∧ (toRead remaining : Int) ≤ remaining := by
  unfold toRead bufferSize
  split <;> omega

theorem receiveLoop_eq_some {fuel : Nat} :
    ∀ {remaining : Int} {records rest : List Bytes} {bytes : Bytes},
      remaining.toNat ≤ fuel → receiveLoop fuel remaining records = some (bytes, rest) →
        bytes.length = remaining.toNat ∧ records.flatten = bytes ++ rest.flatten := by
  induction fuel with
  | zero =>
      intro remaining records rest bytes hfuel h
      cases h
      exact ⟨by simp only [List.length_nil]; omega, rfl⟩
  | succ fuel ih =>
      intro remaining records rest bytes hfuel h
      by_cases hpos : remaining > 0
      -- a round receives `to_read` bytes, or the whole upload ends
      · rcases toRead_bounds hpos with ⟨hone, hmax⟩
        rw [receiveLoop, if_pos hpos] at h
        rcases Option.bind_eq_some_iff.1 h with ⟨⟨got, left⟩, hrecv, h⟩
        rcases Option.map_eq_some_iff.1 h with ⟨⟨more, rest'⟩, hrec, heq⟩
        cases heq
        rcases sslRecvAll_eq_some hrecv with ⟨hgot, hstream⟩
        dsimp only at hrec ⊢
        rcases ih (by omega) hrec with ⟨hmore, hleft⟩
        refine ⟨by rw [List.length_append]; omega, ?_⟩
        rw [hstream, hleft, List.append_assoc]
      · rw [receiveLoop, if_neg hpos] at h
        cases h
        exact ⟨by simp only [List.length_nil]; omega, rfl⟩

theorem receiveLoop_isSome {fuel : Nat} : ∀ (remaining : Int) (records : List Bytes),
    remaining.toNat ≤ records.flatten.length →
      (receiveLoop fuel remaining records).isSome = true := by
  induction fuel with
  | zero =>
      intro remaining records _
      rfl
  | succ fuel ih =>
      intro remaining records hlen
      by_cases hpos : remaining > 0
      · rcases toRead_bounds hpos with ⟨_, hmax⟩
        -- the stream holds the rest of the file, hence the next round
        have hround : toRead remaining ≤ records.flatten.length := by omega
        rcases Option.isSome_iff_exists.1 (sslRecvAll_isSome hround) with ⟨⟨bytes, rest⟩, hr⟩
        rcases sslRecvAll_eq_some hr with ⟨hgot, hstream⟩
        rw [hstream, List.length_append] at hlen
        have hrec := ih (remaining - toRead remaining) rest (by omega)
        rw [receiveLoop, if_pos hpos]
        simp only [hr, Option.bind_some, Option.isSome_map]
        exact hrec
      · simp [receiveLoop, hpos]

/-- The upload loop takes the first `filesize` bytes off the stream. -/
theorem receiveFile_eq_some {filesize : Int} {records rest : List Bytes} {bytes : Bytes}
    (h : receiveFile filesize records = some (bytes, rest)) :
    bytes = records.flatten.take filesize.toNat ∧
      rest.flatten = records.flatten.drop filesize.toNat ∧ bytes.length = filesize.toNat := by
  rcases receiveLoop_eq_some le_rfl h with ⟨hlen, hstream⟩
  refine ⟨?_, ?_, hlen⟩
  · rw [hstream, List.take_left' hlen]
  · rw [hstream, List.drop_left' hlen]

/-- It fails exactly when the stream ends before. -/
theorem receiveFile_isSome_iff {filesize : Int} {records : List Bytes} :
    (receiveFile filesize records).isSome = true ↔ filesize.toNat ≤ records.flatten.length := by
  refine ⟨fun h => ?_, receiveLoop_isSome _ _⟩
  rcases Option.isSome_iff_exists.1 h with ⟨⟨bytes, rest⟩, hr⟩
  rcases receiveLoop_eq_some le_rfl hr with ⟨hlen, hstream⟩
  rw [hstream, List.length_append]
  omega

/-- Two ways of cutting one stream into records give the same file. -/
theorem receiveFile_congr {filesize : Int} {records records' : List Bytes}
    (h : records.flatten = records'.flatten) :
    (receiveFile filesize records).map Prod.fst = (receiveFile filesize records').map Prod.fst := by
  have hsome : (receiveFile filesize records).isSome = (receiveFile filesize records').isSome := by
    rw [Bool.eq_iff_iff, receiveFile_isSome_iff, receiveFile_isSome_iff, h]
  -- both succeed, with the same first bytes of the stream, or both fail
  cases hr : receiveFile filesize records with
  | none =>
      cases hr' : receiveFile filesize records' with
      | none =>
          rfl
      | some r' =>
          simp [hr, hr'] at hsome
  | some r =>
      cases hr' : receiveFile filesize records' with
      | none =>
          simp [hr, hr'] at hsome
      | some r' =>
          rcases r with ⟨bytes, rest⟩
          rcases r' with ⟨bytes', rest'⟩
          have hfst := (receiveFile_eq_some hr).1
          have hfst' := (receiveFile_eq_some hr').1
          simp [hfst, hfst', h]

/-! ## Sending -/

/-- The loop of `ssl_send_all`: the records written, and whether it ends with 0.  The `i`-th
`SSL_write` is given the number of bytes left as an `int`; it accepts up to `n + 1` of them when
`accepts i = some n`, and fails otherwise. -/
def sendLoop (accepts : Nat → Option Nat) : Nat → Nat → Bytes → List Bytes × Bool
  | 0, _, _ => ([], true)
  | fuel + 1, i, rest =>
      if rest = [] then ([], true)
      else if toInt rest.length ≤ 0 then ([], false)
      else
        match accepts i with
        | none => ([], false)
        | some n =>
            let k := min (n + 1) (toInt rest.length).toNat
            let r := sendLoop accepts fuel (i + 1) (rest.drop k)
            (rest.take k :: r.1, r.2)

def sslSendAll (accepts : Nat → Option Nat) (buf : Bytes) : List Bytes × Bool :=
  sendLoop accepts buf.length 0 buf

theorem sendLoop_of_accepts {accepts : Nat → Option Nat} (h : ∀ i, (accepts i).isSome = true)
    {fuel : Nat} : ∀ {i : Nat} {rest : Bytes}, rest.length ≤ fuel → rest.length < 2 ^ 31 →
      (sendLoop accepts fuel i rest).1.flatten = rest ∧
        (sendLoop accepts fuel i rest).2 = true := by
  induction fuel with
  | zero =>
      intro i rest hfuel _
      rw [List.length_eq_zero_iff.1 (Nat.le_zero.1 hfuel)]
      exact ⟨rfl, rfl⟩
  | succ fuel ih =>
      intro i rest hfuel hlen
      by_cases hnil : rest = []
      · simp [sendLoop, hnil]
      · have hpos : 0 < rest.length := List.length_pos_of_ne_nil hnil
        have hint : toInt rest.length = rest.length := toInt_of_lt (by omega) (by omega)
        have hnonpos : ¬ ((rest.length : Int) ≤ 0) := by omega
        rcases Option.isSome_iff_exists.1 (h i) with ⟨n, hn⟩
        -- a write takes at least one byte off the rest
        have hrest := @ih (i + 1) (rest.drop (min (n + 1) rest.length))
          (by rw [List.length_drop]; omega) (by rw [List.length_drop]; omega)
        simp only [sendLoop, hnil, if_false, hint, hnonpos, hn, Int.toNat_natCast]
        refine ⟨?_, hrest.2⟩
        rw [List.flatten_cons, hrest.1, List.take_append_drop]

/-- When no write fails, `ssl_send_all` sends its buffer. -/
theorem sslSendAll_of_accepts {accepts : Nat → Option Nat} (h : ∀ i, (accepts i).isSome = true)
    {buf : Bytes} (hlen : buf.length < 2 ^ 31) :
    (sslSendAll accepts buf).1.flatten = buf ∧ (sslSendAll accepts buf).2 = true :=
  sendLoop_of_accepts h le_rfl hlen

end FileExchange
