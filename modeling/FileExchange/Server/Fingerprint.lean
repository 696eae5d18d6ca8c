import FileExchange.Lib.Hex
import FileExchange.Lib.Memory
import FileExchange.Server.Upload

/-!
# Server.Fingerprint — fingerprints of clients and recipients of uploads

`handle_client` writes the SHA-256 digest of a certificate as a string, and
`handle_upload_request` checks the recipient that a client sends.

* `clientFingerprint`    : the loop of `sprintf` calls and what it leaves in the buffer;
* `clientFingerprint_eq` : it is the digest in hexadecimal, whatever was in the buffer;
* `clientFingerprint_injective_and_accepted_iff` : the recipients that are accepted are exactly
  the fingerprints.
-/

namespace FileExchange

open Lib Lib.Memory

/-! ## The loop -/

/-- `char client_fingerprint[65]` before the loop. -/
abbrev FingerprintBuffer := { buffer : Bytes // buffer.length = fingerprintLen }

/-- What `sprintf` prints for `"%02x"`. -/
def sprintf02x (b : UInt8) : CString :=
  Hex.encodeByte b

/-- The calls `sprintf(&client_fingerprint[i*2], "%02x", cert_hash[i])` from `i` on, each with
its NUL. -/
def sprintfStores : Nat → Bytes → List (Store UInt8)
  | _, [] => []
  | i, b :: certHash =>
      { addr := i * 2, data := sprintf02x b ++ [0] } :: sprintfStores (i + 1) certHash

/-- The string in the buffer after `client_fingerprint[64] = '\0'`. -/
def clientFingerprint (buffer : FingerprintBuffer) (certHash : Digest) : CString :=
  cstringAt (storeAll buffer.val (sprintfStores 0 certHash.val ++ [{ addr := 64, data := [0] }])) 0

section Loop

variable {mem certHash : Bytes} {i j : Nat}

theorem le_of_covered_sprintfStores (h : Covered (sprintfStores i certHash) j) : i * 2 ≤ j := by
  induction certHash generalizing i with
  | nil =>
      exact absurd h covered_nil
  | cons b certHash ih =>
      rcases covered_cons.1 h with hfirst | hrest
      · exact hfirst.1
      · have hle := ih hrest
        omega

theorem fit_sprintfStores {size : Nat} (h : (i + certHash.length) * 2 < size) :
    Fit (sprintfStores i certHash) size := by
  induction certHash generalizing i with
  | nil =>
      simp [sprintfStores, Fit]
  | cons b certHash ih =>
      rw [List.length_cons] at h
      refine fit_cons.2 ⟨?_, ih (by omega)⟩
      rw [stop_mk, List.length_append]
      simp only [sprintf02x, Hex.encodeByte, List.length_cons, List.length_nil]
      omega

/-- Each call overwrites the NUL of the one before, and no digit. -/
theorem load_sprintfStores (h : (i + certHash.length) * 2 < mem.length) :
    load (storeAll mem (sprintfStores i certHash)) (i * 2) (certHash.length * 2) =
      Hex.encode certHash := by
  induction certHash generalizing i mem with
  | nil =>
      simp [load]
  | cons b certHash ih =>
      let s : Store UInt8 := { addr := i * 2, data := sprintf02x b ++ [0] }
      have hfit : Fit (sprintfStores i (b :: certHash)) mem.length := fit_sprintfStores h
      have hstop := (fit_cons.1 hfit).1
      have hlength : (store mem s).length = mem.length := length_store hstop
      rw [List.length_cons] at h
      have hhead : load (storeAll (store mem s) (sprintfStores (i + 1) certHash)) (i * 2) 2 =
          sprintf02x b := by
        have hself : load (store mem s) (i * 2) 3 = sprintf02x b ++ [0] := load_store_self hstop
        have hfirst : load (store mem s) (i * 2) 2 = (load (store mem s) (i * 2) 3).take 2 := by
          rw [load, load, List.take_take]
          rfl
        rw [load_storeAll_of_not_covered (hlength.symm ▸ (fit_cons.1 hfit).2), hfirst, hself]
        · rfl
        · intro j _ hj hcovered
          have hle := le_of_covered_sprintfStores hcovered
          omega
      have htail := @ih (store mem s) (i + 1) (by rw [hlength]; omega)
      rw [List.length_cons, sprintfStores, storeAll_cons,
        show (certHash.length + 1) * 2 = 2 + certHash.length * 2 by omega, load_add,
        show i * 2 + 2 = (i + 1) * 2 by omega, hhead, htail]
      rfl

end Loop

/-- The fingerprint is the digest in hexadecimal. -/
theorem clientFingerprint_eq (buffer : FingerprintBuffer) (certHash : Digest) :
    clientFingerprint buffer certHash = Hex.encode certHash.val := by
  have hbuffer : (0 + certHash.val.length) * 2 < buffer.val.length := by
    rw [certHash.property, buffer.property]
    decide
  have hfit : Fit (sprintfStores 0 certHash.val) buffer.val.length := fit_sprintfStores hbuffer
  have hlength := length_storeAll hfit
  have hdigits := load_sprintfStores hbuffer
  have hlast : (Store.mk 64 [(0 : UInt8)]).stop ≤
      (storeAll buffer.val (sprintfStores 0 certHash.val)).length := by
    rw [hlength, buffer.property]
    decide
  have hdisjoint : load (store (storeAll buffer.val (sprintfStores 0 certHash.val))
      { addr := 64, data := [0] }) 0 64 = Hex.encode certHash.val := by
    rw [load_store_of_disjoint hlast (Or.inl le_rfl), ← hdigits, certHash.property]
  have hnul : load (store (storeAll buffer.val (sprintfStores 0 certHash.val))
      { addr := 64, data := [0] }) 64 1 = [0] :=
    load_store_self hlast
  have hsize := (length_store hlast).trans (hlength.trans buffer.property)
  rw [clientFingerprint, storeAll_append, storeAll_cons, storeAll_nil]
  generalize
    store (storeAll buffer.val (sprintfStores 0 certHash.val)) { addr := 64, data := [0] } =
      mem at *
  -- digits up to the last byte, and a NUL in it
  have hmem : mem.drop 0 = Hex.encode certHash.val ++ 0 :: [] := by
    calc mem.drop 0
        = load mem 0 (64 + 1) := by
          rw [load, List.take_of_length_le (by rw [List.drop_zero, hsize]; decide)]
      _ = Hex.encode certHash.val ++ 0 :: [] := by rw [load_add, hdisjoint, hnul]
  refine cstringAt_of_drop (fun hzero => ?_) hmem
  exact absurd (Hex.isDigit_of_mem_encode 0 hzero) (by decide)

/-! ## The recipients -/

/-- What the check of the recipient comes to, when nothing else makes the handler refuse. -/
theorem uploadRefusal_eq_none_iff {crypto : FileCryptoCtx} {req : RequestHeader}
    (hinit : crypto.initialized = true) (hname : unsafeName req.filename = false) :
    uploadRefusal crypto req = none ↔
      req.recipient = [] ∨
        (req.recipient.length = fingerprintLen - 1 ∧ ∀ b ∈ req.recipient, isHexDigit b = true) := by
  by_cases hempty : req.recipient = []
  · simp [uploadRefusal, hinit, hname, hempty]
  · by_cases hlength : req.recipient.length = fingerprintLen - 1
    · have htake : req.recipient.take 64 = req.recipient :=
        List.take_of_length_le (by rw [hlength]; decide)
      simp [uploadRefusal, hinit, hname, hempty, hlength, htake]
    · simp [uploadRefusal, hinit, hname, hempty, hlength]

/-- Different certificates have different fingerprints, and an upload for a recipient is accepted
if and only if the recipient is the fingerprint of a digest, and then of one only. -/
theorem clientFingerprint_injective_and_accepted_iff (buffer : FingerprintBuffer)
    {crypto : FileCryptoCtx} {req : RequestHeader} (hinit : crypto.initialized = true)
    (hname : unsafeName req.filename = false) :
    Function.Injective (clientFingerprint buffer) ∧
      ((req.recipient ≠ [] ∧ uploadRefusal crypto req = none) ↔
        ∃! certHash : Digest, clientFingerprint buffer certHash = req.recipient) := by
  have hinjective : Function.Injective (clientFingerprint buffer) := by
    intro certHash certHash' heq
    rw [clientFingerprint_eq, clientFingerprint_eq] at heq
    exact Subtype.ext (Hex.encode_injective heq)
  refine ⟨hinjective, ?_⟩
  rw [uploadRefusal_eq_none_iff hinit hname]
  constructor
  · rintro ⟨hne, hempty | ⟨hlength, hall⟩⟩
    · exact absurd hempty hne
    -- both programs have the same digits
    · have hdouble : req.recipient.length = 2 * 32 := hlength
      rcases Hex.exists_encode_eq_iff.2 ⟨hdouble, hall⟩ with ⟨bs, hbs, heq⟩
      refine ⟨⟨bs, hbs⟩, (clientFingerprint_eq buffer ⟨bs, hbs⟩).trans heq, ?_⟩
      intro certHash hsame
      rw [clientFingerprint_eq, ← heq] at hsame
      exact Subtype.ext (Hex.encode_injective hsame)
  · rintro ⟨certHash, heq, _⟩
    rw [clientFingerprint_eq] at heq
    rcases Hex.exists_encode_eq_iff.1 ⟨certHash.val, certHash.property, heq⟩ with ⟨hlength, hall⟩
    refine ⟨?_, Or.inr ⟨hlength, hall⟩⟩
    intro hempty
    rw [hempty] at hlength
    cases hlength

/-- With a recipient of 64 digits. -/
theorem clientFingerprint_accepted_sixes :
    let buffer : FingerprintBuffer := ⟨List.replicate 65 7, List.length_replicate⟩
    let crypto : FileCryptoCtx := { key := sampleKey, initialized := true }
    let req := RequestHeader.announcing (ascii "a") [] [] (List.replicate 64 54)
    Function.Injective (clientFingerprint buffer) ∧
      ((req.recipient ≠ [] ∧ uploadRefusal crypto req = none) ↔
        ∃! certHash : Digest, clientFingerprint buffer certHash = req.recipient) := by
  intro buffer crypto req
  exact clientFingerprint_injective_and_accepted_iff buffer rfl (by decide)

end FileExchange
