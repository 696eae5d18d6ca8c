import FileExchange.CLibrary

/-!
# Crypto — encryption and hashing of file contents

* `CryptoLib` : AES-256-GCM and BLAKE3, which other libraries implement;
* `CryptoLib.Correct`, `CryptoLib.IdealFor` : what the server relies on;
* `EvpEnv` : what the EVP library does with a call, in particular with a negative length;
* `enhancedAesGcmEncrypt`, `enhancedAesGcmDecrypt` : the server's functions around it, whose
  lengths are C `int`s.
-/

namespace FileExchange

/-- An AES-GCM nonce, as `RAND_bytes` fills it. -/
abbrev Iv := { iv : Bytes // iv.length = 12 }

/-- `encrypt key iv plaintext` is the ciphertext and the tag;
`decrypt key iv tag ciphertext` is the plaintext, unless the tag does not match. -/
structure CryptoLib where
  encrypt : Bytes → Bytes → Bytes → Bytes × Bytes
  decrypt : Bytes → Bytes → Bytes → Bytes → Option Bytes
  blake3 : Bytes → Bytes

namespace CryptoLib

variable (lib : CryptoLib)

/-- Encryption keeps the length, makes a tag of 16 bytes and can be undone. -/
structure Correct : Prop where
  length_ciphertext : ∀ key iv p, (lib.encrypt key iv p).1.length = p.length
  length_tag : ∀ key iv p, (lib.encrypt key iv p).2.length = 16
  decrypt_encrypt : ∀ key iv p,
    lib.decrypt key iv (lib.encrypt key iv p).2 (lib.encrypt key iv p).1 = some p
  length_plaintext : ∀ key iv tag ct p, lib.decrypt key iv tag ct = some p → p.length = ct.length

/-- With the key, nonce and tag of this encryption nothing but its ciphertext decrypts. -/
def IdealFor (key iv p : Bytes) : Prop :=
  ∀ ct p', lib.decrypt key iv (lib.encrypt key iv p).2 ct = some p' →
    ct = (lib.encrypt key iv p).1

theorem IdealFor.eq_plaintext {lib : CryptoLib} {key iv p ct p' : Bytes} (hlib : lib.Correct)
    (h : lib.IdealFor key iv p)
    (hdec : lib.decrypt key iv (lib.encrypt key iv p).2 ct = some p') :
    ct = (lib.encrypt key iv p).1 ∧ p' = p := by
  have hct : ct = (lib.encrypt key iv p).1 := h ct p' hdec
  rw [hct, hlib.decrypt_encrypt] at hdec
  exact ⟨hct, (Option.some.inj hdec).symm⟩

end CryptoLib

/-! ## A sample of the two libraries -/

def sampleKey : Bytes := List.replicate 32 0

def sampleIv : Iv := ⟨List.replicate 12 0, rfl⟩

/-- The first block of the AES-256-GCM key stream for the zero key and the zero nonce. -/
def sampleStream : Bytes :=
  [206, 167, 64, 61, 77, 96, 107, 110, 7, 78, 197, 211, 186, 243, 157, 24]

def sampleXor (p : Bytes) : Bytes :=
  p.mapIdx fun i b => b ^^^ sampleStream.getD (i % 16) 0

/-- The AES-256-GCM tags of `""`, `"hi"` and `"yo"` under that key and nonce. -/
def sampleTag (p : Bytes) : Bytes :=
  if p = [] then [83, 15, 138, 251, 199, 69, 54, 185, 169, 99, 180, 241, 196, 203, 115, 139]
  else if p = [104, 105] then
    [173, 20, 92, 239, 62, 158, 235, 40, 248, 218, 2, 57, 174, 245, 56, 229]
  else if p = [121, 111] then
    [178, 227, 126, 216, 95, 244, 84, 244, 40, 206, 163, 161, 11, 159, 30, 202]
  else List.replicate 16 0

/-- The BLAKE3 hashes of the same three contents. -/
def sampleHash (p : Bytes) : Bytes :=
  if p = [] then
    [175, 19, 73, 185, 245, 249, 161, 166, 160, 64, 77, 234, 54, 220, 201, 73,
     155, 203, 37, 201, 173, 193, 18, 183, 204, 154, 147, 202, 228, 31, 50, 98]
  else if p = [104, 105] then
    [133, 5, 46, 154, 171, 27, 103, 182, 98, 45, 148, 160, 132, 65, 176, 159,
     213, 183, 172, 166, 30, 227, 96, 65, 109, 112, 222, 93, 166, 125, 134, 202]
  else if p = [121, 111] then
    [193, 102, 248, 117, 10, 130, 161, 147, 127, 99, 83, 37, 141, 115, 66, 32,
     20, 84, 70, 74, 116, 18, 136, 1, 134, 41, 195, 204, 172, 188, 173, 91]
  else List.replicate 32 0

/-- A library that agrees with AES-256-GCM and BLAKE3 on these contents, for the zero key and
the zero nonce. -/
def sampleLib : CryptoLib where
  encrypt _ _ p := (sampleXor p, sampleTag p)
  decrypt _ _ tag ct := if sampleTag (sampleXor ct) = tag then some (sampleXor ct) else none
  blake3 := sampleHash

theorem sampleXor_sampleXor (p : Bytes) : sampleXor (sampleXor p) = p := by
  refine List.ext_getElem (by simp [sampleXor]) fun i _ _ => ?_
  simp only [sampleXor, List.getElem_mapIdx]
  rw [UInt8.xor_assoc, UInt8.xor_self, UInt8.xor_zero]

theorem length_sampleTag (p : Bytes) : (sampleTag p).length = 16 := by
  unfold sampleTag
  split
  · rfl
  · split
    · rfl
    · split <;> rfl

/-- The same key stream with other tags and hashes. -/
def streamLib (tag : Bytes → Bytes → Bytes) (hash : Bytes → Bytes) : CryptoLib where
  encrypt key _ p := (sampleXor p, tag key p)
  decrypt key _ t ct := if tag key (sampleXor ct) = t then some (sampleXor ct) else none
  blake3 := hash

theorem streamLib_correct {tag : Bytes → Bytes → Bytes} {hash : Bytes → Bytes}
    (htag : ∀ key p, (tag key p).length = 16) : (streamLib tag hash).Correct where
  length_ciphertext _ _ p := by simp [streamLib, sampleXor]
  length_tag key _ p := htag key p
  -- the key stream cancels, so the tag is compared with itself
  decrypt_encrypt _ _ p := by simp [streamLib, sampleXor_sampleXor]
  length_plaintext _ _ t ct p h := by
    simp only [streamLib] at h
    split at h
    · rw [← Option.some.inj h]
      simp [sampleXor]
    · cases h

theorem sampleLib_correct : sampleLib.Correct :=
  @streamLib_correct (fun _ => sampleTag) sampleHash fun _ p => length_sampleTag p

/-- No other content has the tag of one of the three. -/
theorem sampleTag_injective {p q : Bytes} (hp : p = [] ∨ p = [104, 105] ∨ p = [121, 111])
    (h : sampleTag q = sampleTag p) : q = p := by
  rcases hp with rfl | rfl | rfl
  -- the four tags are pairwise different constants
  · by_contra hq
    simp only [sampleTag, hq, if_false, if_true] at h
    split at h
    · exact absurd h (by decide)
    · split at h <;> exact absurd h (by decide)
  · by_contra hq
    simp only [sampleTag, hq, if_false] at h
    split at h
    · exact absurd h (by decide)
    · split at h <;> exact absurd h (by decide)
  · by_contra hq
    simp only [sampleTag, hq, if_false] at h
    split at h
    · exact absurd h (by decide)
    · split at h <;> exact absurd h (by decide)

theorem sampleLib_idealFor (key iv : Bytes) {p : Bytes}
    (hp : p = [] ∨ p = [104, 105] ∨ p = [121, 111]) : sampleLib.IdealFor key iv p := by
  intro ct p' h
  simp only [sampleLib] at h ⊢
  split at h
  · next htag =>
      rw [← sampleTag_injective hp htag, sampleXor_sampleXor]
  · cases h

/-! ## The functions of `server.c` -/

/-- The EVP library: whether the calls succeed that do not depend on the length, and whether
`EVP_EncryptUpdate` and `EVP_DecryptUpdate` refuse a negative length.  If not, they take it for a
huge one and run beyond the buffers, which ends the process. -/
structure EvpEnv where
  works : Bool
  refusesNegative : Bool
  deriving DecidableEq, Repr

/-- A library that works and checks its lengths. -/
def EvpEnv.ok : EvpEnv :=
  { works := true, refusesNegative := true }

/-- How a call ends: with a result, with `-1`, or not at all. -/
inductive EvpResult (α : Type) where
  | done (result : α)
  | failed
  | died
  deriving DecidableEq, Repr

def EvpResult.ofOption {α : Type} : Option α → EvpResult α
  | none => .failed
  | some result => .done result

theorem EvpResult.ofOption_eq_done_iff {α : Type} {o : Option α} {r : α} :
    EvpResult.ofOption o = .done r ↔ o = some r := by
  cases o <;> simp [EvpResult.ofOption]

/-- A negative length is refused, or it is the end. -/
def EvpEnv.atNegative (env : EvpEnv) {α : Type} : EvpResult α :=
  if env.refusesNegative then .failed else .died

/-- The ciphertext and the tag. -/
def enhancedAesGcmEncrypt (lib : CryptoLib) (evp : EvpEnv) (plaintext : Bytes)
    (plaintextLen : Int) (key iv : Bytes) : EvpResult (Bytes × Bytes) :=
  if !evp.works then .failed
  else if plaintextLen < 0 then evp.atNegative
  else .done (lib.encrypt key iv (plaintext.take plaintextLen.toNat))

def enhancedAesGcmDecrypt (lib : CryptoLib) (evp : EvpEnv) (ciphertext : Bytes)
    (ciphertextLen : Int) (key iv tag : Bytes) : EvpResult Bytes :=
  if !evp.works then .failed
  else if ciphertextLen < 0 then evp.atNegative
  -- the tag may not match
  else .ofOption (lib.decrypt key iv tag (ciphertext.take ciphertextLen.toNat))

theorem EvpEnv.atNegative_ne_done (env : EvpEnv) {α : Type} (r : α) : env.atNegative ≠ .done r := by
  unfold EvpEnv.atNegative
  split <;> exact fun h => nomatch h

theorem EvpEnv.atNegative_eq_died_iff {env : EvpEnv} {α : Type} :
    env.atNegative = (.died : EvpResult α) ↔ env.refusesNegative = false := by
  cases h : env.refusesNegative <;> simp [EvpEnv.atNegative, h]

theorem enhancedAesGcmEncrypt_eq_done {lib : CryptoLib} {evp : EvpEnv} {plaintext key iv : Bytes}
    {plaintextLen : Int} {r : Bytes × Bytes}
    (h : enhancedAesGcmEncrypt lib evp plaintext plaintextLen key iv = .done r) :
    evp.works = true ∧ 0 ≤ plaintextLen ∧
      r = lib.encrypt key iv (plaintext.take plaintextLen.toNat) := by
  unfold enhancedAesGcmEncrypt at h
  split at h
  · cases h
  · next hevp =>
      split at h
      · exact absurd h (evp.atNegative_ne_done r)
      · exact ⟨by simpa using hevp, by omega, (EvpResult.done.inj h).symm⟩

theorem enhancedAesGcmEncrypt_of_nonneg (lib : CryptoLib) {evp : EvpEnv} (hevp : evp.works = true)
    (plaintext key iv : Bytes) {plaintextLen : Int} (h : 0 ≤ plaintextLen) :
    enhancedAesGcmEncrypt lib evp plaintext plaintextLen key iv =
      .done (lib.encrypt key iv (plaintext.take plaintextLen.toNat)) := by
  have hneg : ¬ plaintextLen < 0 := by omega
  simp [enhancedAesGcmEncrypt, hevp, hneg]

/-- Only a negative length that is not refused ends the process. -/
theorem enhancedAesGcmEncrypt_eq_died_iff {lib : CryptoLib} {evp : EvpEnv}
    {plaintext key iv : Bytes} {plaintextLen : Int} :
    enhancedAesGcmEncrypt lib evp plaintext plaintextLen key iv = .died ↔
      evp.works = true ∧ plaintextLen < 0 ∧ evp.refusesNegative = false := by
  unfold enhancedAesGcmEncrypt
  cases evp.works with
  | false => simp
  | true =>
      by_cases hneg : plaintextLen < 0
      · simp [hneg, EvpEnv.atNegative_eq_died_iff]
      · simp [hneg]

theorem enhancedAesGcmDecrypt_eq_done {lib : CryptoLib} {evp : EvpEnv}
    {ciphertext key iv tag : Bytes} {ciphertextLen : Int} {p : Bytes}
    (h : enhancedAesGcmDecrypt lib evp ciphertext ciphertextLen key iv tag = .done p) :
    lib.decrypt key iv tag (ciphertext.take ciphertextLen.toNat) = some p := by
  unfold enhancedAesGcmDecrypt at h
  split at h
  · cases h
  · split at h
    · exact absurd h (evp.atNegative_ne_done p)
    · exact EvpResult.ofOption_eq_done_iff.1 h

theorem enhancedAesGcmDecrypt_eq_died_iff {lib : CryptoLib} {evp : EvpEnv}
    {ciphertext key iv tag : Bytes} {ciphertextLen : Int} :
    enhancedAesGcmDecrypt lib evp ciphertext ciphertextLen key iv tag = .died ↔
      evp.works = true ∧ ciphertextLen < 0 ∧ evp.refusesNegative = false := by
  unfold enhancedAesGcmDecrypt
  cases evp.works with
  | false => simp
  | true =>
      by_cases hneg : ciphertextLen < 0
      · simp [hneg, EvpEnv.atNegative_eq_died_iff]
      · cases lib.decrypt key iv tag (ciphertext.take ciphertextLen.toNat) <;>
          simp [hneg, EvpResult.ofOption]

end FileExchange
