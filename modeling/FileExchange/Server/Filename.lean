import FileExchange.Lib.Path
import FileExchange.Server.Isolation

/-!
# Server.Filename — what the handlers make of a filename

Both handlers check the string in the header for `..` and `/` and put it behind `STORAGE_DIR/`.

* `confined_iff`     : the path leads to the entry of that name, unless the name is empty, a dot
  or too long for the buffer;
* `confined_of_changed` : no request touches a file anywhere else;
* `sameReading_all_iff` : the bytes of the field settle the string if and only if one is NUL.
-/

namespace FileExchange

open Lib

/-! ## Where the path leads -/

/-- Where the path of `filename` leads, from the directory the server was started in. -/
def storageEntry (cwd : Path.Place UInt8) (filename : CString) : Path.Place UInt8 :=
  Path.resolve slash dot cwd (storagePath filename)

/-- `STORAGE_DIR`. -/
def storageRoot (cwd : Path.Place UInt8) : Path.Place UInt8 :=
  Path.resolve slash dot cwd storageDir

/-- The path leads to an entry directly inside `STORAGE_DIR` with this very name. -/
def Confined (cwd : Path.Place UInt8) (filename : CString) : Prop :=
  storageEntry cwd filename = storageRoot cwd ++ [filename]

instance (cwd : Path.Place UInt8) (filename : CString) : Decidable (Confined cwd filename) := by
  unfold Confined
  infer_instance

/-- The longest name whose path fits into `filepath`. -/
def longestName : Nat := pathMax - 1 - (storageDir.length + 1)

section Confined

variable {cwd : Path.Place UInt8} {f g : CString}

/-- The buffer keeps the first bytes of the name. -/
theorem storageEntry_eq (h : slash ∉ f) :
    storageEntry cwd f = Path.follow dot (storageRoot cwd) (f.take longestName) := by
  have hpath : storagePath f = storageDir ++ slash :: f.take longestName := by
    rw [storagePath, snprintf, List.take_append, List.take_of_length_le (by decide)]
    congr 1
  have hmem : slash ∉ f.take longestName := fun hmem => h (List.mem_of_mem_take hmem)
  rw [storageEntry, hpath, Path.resolve_join (by decide) hmem, storageRoot]

/-- A name that passes the check is not two dots. -/
theorem ne_dotDot_of_safe (h : unsafeName f = false) : f ≠ [dot, dot] := by
  rintro rfl
  exact absurd h (by decide)

/-- The path of a name that passes the check. -/
theorem confined_iff_of_safe (h : unsafeName f = false) :
    Confined cwd f ↔ f ≠ [] ∧ f ≠ [dot] ∧ f.length ≤ longestName := by
  have hslash := slash_not_mem_of_safe h
  rw [Confined, storageEntry_eq hslash]
  constructor
  · intro heq
    -- the entry carries the name as far as the buffer keeps it
    have hname : f.take longestName = f := by
      unfold Path.follow at heq
      split at heq
      · have hlength := congrArg List.length heq
        simp at hlength
      · split at heq
        · have hlength := congrArg List.length heq
          rw [List.length_dropLast, List.length_append, List.length_singleton] at hlength
          omega
        · simpa using heq
    rw [hname, Path.follow_eq_concat_iff] at heq
    refine ⟨heq.1, heq.2.1, ?_⟩
    rw [← hname, List.length_take]
    exact Nat.min_le_left _ _
  · rintro ⟨hne, hdot, hlen⟩
    rw [List.take_of_length_le hlen]
    exact Path.follow_of_isEntryName ⟨hne, hdot, ne_dotDot_of_safe h⟩

/-- Two names that pass the check: their paths lead to entries of these names in `STORAGE_DIR`,
and to different ones for different names, if and only if both are neither empty nor a dot and fit
into the buffer. -/
theorem confined_iff (cwd : Path.Place UInt8) (hf : unsafeName f = false)
    (hg : unsafeName g = false) :
    (Confined cwd f ∧ Confined cwd g ∧
        (f ≠ g → storageEntry cwd f ≠ storageEntry cwd g)) ↔
      (f ≠ [] ∧ f ≠ [dot] ∧ f.length ≤ longestName) ∧
        (g ≠ [] ∧ g ≠ [dot] ∧ g.length ≤ longestName) := by
  rw [← @confined_iff_of_safe cwd f hf, ← @confined_iff_of_safe cwd g hg]
  refine ⟨fun h => ⟨h.1, h.2.1⟩, fun h => ⟨h.1, h.2, fun hne heq => ?_⟩⟩
  -- the last component of the place is the name
  have hsame : storageRoot cwd ++ [f] = storageRoot cwd ++ [g] := by
    rw [← h.1, ← h.2, heq]
  exact hne (by simpa using hsame)

/-- What opens as a regular file is in `STORAGE_DIR` under its name. -/
theorem confined_of_openable (cwd : Path.Place UInt8) (h : unsafeName f = false)
    (hopen : openable (storagePath f) = true) : Confined cwd f := by
  have hname := lastComponent_of_openable (slash_not_mem_of_safe h) hopen
  simp only [openable, hname, Bool.and_eq_true, decide_eq_true_eq] at hopen
  rcases hopen with ⟨⟨⟨hne, hdot⟩, _⟩, hlen⟩
  refine (confined_iff_of_safe h).2 ⟨hne, hdot, hlen.trans ?_⟩
  decide

/-- The only file that a request creates or changes is the entry of its filename. -/
theorem confined_of_changed {lib : CryptoLib} {srv : Server} {r : Request} {path : CString}
    (cwd : Path.Place UInt8)
    (h : (serve lib srv r).1.storage.get? path ≠ srv.storage.get? path) :
    path = storagePath r.header.filename ∧ Confined cwd r.header.filename := by
  cases halive : srv.alive with
  | false =>
      exact absurd (by simp [serve, halive]) h
  | true =>
      cases hopens : r.opens lib srv.crypto with
      | none =>
          exact absurd (by rw [(serve_of_not_opens hopens).2.1]) h
      | some file =>
          rcases Request.delivers_of_opens hopens with ⟨_, hopen, hdelivers⟩
          rw [(serve_of_opens halive hopens).2.1] at h
          refine ⟨?_, confined_of_openable cwd (safe_of_not_refused hdelivers.accepted) hopen⟩
          by_contra hpath
          exact h (OrderedMap.get?_set_of_ne hpath _)

end Confined

/-- The names "a" and "b". -/
theorem confined_a_b :
    let cwd := [ascii "opt", ascii "build", ascii "bin"]
    Confined cwd (ascii "a") ∧ Confined cwd (ascii "b") ∧
      (ascii "a" ≠ ascii "b" → storageEntry cwd (ascii "a") ≠ storageEntry cwd (ascii "b")) := by
  intro cwd
  exact (confined_iff cwd (by decide) (by decide)).2 (by decide)

/-- The empty name and the dot pass the check, and both lead to the directory itself. -/
theorem not_confined_empty :
    let cwd := [ascii "opt", ascii "build", ascii "bin"]
    unsafeName [] = false ∧ unsafeName (ascii ".") = false ∧
      storageRoot cwd = [ascii "opt", ascii "filetrade"] ∧
      storageEntry cwd [] = storageRoot cwd ∧ storageEntry cwd (ascii ".") = storageRoot cwd ∧
      ¬ (Confined cwd [] ∧ Confined cwd (ascii ".") ∧
        ([] ≠ ascii "." → storageEntry cwd [] ≠ storageEntry cwd (ascii "."))) := by
  decide

/-! ## What is read from the field -/

/-- The 256 bytes of `filename`. -/
def filenameField (header : Bytes) : Bytes :=
  slice header 4 filenameMaxLen

/-- The C string that would start right behind the field. -/
def behindField (header after : Bytes) : CString :=
  cstringAt (header ++ after) (4 + filenameMaxLen)

/-- Two headers, with what follows them on the stack: the same filename, the same decision of the
path check and the same path. -/
def SameReading (header after header' after' : Bytes) : Prop :=
  let req := RequestHeader.ofBytes (header ++ after)
  let req' := RequestHeader.ofBytes (header' ++ after')
  req.filename = req'.filename ∧ unsafeName req.filename = unsafeName req'.filename ∧
    storagePath req.filename = storagePath req'.filename

section Field

variable {header header' : Bytes}

/-- The filename ends at the first NUL of the field, or somewhere behind the field. -/
theorem filename_ofBytes (after : Bytes) (h : header.length = requestHeaderSize) :
    (RequestHeader.ofBytes (header ++ after)).filename =
      if 0 ∈ filenameField header then (filenameField header).takeWhile (· ≠ 0)
      else filenameField header ++ behindField header after := by
  have hrest : (header ++ after).drop 4 =
      filenameField header ++ (header ++ after).drop (4 + filenameMaxLen) := by
    have hlen : 4 ≤ header.length ∧ filenameMaxLen ≤ (header.drop 4).length := by
      rw [List.length_drop, h]
      decide
    rw [filenameField, slice, ← List.drop_drop, List.drop_append_of_le_length hlen.1,
      ← List.take_append_of_le_length hlen.2, List.take_append_drop]
  have hname : (RequestHeader.ofBytes (header ++ after)).filename =
      (filenameField header ++ (header ++ after).drop (4 + filenameMaxLen)).takeWhile (· ≠ 0) := by
    rw [← hrest]
    rfl
  rw [hname]
  split
  · next hmem =>
      -- a field with a NUL is not read to its end
      rw [List.takeWhile_append, if_neg]
      intro hlength
      have hall := List.takeWhile_eq_self_iff.1 ((List.takeWhile_prefix _).eq_of_length hlength)
      simpa using hall 0 hmem
  · next hmem =>
      have hall : ∀ b ∈ filenameField header, decide (b ≠ 0) = true := by
        intro b hb
        exact decide_eq_true fun hzero => hmem (hzero ▸ hb)
      rw [List.takeWhile_append_of_pos hall]
      rfl

/-- For two headers with the same 256 filename bytes the server reads the same filename, decides
alike and forms the same path if and only if a NUL ends the string within the field, or what it
takes from behind the field is the same. -/
theorem sameReading_iff (h : header.length = requestHeaderSize)
    (h' : header'.length = requestHeaderSize)
    (hfield : filenameField header = filenameField header')
    (after after' : Bytes) :
    SameReading header after header' after' ↔
      0 ∈ filenameField header ∨ behindField header after = behindField header' after' := by
  have hsame : SameReading header after header' after' ↔
      (RequestHeader.ofBytes (header ++ after)).filename =
        (RequestHeader.ofBytes (header' ++ after')).filename := by
    constructor
    · intro hreading
      exact hreading.1
    -- the check and the path depend on the string alone
    · intro heq
      refine ⟨heq, ?_, ?_⟩
      · rw [heq]
      · rw [heq]
  rw [hsame, filename_ofBytes after h, filename_ofBytes after' h', ← hfield]
  by_cases hmem : 0 ∈ filenameField header
  · simp [hmem]
  · simp [hmem]

/-- The header with `b` in the first byte of the padding, and zeros behind it. -/
def repad (header : Bytes) (b : UInt8) : Bytes :=
  header.take (4 + filenameMaxLen) ++ b :: List.replicate 123 0

theorem length_take_field (h : header.length = requestHeaderSize) :
    (header.take (4 + filenameMaxLen)).length = 4 + filenameMaxLen := by
  rw [List.length_take, h]
  decide

theorem length_repad (h : header.length = requestHeaderSize) (b : UInt8) :
    (repad header b).length = requestHeaderSize := by
  rw [repad, List.length_append, length_take_field h, List.length_cons, List.length_replicate]
  rfl

/-- Command and filename stay. -/
theorem slice_repad {addr size : Nat} (h : header.length = requestHeaderSize)
    (haddr : addr + size ≤ 4 + filenameMaxLen) (b : UInt8) :
    slice (repad header b) addr size = slice header addr size := by
  have hlen := length_take_field h
  have hsize : size ≤ ((header.take (4 + filenameMaxLen)).drop addr).length := by
    rw [List.length_drop, hlen]
    omega
  calc slice (repad header b) addr size
      = ((header.take (4 + filenameMaxLen)).drop addr).take size := by
        rw [slice, repad, List.drop_append_of_le_length (by omega),
          List.take_append_of_le_length hsize]
    _ = slice header addr size := by
        rw [List.drop_take, List.take_take, slice, Nat.min_eq_left (by omega)]

theorem behindField_repad (h : header.length = requestHeaderSize) {b : UInt8} (hb : b ≠ 0) :
    behindField (repad header b) [] = [b] := by
  rw [behindField, cstringAt, List.append_nil, repad, List.drop_left' (length_take_field h)]
  simp [hb]

/-- A header is read like every other one with the same command and the same filename bytes,
whatever else is in them and behind them, if and only if one of these bytes is NUL. -/
theorem sameReading_all_iff (h : header.length = requestHeaderSize) :
    (∀ header' after after', header'.length = requestHeaderSize →
        slice header 0 4 = slice header' 0 4 → filenameField header = filenameField header' →
          SameReading header after header' after') ↔
      0 ∈ filenameField header := by
  constructor
  · intro hall
    by_contra hmem
    -- two values of the padding end the string differently
    have hbehind : ∀ b : UInt8, b ≠ 0 → behindField header [] = [b] := by
      intro b hb
      have hfield : filenameField header = filenameField (repad header b) :=
        (slice_repad h le_rfl b).symm
      have hread := hall (repad header b) [] [] (length_repad h b)
        (slice_repad h (by decide) b).symm hfield
      rcases (sameReading_iff h (length_repad h b) hfield [] []).1 hread with hnul | hsame
      · exact absurd hnul hmem
      · rw [hsame, behindField_repad h hb]
    have hone := hbehind 1 (by decide)
    rw [hbehind 2 (by decide)] at hone
    exact absurd hone (by decide)
  · intro hmem header' after after' h' _ hfield
    exact (sameReading_iff h h' hfield after after').2 (Or.inl hmem)

end Field

/-- A header whose filename field holds 256 letters, with `rest` behind it. -/
def fullField (rest : Bytes) : Bytes :=
  [0, 0, 0, 0] ++ List.replicate 256 97 ++ rest

/-- A header for "a" with all other bytes zero. -/
def headerForA : Bytes :=
  [0, 0, 0, 0] ++ 97 :: List.replicate 379 0

set_option maxRecDepth 4000 in
/-- With a NUL in the field the bytes behind it do not matter. -/
theorem sameReading_short_name :
    SameReading headerForA [] (headerForA.take 260 ++ List.replicate 124 47) [97, 97] := by
  have hnul : 0 ∈ filenameField headerForA := by decide
  exact (sameReading_all_iff (by decide)).2 hnul _ _ _ (by decide) (by decide) (by decide)

set_option maxRecDepth 4000 in
/-- Without one, a slash in the first byte of the padding makes the server refuse the name. -/
theorem not_sameReading_full_field :
    let header := fullField (List.replicate 124 0)
    let header' := fullField (slash :: List.replicate 123 0)
    header.length = requestHeaderSize ∧ header'.length = requestHeaderSize ∧
      slice header 0 4 = slice header' 0 4 ∧ filenameField header = filenameField header' ∧
      unsafeName (RequestHeader.ofBytes header).filename = false ∧
      unsafeName (RequestHeader.ofBytes header').filename = true ∧
      ¬ SameReading header [] header' [] := by
  intro header header'
  have hsafe : unsafeName (RequestHeader.ofBytes header).filename = false := by decide
  have hunsafe : unsafeName (RequestHeader.ofBytes header').filename = true := by decide
  refine ⟨by decide, by decide, by decide, by decide, hsafe, hunsafe, ?_⟩
  rintro ⟨_, hdecision, _⟩
  rw [List.append_nil, List.append_nil, hsafe, hunsafe] at hdecision
  cases hdecision

end FileExchange
