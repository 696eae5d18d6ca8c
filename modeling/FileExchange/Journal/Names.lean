import FileExchange.Journal

/-!
# Journal.Names — the name and the extension of a file

`create_base_document` stores the part of a name before its last dot and the part from there on.
The two functions that cut a name treat a dot at its start differently: one takes it for the
beginning of an extension, the other does not.

* `lastComponent_join` : the component that both cut;
* `split_iff` : nothing is lost if and only if the only dot is not the first byte.
-/

namespace FileExchange

/-- A name that starts with its only dot. -/
def IsDotFile (name : CString) : Prop :=
  name.head? = some dot ∧ dot ∉ name.tail

instance (name : CString) : Decidable (IsDotFile name) := by
  unfold IsDotFile
  infer_instance

/-- What the base document says about the name of a file. -/
def nameFields (path : CString) : Option Value × Option Value :=
  ((baseDocument path).get? .filename, (baseDocument path).get? .extension)

section Names

variable {path path' name dir : CString}

/-- The last component is what follows the last slash. -/
theorem lastComponent_join (h : slash ∉ name) (dir : CString) :
    lastComponent (dir ++ slash :: name) = name := by
  rw [lastComponent, strrchr_append_cons h]
  rfl

/-- The last occurrence of a byte. -/
theorem exists_last_of_mem {c : UInt8} {s : CString} (h : c ∈ s) :
    ∃ front rest, s = front ++ c :: rest ∧ c ∉ rest := by
  induction s with
  | nil =>
      cases h
  | cons b s ih =>
      by_cases hs : c ∈ s
      · rcases ih hs with ⟨front, rest, rfl, hrest⟩
        exact ⟨b :: front, rest, rfl, hrest⟩
      · -- no other occurrence follows
        rcases List.mem_cons.1 h with rfl | hmem
        · exact ⟨[], s, rfl, hs⟩
        · exact absurd hmem hs

/-- Neither function finds a dot. -/
theorem split_of_not_mem (h : dot ∉ lastComponent path) :
    getFilenameWithoutExtension path = lastComponent path ∧ getFileExtension path = [] := by
  have hnone := strrchr_eq_none h
  constructor
  · simp [getFilenameWithoutExtension, hnone]
  · simp [getFileExtension, hnone]

/-- Both find the last one, but an extension does not start at the first byte. -/
theorem split_of_last {front rest : CString} (h : lastComponent path = front ++ dot :: rest)
    (hrest : dot ∉ rest) :
    getFilenameWithoutExtension path = front ∧
      getFileExtension path = if front = [] then [] else dot :: rest := by
  have hlast := strrchr_append_cons hrest front
  rw [← h] at hlast
  have hlength : (lastComponent path).length = front.length + (dot :: rest).length := by
    rw [h, List.length_append]
  constructor
  · simp only [getFilenameWithoutExtension, hlast]
    rw [hlength, Nat.add_sub_cancel, h, List.take_left]
  · have hsame : (dot :: rest).length = (lastComponent path).length ↔ front = [] := by
      rw [hlength, ← List.length_eq_zero_iff]
      omega
    simp only [getFileExtension, hlast, hsame]

theorem isDotFile_append_cons {front rest : CString} (hrest : dot ∉ rest) :
    IsDotFile (front ++ dot :: rest) ↔ front = [] := by
  cases front with
  | nil =>
      simp [IsDotFile, hrest]
  | cons b front =>
      simp [IsDotFile]

/-- The two parts make up the name, unless it is lost altogether. -/
theorem split_append_iff :
    getFilenameWithoutExtension path ++ getFileExtension path = lastComponent path ↔
      ¬ IsDotFile (lastComponent path) := by
  by_cases hmem : dot ∈ lastComponent path
  · rcases exists_last_of_mem hmem with ⟨front, rest, hname, hrest⟩
    rcases split_of_last hname hrest with ⟨hfilename, hextension⟩
    rw [hfilename, hextension, hname, isDotFile_append_cons hrest]
    by_cases hfront : front = []
    · simp [hfront]
    · simp [hfront]
  · rcases split_of_not_mem hmem with ⟨hfilename, hextension⟩
    have hnot : ¬ IsDotFile (lastComponent path) := fun h =>
      hmem (List.mem_of_mem_head? h.1)
    simp [hfilename, hextension, hnot]

theorem nameFields_eq (path : CString) :
    nameFields path =
      (some (.utf8 (getFilenameWithoutExtension path)), some (.utf8 (getFileExtension path))) :=
  rfl

/-- For every two paths: the two parts make up the last component, and different last components
never have the same parts, if and only if neither of them starts with its only dot. -/
theorem split_iff (path path' : CString) :
    (getFilenameWithoutExtension path ++ getFileExtension path = lastComponent path ∧
        getFilenameWithoutExtension path' ++ getFileExtension path' = lastComponent path' ∧
        (lastComponent path ≠ lastComponent path' → nameFields path ≠ nameFields path')) ↔
      ¬ IsDotFile (lastComponent path) ∧ ¬ IsDotFile (lastComponent path') := by
  rw [← split_append_iff, ← split_append_iff]
  refine ⟨fun h => ⟨h.1, h.2.1⟩, fun h => ⟨h.1, h.2, fun hne hsame => hne ?_⟩⟩
  rw [nameFields_eq, nameFields_eq] at hsame
  simp only [Prod.mk.injEq, Option.some.injEq, Value.utf8.injEq] at hsame
  rw [← h.1, ← h.2, hsame.1, hsame.2]

/-- Two hidden files of a directory have the same parts, and nothing is left of either name. -/
theorem not_split_hidden :
    let path := ascii "d/.a"
    let path' := ascii "d/.b"
    lastComponent path = ascii ".a" ∧ lastComponent path' = ascii ".b" ∧
      getFilenameWithoutExtension path ++ getFileExtension path ≠ lastComponent path ∧
      getFilenameWithoutExtension path' ++ getFileExtension path' ≠ lastComponent path' ∧
      lastComponent path ≠ lastComponent path' ∧ nameFields path = nameFields path' := by
  decide

end Names

end FileExchange
