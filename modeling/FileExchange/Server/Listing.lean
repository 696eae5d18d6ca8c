import FileExchange.Server.Isolation

/-!
# Server.Listing — what a list request builds and shows

* `listLoop_eq`      : the loop joins their JSON texts with commas;
* `bufferLoop`       : the same loop with the blocks it allocates and the bytes it writes;
* `listWrites_inside_iff` : the closing bytes fit behind one document, but not behind more;
* `listed_exactly_iff`    : when the list is what the client may see.
-/

namespace FileExchange

open Lib

/-! ## The text -/

/-- The JSON texts of the documents that get into the list. -/
def listedTexts (env : ListEnv) (i : Nat) (docs : List Document) : List CString :=
  (listedDocs env i docs).filterMap env.json

/-- `[`, the texts with commas between them, `]`. -/
def listText (texts : List CString) : Bytes :=
  bracketOpen :: List.intercalate [comma] texts ++ [bracketClose]

/-- The header and the payload for a list. -/
def listReply (texts : List CString) : List Message :=
  [.response .success (listText texts).length, .payload (listText texts)]

theorem intercalate_comma_cons (t : CString) (ts : List CString) :
    List.intercalate [comma] (t :: ts) = t ++ (ts.map (comma :: ·)).flatten := by
  induction ts generalizing t with
  | nil =>
      simp [List.intercalate]
  | cons t' ts ih =>
      have htail : List.intercalate [comma] (t :: t' :: ts) =
          t ++ comma :: List.intercalate [comma] (t' :: ts) := by
        simp [List.intercalate]
      rw [htail, ih]
      simp

theorem listedTexts_cons (env : ListEnv) (i : Nat) (d : Document) (docs : List Document) :
    listedTexts env i (d :: docs) =
      match env.json d with
      | some json => if env.alloc i then json :: listedTexts env (i + 1) docs
          else listedTexts env (i + 1) docs
      | none => listedTexts env (i + 1) docs := by
  cases hjson : env.json d with
  | none =>
      simp [listedTexts, listedDocs, ListEnv.adds, hjson]
  | some json =>
      cases halloc : env.alloc i <;>
        simp [listedTexts, listedDocs, ListEnv.adds, hjson, halloc]

/-- With a list begun, each further text is put behind a comma. -/
theorem listLoop_of_ne_nil (env : ListEnv) {docs : List Document} : ∀ {i : Nat} {full : Bytes},
    full ≠ [] →
      listLoop env i docs full = full ++ ((listedTexts env i docs).map (comma :: ·)).flatten := by
  induction docs with
  | nil =>
      intro i full _
      simp [listLoop, listedTexts, listedDocs]
  | cons d docs ih =>
      intro i full hfull
      rw [listedTexts_cons, listLoop]
      cases hjson : env.json d with
      | none =>
          exact ih hfull
      | some json =>
          cases halloc : env.alloc i with
          | false =>
              simpa [halloc] using ih hfull
          | true =>
              have hnext : full ++ comma :: json ≠ [] := by simp [hfull]
              simpa [halloc, hfull] using ih (i := i + 1) hnext

/-- The loop from the start: nothing, or the bracket and the texts. -/
theorem listLoop_nil (env : ListEnv) {docs : List Document} : ∀ {i : Nat},
    listLoop env i docs [] =
      if listedTexts env i docs = [] then []
      else bracketOpen :: List.intercalate [comma] (listedTexts env i docs) := by
  induction docs with
  | nil =>
      intro i
      simp [listLoop, listedTexts, listedDocs]
  | cons d docs ih =>
      intro i
      rw [listedTexts_cons, listLoop]
      cases hjson : env.json d with
      | none =>
          exact ih
      | some json =>
          cases halloc : env.alloc i with
          | false =>
              simpa [halloc] using ih (i := i + 1)
          | true =>
              -- the first text comes behind the bracket, the others behind commas
              have hrest := @listLoop_of_ne_nil env docs (i + 1) (bracketOpen :: json) (by simp)
              simp [hrest, intercalate_comma_cons]

/-- The reply to a list request. -/
theorem handleList_sent (srv : Server) (env : ListEnv) :
    (handleList srv env).2 =
      if listCrashes srv env then [] else listReply (listedTexts env 0 (srv.cursor env)) := by
  simp only [handleList, listCrashes, listLoop_nil]
  generalize listedTexts env 0 (srv.cursor env) = texts
  cases texts with
  | nil =>
      -- the list is the literal `[]`, if `strdup` returns a copy of it
      cases env.strdup <;> simp [listReply, listText, List.intercalate]
  | cons t ts =>
      simp [listReply, listText]

/-! ## The block -/

/-- A write into `full_list`, which is then a block of `block` bytes. -/
structure BlockWrite where
  start : Nat
  bytes : Bytes
  block : Nat
  deriving DecidableEq, Repr

/-- All of its bytes lie inside the block. -/
def BlockWrite.Inside (w : BlockWrite) : Prop :=
  w.start + w.bytes.length ≤ w.block

instance (w : BlockWrite) : Decidable w.Inside := by
  unfold BlockWrite.Inside
  infer_instance

/-- `full_list[0 .. total_len)`, the size of the block (0 for a null pointer), and all writes so
far. -/
structure ListBuffer where
  full : Bytes
  block : Nat
  writes : List BlockWrite
  deriving DecidableEq, Repr

namespace ListBuffer

def empty : ListBuffer :=
  { full := [], block := 0, writes := [] }

/-- The body of the loop, for a document with the text `json`. -/
def append (buf : ListBuffer) (granted : Bool) (json : CString) : ListBuffer :=
  let totalLen := buf.full.length
  if !granted then buf
  else if totalLen = 0 then
    -- `malloc(len + 3)`, `strcpy(full_list, "[")` with its NUL, `memcpy`
    let block := json.length + 3
    { full := bracketOpen :: json
      block := block
      writes := buf.writes ++
        [{ start := 0, bytes := [bracketOpen, 0], block := block },
         { start := 1, bytes := json, block := block }] }
  else
    -- `realloc(full_list, total_len + len + 2)` comes before `total_len` counts the comma
    let block := totalLen + json.length + 2
    { full := buf.full ++ comma :: json
      block := block
      writes := buf.writes ++
        [{ start := totalLen, bytes := [comma], block := block },
         { start := totalLen + 1, bytes := json, block := block }] }

/-- `full_list[total_len++] = ']'; full_list[total_len] = '\0'`. -/
def close (buf : ListBuffer) : List BlockWrite :=
  let totalLen := buf.full.length
  if totalLen > 0 then
    buf.writes ++
      [{ start := totalLen, bytes := [bracketClose], block := buf.block },
       { start := totalLen + 1, bytes := [0], block := buf.block }]
  -- `strdup("[]")` writes into a block of its own
  else buf.writes

end ListBuffer

/-- `listLoop` with the block. -/
def bufferLoop (env : ListEnv) : Nat → List Document → ListBuffer → ListBuffer
  | _, [], buf => buf
  | i, d :: docs, buf =>
      match env.json d with
      | none => bufferLoop env (i + 1) docs buf
      | some json => bufferLoop env (i + 1) docs (buf.append (env.alloc i) json)

/-- Every write of `handle_list_request` into `full_list`. -/
def listWrites (env : ListEnv) (docs : List Document) : List BlockWrite :=
  (bufferLoop env 0 docs .empty).close

/-- The loop with the block builds the same text. -/
theorem full_bufferLoop (env : ListEnv) {docs : List Document} : ∀ {i : Nat} {buf : ListBuffer},
    (bufferLoop env i docs buf).full = listLoop env i docs buf.full := by
  induction docs with
  | nil =>
      intro i buf
      rfl
  | cons d docs ih =>
      intro i buf
      rw [bufferLoop, listLoop]
      cases hjson : env.json d with
      | none =>
          exact ih
      | some json =>
          dsimp only
          rw [ih, ListBuffer.append]
          -- no block, the first block, a larger one
          cases halloc : env.alloc i with
          | false =>
              simp
          | true =>
              by_cases hzero : buf.full.length = 0
              · simp [hzero]
              · simp [hzero]

/-- After `n` texts: the slack behind the text is 2 bytes for the first block, 1 byte for any
larger one, and all writes so far are inside. -/
structure ListBuffer.Fits (buf : ListBuffer) (n : Nat) : Prop where
  inside : ∀ w ∈ buf.writes, w.Inside
  none : n = 0 → buf = .empty
  first : n = 1 → 0 < buf.full.length ∧ buf.block = buf.full.length + 2
  more : 2 ≤ n → 0 < buf.full.length ∧ buf.block = buf.full.length + 1

theorem ListBuffer.fits_empty : ListBuffer.empty.Fits 0 where
  inside w hw := by cases hw
  none _ := rfl
  first h := by cases h
  more h := by omega

theorem ListBuffer.Fits.append {buf : ListBuffer} {n : Nat} (h : buf.Fits n) (json : CString) :
    (buf.append true json).Fits (n + 1) := by
  by_cases hn : n = 0
  · -- the first text
    cases h.none hn
    refine ⟨?_, by omega, ?_, by omega⟩
    · intro w hw
      simp only [ListBuffer.append, ListBuffer.empty, Bool.not_true, Bool.false_eq_true, if_false,
        List.length_nil, if_true, List.nil_append, List.mem_cons, List.not_mem_nil, or_false] at hw
      rcases hw with rfl | rfl
      · simp [BlockWrite.Inside]
      · simp only [BlockWrite.Inside]
        omega
    · intro _
      simp [ListBuffer.append, ListBuffer.empty]
  · have hpos : 0 < buf.full.length := by
      by_cases hone : n = 1
      · exact (h.first hone).1
      · exact (h.more (by omega)).1
    have hne : buf.full.length ≠ 0 := by omega
    refine ⟨?_, by omega, by omega, ?_⟩
    · intro w hw
      simp only [ListBuffer.append, Bool.not_true, Bool.false_eq_true, if_false, hne,
        List.mem_append, List.mem_cons, List.not_mem_nil, or_false] at hw
      rcases hw with hw | rfl | rfl
      · exact h.inside w hw
      · simp only [BlockWrite.Inside, List.length_singleton]
        omega
      · simp only [BlockWrite.Inside]
        omega
    · intro _
      simp only [ListBuffer.append, Bool.not_true, Bool.false_eq_true, if_false, hne,
        List.length_append, List.length_cons]
      omega

theorem ListBuffer.Fits.loop {env : ListEnv} {docs : List Document} :
    ∀ {i n : Nat} {buf : ListBuffer}, buf.Fits n →
      (bufferLoop env i docs buf).Fits (n + (listedDocs env i docs).length) := by
  induction docs with
  | nil =>
      intro i n buf h
      exact h
  | cons d docs ih =>
      intro i n buf h
      rw [bufferLoop, listedDocs, ListEnv.adds]
      cases hjson : env.json d with
      | none =>
          simpa using ih h
      | some json =>
          cases halloc : env.alloc i with
          | false =>
              simpa [ListBuffer.append] using ih h
          | true =>
              have hnext := ih (i := i + 1) (h.append json)
              simpa [Nat.add_assoc, Nat.add_comm 1] using hnext

/-- The closing bytes fit behind the first text only. -/
theorem ListBuffer.Fits.close_inside_iff {buf : ListBuffer} {n : Nat} (h : buf.Fits n) :
    (∀ w ∈ buf.close, w.Inside) ↔ n ≤ 1 := by
  constructor
  · intro hall
    by_contra hn
    rcases h.more (by omega) with ⟨hpos, hblock⟩
    -- the NUL goes one byte behind the block
    have hmem : { start := buf.full.length + 1, bytes := [0], block := buf.block } ∈ buf.close := by
      simp [ListBuffer.close, hpos]
    have hlast := hall _ hmem
    simp only [BlockWrite.Inside, List.length_singleton] at hlast
    omega
  · intro hn w hw
    by_cases hzero : n = 0
    · cases h.none hzero
      cases hw
    · rcases h.first (by omega) with ⟨hpos, hblock⟩
      simp only [ListBuffer.close, gt_iff_lt, hpos, if_true, List.mem_append, List.mem_cons,
        List.not_mem_nil, or_false] at hw
      rcases hw with hw | rfl | rfl
      · exact h.inside w hw
      · simp only [BlockWrite.Inside, List.length_singleton]
        omega
      · simp only [BlockWrite.Inside, List.length_singleton]
        omega

/-- Every byte is written inside the block that `full_list` then is, if and only if at most one
document gets into the list. -/
theorem listWrites_inside_iff (env : ListEnv) (docs : List Document) :
    (∀ w ∈ listWrites env docs, w.Inside) ↔ (listedDocs env 0 docs).length ≤ 1 := by
  have hfits : (bufferLoop env 0 docs .empty).Fits (0 + (listedDocs env 0 docs).length) :=
    ListBuffer.fits_empty.loop
  rw [Nat.zero_add] at hfits
  exact hfits.close_inside_iff

/-- The shortest JSON text of a document. -/
def emptyObject : CString := [123, 125]

/-- Two documents with this text: the closing NUL is written behind the block of 7 bytes. -/
theorem listWrites_two_documents :
    let docs := [baseDocument (ascii "/a"), baseDocument (ascii "/b")]
    (listWrites (ListEnv.ok fun _ => emptyObject) docs).getLast? =
        some { start := 7, bytes := [0], block := 7 } ∧
      ¬ ∀ w ∈ listWrites (ListEnv.ok fun _ => emptyObject) docs, w.Inside := by
  decide

/-! ## The documents of a run -/

/-- An upload document, up to its events. -/
def Document.FromUpload (d : Document) : Prop :=
  ∃ filename filesize iv tag owner,
    d.withoutProc = uploadDocument filename filesize iv tag owner

/-- A base document, up to its events. -/
def Document.FromJournal (d : Document) : Prop :=
  ∃ fileId, d.withoutProc = (baseDocument fileId).withoutProc

/-- The collection holds nothing but documents that uploads or `append_proc_event` inserted. -/
def Recorded (coll : Collection) : Prop :=
  ∀ d ∈ coll, d.FromUpload ∨ d.FromJournal

section Recorded

variable {lib : CryptoLib} {coll coll' : Collection} {fileId : CString}

theorem Recorded.concat {d : Document} (h : Recorded coll) (hd : d.FromUpload ∨ d.FromJournal) :
    Recorded (coll ++ [d]) := by
  intro e he
  rcases List.mem_append.1 he with he | he
  · exact h e he
  · cases List.mem_singleton.1 he
    exact hd

theorem Recorded.createBaseDocument (h : Recorded coll) (env : AppendEnv) (fileId : CString) :
    Recorded (createBaseDocument env coll fileId).1 := by
  rcases createBaseDocument_cases env coll fileId with heq | ⟨_, heq⟩ | ⟨_, heq⟩
  · rw [heq]
    exact h
  · rw [heq]
    exact h
  · rw [heq]
    exact h.concat (Or.inr ⟨fileId, rfl⟩)

/-- An entry of a `proc` map does not change what a document is. -/
theorem Recorded.of_withoutEvents (h : Recorded coll)
    (heq : withoutEvents coll' = withoutEvents coll) : Recorded coll' := by
  intro d hd
  have hmem : d.withoutProc ∈ withoutEvents coll := by
    rw [← heq]
    exact List.mem_map_of_mem hd
  rcases List.mem_map.1 hmem with ⟨e, he, hsame⟩
  rcases h e he with ⟨filename, filesize, iv, tag, owner, hup⟩ | ⟨fileId, hbase⟩
  · exact Or.inl ⟨filename, filesize, iv, tag, owner, hsame.symm.trans hup⟩
  · exact Or.inr ⟨fileId, hsame.symm.trans hbase⟩

theorem Recorded.appendStep {t t' : AppendThread} (h : Recorded coll)
    (hstep : appendStep fileId coll t = some (coll', t')) : Recorded coll' := by
  unfold FileExchange.appendStep at hstep
  split at hstep
  · simp only at hstep
    split at hstep
    · cases hstep
      exact h.createBaseDocument _ _
    · cases hstep
      exact h.createBaseDocument _ _
  · split at hstep
    · cases hstep
      exact h
    · cases hstep
      exact h
  · cases hstep
    exact h.of_withoutEvents (withoutEvents_setProcEvent _ _ _ _ _)
  · cases hstep

/-- What a step of a handler does to the collection: nothing, the insert of an upload document, or
a command of `append_proc_event`. -/
theorem requestStep_collection {g : Nat} {srv srv' : Server} {r : Request} {pc pc' : Pc}
    {msgs : List Message} (h : requestStep lib g srv r pc = some (srv', pc', msgs)) :
    srv'.collection = srv.collection ∨
      (∃ file : SealedFile, srv'.collection = srv.collection ++ [file.document r.header r.client]) ∨
      (∃ fileId call call',
        appendStep fileId srv.collection call = some (srv'.collection, call')) := by
  cases pc with
  | start =>
      simp only [requestStep, startStep, Option.some.injEq] at h
      split at h
      · split at h <;> cases h <;> exact Or.inl rfl
      · split at h
        · cases h
          exact Or.inl rfl
        · split at h
          · cases h
            exact Or.inl rfl
          · split at h <;> cases h <;> exact Or.inl rfl
      · cases h
        exact Or.inl (handleList_server srv r.list).2.2
      · cases h
        exact Or.inl rfl
  | opening file =>
      simp only [requestStep, openStep, Option.some.injEq] at h
      split at h
      · cases h
        exact Or.inl rfl
      · split at h <;> cases h <;> exact Or.inl rfl
  | writing file pos =>
      simp only [requestStep, writeStep, Option.some.injEq] at h
      split at h
      · cases h
        exact Or.inl rfl
      · split at h <;> cases h <;> exact Or.inl rfl
  | inserting file =>
      simp only [requestStep, insertStep, insertUpload_eq, Option.some.injEq] at h
      cases hins : r.upload.insert with
      | false =>
          simp only [hins, Bool.false_eq_true, if_false] at h
          cases h
          exact Or.inl rfl
      | true =>
          simp only [hins, if_true] at h
          cases h
          exact Or.inr (Or.inl ⟨file, rfl⟩)
  | stat d =>
      simp only [requestStep, statStep, Option.some.injEq] at h
      split at h
      · cases h
        exact Or.inl rfl
      · split at h
        · cases h
          exact Or.inl rfl
        · split at h
          · cases h
            exact Or.inl rfl
          · split at h <;> cases h <;> exact Or.inl rfl
  | reading d size acc =>
      simp only [requestStep, readStep, Option.some.injEq] at h
      split at h
      · cases h
        exact Or.inl rfl
      · split at h
        · split at h <;> cases h <;> exact Or.inl rfl
        · split at h <;> cases h <;> exact Or.inl rfl
  | event fileId call reply =>
      simp only [requestStep] at h
      split at h
      · next q hq =>
          cases h
          exact Or.inr (Or.inr ⟨fileId, call, q.2, hq⟩)
      · cases h
        exact Or.inl rfl
  | done =>
      cases h

/-- Handlers and the daemon, in whatever order they take their steps, leave such documents
only. -/
theorem recorded_run {es : List (Turn Job Nat)} {p p' : Pool Server Thread}
    (h : Recorded p.shared.collection) (hrun : (serverThreads lib).lts.run p es = some p') :
    Recorded p'.shared.collection := by
  refine (ThreadSystem.run_invariant (serverThreads lib)
    (fun srv => Recorded srv.collection) (fun _ _ => True) (fun _ => True) ?_ ?_ h ?_ ?_ hrun).1
  · intro srv job _ _
    trivial
  · intro g srv t srv' t' hsrv _ hstep
    refine ⟨?_, trivial, fun _ _ => trivial⟩
    cases t with
    | request r pc sent =>
        simp only [serverThreads, threadStep] at hstep
        split at hstep
        · cases hstep
        · rcases Option.map_eq_some_iff.1 hstep with ⟨q, hq, heq⟩
          cases heq
          rcases requestStep_collection hq with
            hsame | ⟨file, hinsert⟩ | ⟨fileId, call, call', happ⟩
          · rw [hsame]
            exact hsrv
          · rw [hinsert]
            refine hsrv.concat (Or.inl ⟨r.header.filename, r.header.filesize, file.iv, file.tag,
              r.client, ?_⟩)
            exact withoutProc_uploadDocument _ _ _ _ _
          · exact hsrv.appendStep happ
    | daemon fileId call =>
        rcases Option.map_eq_some_iff.1 hstep with ⟨q, hq, heq⟩
        cases heq
        exact hsrv.appendStep hq
  · intro _ _
    trivial
  · intro _ _
    trivial

end Recorded

/-! ## What the client may see -/

/-- An upload document whose owner or recipient is `client`, or a public one. -/
def Document.visibleTo (d : Document) (client : CString) : Bool :=
  d.isUpload &&
    (d.utf8? .ownerFingerprint = some client || d.utf8? .recipientFingerprint = some client ||
      d.bool? .isPublic = some true)

/-- An upload document whose owner is `client`. -/
def Document.ownedBy (d : Document) (client : CString) : Bool :=
  d.isUpload && decide (d.utf8? .ownerFingerprint = some client)

/-- No document of a run names a recipient or is public. -/
theorem Document.visibleTo_eq_ownedBy {d : Document} (h : d.FromUpload ∨ d.FromJournal)
    (client : CString) : d.visibleTo client = d.ownedBy client := by
  have hupload : d.isUpload = d.withoutProc.isUpload := d.isUpload_withoutProc.symm
  rcases h with ⟨filename, filesize, iv, tag, owner, hd⟩ | ⟨fileId, hd⟩
  · have hsame := hd.trans (withoutProc_uploadDocument filename filesize iv tag owner).symm
    have hrecipient : d.utf8? .recipientFingerprint = none := by
      rw [Document.utf8?_congr hsame (by decide)]
      rfl
    have hpublic : d.bool? .isPublic = none := by
      rw [Document.bool?_congr hsame (by decide)]
      rfl
    simp [Document.visibleTo, Document.ownedBy, hrecipient, hpublic]
  · -- a base document is no upload document
    have hbase : d.isUpload = false := by
      rw [hupload, hd, Document.isUpload_withoutProc]
      simp [Document.isUpload, baseDocument, OrderedMap.get?]
    simp [Document.visibleTo, Document.ownedBy, hbase]

theorem listedDocs_sublist (env : ListEnv) {docs : List Document} : ∀ {i : Nat},
    (listedDocs env i docs).Sublist docs := by
  induction docs with
  | nil =>
      intro i
      exact List.Sublist.refl _
  | cons d docs ih =>
      intro i
      rw [listedDocs]
      split
      · exact ih.cons_cons d
      · exact ih.cons d

/-- The list has the documents with the property `P`, each as often as the cursor, if and only if
these are the ones that get into it. -/
theorem listedDocs_perm_filter_iff (env : ListEnv) (P : Document → Bool) {docs : List Document} :
    ∀ {i : Nat}, (listedDocs env i docs).Perm (docs.filter P) ↔
      ∀ j d, docs[j]? = some d → (env.adds (i + j) d = true ↔ P d = true) := by
  induction docs with
  | nil =>
      intro i
      simp [listedDocs]
  | cons d docs ih =>
      intro i
      -- the head of the cursor, and the rest
      have hsplit : (∀ j e, (d :: docs)[j]? = some e → (env.adds (i + j) e = true ↔ P e = true)) ↔
          (env.adds i d = true ↔ P d = true) ∧
            ∀ j e, docs[j]? = some e → (env.adds (i + 1 + j) e = true ↔ P e = true) := by
        constructor
        · intro h
          refine ⟨h 0 d rfl, fun j e he => ?_⟩
          have hj := h (j + 1) e he
          rwa [← Nat.add_assoc, Nat.add_right_comm] at hj
        · rintro ⟨hd, hrest⟩ j e he
          cases j with
          | zero =>
              cases he
              exact hd
          | succ j =>
              have hj := hrest j e he
              rwa [Nat.add_right_comm, Nat.add_assoc] at hj
      rw [hsplit, listedDocs, ← ih]
      cases hadd : env.adds i d with
      | true =>
          cases hP : P d with
          | true =>
              simp [hP]
          | false =>
              -- a document that is not wanted is listed
              have hmem : ¬ (d :: listedDocs env (i + 1) docs).Perm (docs.filter P) := by
                intro hperm
                have hd : d ∈ docs.filter P := hperm.subset List.mem_cons_self
                rw [List.mem_filter, hP] at hd
                exact absurd hd.2 Bool.false_ne_true
              simp [hP, hmem]
      | false =>
          cases hP : P d with
          | false =>
              simp [hP]
          | true =>
              -- one that is wanted is left out, so the list has too few copies of it
              have hcount : ¬ (listedDocs env (i + 1) docs).Perm (d :: docs.filter P) := by
                intro hperm
                have heq := hperm.count_eq d
                have hle := (@listedDocs_sublist env docs (i + 1)).count_le d
                rw [List.count_cons_self, List.count_filter (by simp [hP])] at heq
                omega
              simp [hP, hcount]

/-- In every reachable state the reply to a list request consists of the documents that are
converted and get their block.  They are those that `client` may see if and only if these
documents are the ones that `client` uploaded. -/
theorem listed_exactly_iff {lib : CryptoLib} {srv : Server} {es : List (Turn Job Nat)}
    {p : Pool Server Thread} (hcoll : Recorded srv.collection)
    (hrun : (serverThreads lib).lts.run { shared := srv, threads := [] } es = some p)
    (env : ListEnv) (client : CString) :
    (handleList p.shared env).2 =
        (if listCrashes p.shared env then []
        else listReply ((listedDocs env 0 (p.shared.cursor env)).filterMap env.json)) ∧
      ((listedDocs env 0 (p.shared.cursor env)).Perm
          (p.shared.collection.filter fun d => d.visibleTo client) ↔
        ∀ i d, p.shared.collection[i]? = some d →
          ((env.find && env.adds i d) = true ↔ d.ownedBy client = true)) := by
  refine ⟨handleList_sent p.shared env, ?_⟩
  have hrecorded : Recorded p.shared.collection := recorded_run hcoll hrun
  have hfilter : (p.shared.collection.filter fun d => d.visibleTo client) =
      p.shared.collection.filter fun d => d.ownedBy client :=
    List.filter_congr fun d hd => Document.visibleTo_eq_ownedBy (hrecorded d hd) client
  rw [hfilter]
  cases hfind : env.find with
  | true =>
      -- the empty query selects every document
      have hcursor : p.shared.cursor env = p.shared.collection := by
        simp [Server.cursor, hfind, Collection.find, Document.satisfies]
      rw [hcursor, listedDocs_perm_filter_iff]
      simp
  | false =>
      have hcursor : p.shared.cursor env = [] := by
        simp [Server.cursor, hfind]
      rw [hcursor, listedDocs, List.nil_perm, List.filter_eq_nil_iff]
      constructor
      · intro h i d hd
        have hnot := h d (List.mem_of_getElem? hd)
        simp [hnot]
      · intro h d hd
        rcases List.mem_iff_getElem?.1 hd with ⟨i, hi⟩
        simpa using h i d hi

section Samples

/-- Alice's upload of "hi" as "a", whose event is not recorded. -/
def unrecordedUpload : Request :=
  { aliceUpload with
      upload := { aliceUpload.upload with
        event := { aliceUpload.upload.event with insert := false } } }

theorem recorded_nil : Recorded [] := by
  intro d hd
  cases hd

/-- Then her list is what she may see. -/
theorem listed_exactly_alice :
    let srv := (serve sampleLib (Server.started sampleKey OrderedMap.empty []) unrecordedUpload).1
    (listedDocs (ListEnv.ok fun _ => []) 0 (srv.cursor (ListEnv.ok fun _ => []))).Perm
      (srv.collection.filter fun d => d.visibleTo (ascii "alice")) := by
  intro srv
  obtain ⟨es, _, hrun⟩ := run_serve_first sampleLib
    (Server.started sampleKey OrderedMap.empty []) rfl unrecordedUpload
  refine (listed_exactly_iff recorded_nil hrun (ListEnv.ok fun _ => []) (ascii "alice")).2.2 ?_
  have hcoll : srv.collection.all (fun d => d.ownedBy (ascii "alice")) = true := by decide
  intro i d hd
  have howned : d.ownedBy (ascii "alice") = true :=
    List.all_eq_true.1 hcoll d (List.mem_of_getElem? hd)
  simp [ListEnv.ok, ListEnv.adds, howned]

/-- After Alice's upload Bob is shown her document, and both are shown its event document. -/
theorem listed_to_bob :
    (∃ es, (serverThreads sampleLib).lts.run
      { shared := Server.started sampleKey OrderedMap.empty [], threads := [] } es =
        some { shared := afterAlice, threads := [.request aliceUpload .done acknowledgement] }) ∧
      (handleList afterAlice (ListEnv.ok fun _ => emptyObject)).2 =
        [.response .success 7, .payload (ascii "[" ++ emptyObject ++ ascii "," ++ emptyObject ++
          ascii "]")] ∧
      (afterAlice.collection.filter fun d => d.visibleTo (ascii "bob")) = [] ∧
      ¬ (listedDocs (ListEnv.ok fun _ => []) 0 (afterAlice.cursor (ListEnv.ok fun _ => []))).Perm
        (afterAlice.collection.filter fun d => d.visibleTo (ascii "bob")) := by
  refine ⟨afterAlice_reachable, by decide, by decide, fun hperm => ?_⟩
  have hlength := hperm.length_eq
  revert hlength
  decide

end Samples

end FileExchange
