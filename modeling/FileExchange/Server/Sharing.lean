import FileExchange.Server.Confidentiality

/-!
# Server.Sharing — the documents of a reachable state, and who may download

In every interleaving the upload documents are those of the handlers that have inserted one.
`handle_upload_request` appends recipient and publicity to the document after it is inserted, so
the stored documents carry neither, and the permission check only ever lets the owner pass.

* `Thread.hasInserted`  : an upload past its insertion;
* `UploadPool`          : documents and handlers of a reachable state belong together;
* `firstUpload?_of_once` : the document of a name that was uploaded once;
* `permits_as_requested_iff` : for which clients the permission is the one asked for.
-/

namespace FileExchange

open Lib

/-! ## Handlers that have inserted their document -/

/-- The two replies of a successful upload. -/
def acknowledgement : List Message :=
  [.status .success, .status .success]

/-- An upload that has inserted its document: it appends its event, or it has sent its reply. -/
def Thread.hasInserted : Thread → Prop
  | .request r pc sent =>
      r.header.command = .upload ∧
        ((∃ fileId call reply, pc = .event fileId call reply) ∨
          (pc = .done ∧ sent = acknowledgement))
  | .daemon _ _ => False

/-- The document of a request, when its upload gets that far. -/
def IsDocumentOf (lib : CryptoLib) (key : Bytes) (u : Request) (d : Document) : Prop :=
  ∃ file, Seals lib key u file ∧ d = file.document u.header u.client

/-- What an upload handler has sent, and what it has in hand, at each place in the code. -/
def Thread.InStep (lib : CryptoLib) (key : Bytes) : Thread → Prop
  | .request r pc sent =>
      match pc with
      | .start => sent = []
      | .opening file | .writing file _ | .inserting file =>
          Seals lib key r file ∧ sent = [.status .success]
      | .stat _ | .reading _ _ _ => r.header.command ≠ .upload
      | .event _ _ reply =>
          r.header.command = .upload → sent = [.status .success] ∧ reply = [.status .success]
      | .done => True
  | .daemon _ _ => True

/-- Every upload document that is not an old one belongs to a handler that has inserted it, and
conversely. -/
structure UploadPool (lib : CryptoLib) (key : Bytes) (old : List Document)
    (p : Pool Server Thread) : Prop where
  crypto : p.shared.crypto = { key := key, initialized := true }
  inStep : ∀ t ∈ p.threads, t.InStep lib key
  inserted : ∀ d ∈ uploadDocs p.shared.collection, d ∈ old ∨ ∃ u pc sent,
    Thread.request u pc sent ∈ p.threads ∧ (Thread.request u pc sent).hasInserted ∧
      IsDocumentOf lib key u d
  present : ∀ u pc sent, Thread.request u pc sent ∈ p.threads →
    (Thread.request u pc sent).hasInserted →
      ∃ d ∈ uploadDocs p.shared.collection, IsDocumentOf lib key u d

section Steps

variable {lib : CryptoLib} {key : Bytes} {r : Request} {g : Nat} {srv srv' : Server}
  {pc pc' : Pc} {sent msgs : List Message}

/-- What a step does to documents: nothing, or it inserts the handler's own one. -/
def DocumentStep (lib : CryptoLib) (key : Bytes) (r : Request) (srv srv' : Server)
    (t t' : Thread) : Prop :=
  srv'.crypto = srv.crypto ∧ t'.InStep lib key ∧
    ((uploadDocs srv'.collection = uploadDocs srv.collection ∧ (t'.hasInserted ↔ t.hasInserted)) ∨
      (∃ d, IsDocumentOf lib key r d ∧
        uploadDocs srv'.collection = uploadDocs srv.collection ++ [d] ∧ t'.hasInserted))

theorem startStep_documents (hcrypto : srv.crypto = { key := key, initialized := true })
    (h : startStep lib srv r = (srv', pc', msgs)) :
    DocumentStep lib key r srv srv' (.request r .start []) (.request r pc' msgs) := by
  have hstart : ¬ (Thread.request r .start []).hasInserted := by
    simp [Thread.hasInserted]
  unfold startStep at h
  split at h
  · next hcmd =>
      cases hfile : (uploadPrologue lib srv.crypto r.upload r.header r.incoming).file with
      | none =>
          have hne := uploadPrologue_sent_ne hfile
          simp only [hfile] at h
          cases h
          refine ⟨rfl, trivial, Or.inl ⟨rfl, iff_of_false ?_ hstart⟩⟩
          simpa [Thread.hasInserted, acknowledgement] using fun _ => hne
      -- the handler holds its file and has told the client to send
      | some file =>
          have hdel := uploadPrologue_delivers hfile
          simp only [hfile] at h
          cases h
          refine ⟨rfl, ⟨⟨hcmd, ?_⟩, hdel.sent⟩, Or.inl ⟨rfl, iff_of_false ?_ hstart⟩⟩
          · rw [← hcrypto]
            exact hdel
          · simp [Thread.hasInserted]
  · next hcmd =>
      -- no step of a download, a list or an unknown command inserts an upload document
      have hnot : ∀ pc sent, ¬ (Thread.request r pc sent).hasInserted := by
        simp [Thread.hasInserted, hcmd]
      split at h
      · cases h
        exact ⟨rfl, trivial, Or.inl ⟨rfl, iff_of_false (hnot _ _) hstart⟩⟩
      · split at h
        · cases h
          exact ⟨rfl, trivial, Or.inl ⟨rfl, iff_of_false (hnot _ _) hstart⟩⟩
        · split at h
          · cases h
            exact ⟨rfl, trivial, Or.inl ⟨rfl, iff_of_false (hnot _ _) hstart⟩⟩
          · cases h
            exact ⟨rfl, by simp [Thread.InStep, hcmd],
              Or.inl ⟨rfl, iff_of_false (hnot _ _) hstart⟩⟩
  · next hcmd =>
      rcases handleList_server srv r.list with ⟨hkey, _, hcoll⟩
      have hnot : ∀ pc sent, ¬ (Thread.request r pc sent).hasInserted := by
        simp [Thread.hasInserted, hcmd]
      cases h
      exact ⟨hkey, trivial, Or.inl ⟨by rw [hcoll], iff_of_false (hnot _ _) hstart⟩⟩
  · next hcmd =>
      have hnot : ∀ pc sent, ¬ (Thread.request r pc sent).hasInserted := by
        simp [Thread.hasInserted, hcmd]
      cases h
      exact ⟨rfl, trivial, Or.inl ⟨rfl, iff_of_false (hnot _ _) hstart⟩⟩

/-- An upload that ends with an error has not inserted anything. -/
theorem not_hasInserted_of_error {sent : List Message} (h : sent = [.status .success]) :
    ¬ (Thread.request r .done (sent ++ [.status .error])).hasInserted := by
  simp [Thread.hasInserted, acknowledgement, h, Message.status]

theorem openStep_documents {file : SealedFile}
    (ht : (Thread.request r (.opening file) sent).InStep lib key)
    (h : openStep srv r file = (srv', pc', msgs)) :
    DocumentStep lib key r srv srv' (.request r (.opening file) sent)
      (.request r pc' (sent ++ msgs)) := by
  have hbefore : ¬ (Thread.request r (.opening file) sent).hasInserted := by
    simp [Thread.hasInserted]
  unfold openStep at h
  split at h
  · cases h
    exact ⟨rfl, trivial, Or.inl ⟨rfl, iff_of_false (not_hasInserted_of_error ht.2) hbefore⟩⟩
  · split at h
    · cases h
      -- the crash: only the readiness reply was sent
      refine ⟨rfl, trivial, Or.inl ⟨rfl, iff_of_false ?_ hbefore⟩⟩
      simp [Thread.hasInserted, acknowledgement, ht.2]
    · cases h
      refine ⟨rfl, by simpa [Thread.InStep] using ht, Or.inl ⟨rfl, iff_of_false ?_ hbefore⟩⟩
      simp [Thread.hasInserted]

theorem writeStep_documents {file : SealedFile} {pos : Nat}
    (ht : (Thread.request r (.writing file pos) sent).InStep lib key)
    (h : writeStep g srv r file pos = (srv', pc', msgs)) :
    DocumentStep lib key r srv srv' (.request r (.writing file pos) sent)
      (.request r pc' (sent ++ msgs)) := by
  have hbefore : ¬ (Thread.request r (.writing file pos) sent).hasInserted := by
    simp [Thread.hasInserted]
  simp only [writeStep] at h
  split at h
  · cases h
    refine ⟨rfl, by simpa [Thread.InStep] using ht, Or.inl ⟨rfl, iff_of_false ?_ hbefore⟩⟩
    simp [Thread.hasInserted]
  · split at h
    · cases h
      exact ⟨rfl, trivial, Or.inl ⟨rfl, iff_of_false (not_hasInserted_of_error ht.2) hbefore⟩⟩
    · cases h
      refine ⟨rfl, by simpa [Thread.InStep] using ht, Or.inl ⟨rfl, iff_of_false ?_ hbefore⟩⟩
      simp [Thread.hasInserted]

theorem insertStep_documents {file : SealedFile}
    (ht : (Thread.request r (.inserting file) sent).InStep lib key)
    (h : insertStep srv r file = (srv', pc', msgs)) :
    DocumentStep lib key r srv srv' (.request r (.inserting file) sent)
      (.request r pc' (sent ++ msgs)) := by
  have hbefore : ¬ (Thread.request r (.inserting file) sent).hasInserted := by
    simp [Thread.hasInserted]
  simp only [insertStep, insertUpload_eq] at h
  cases hins : r.upload.insert with
  | false =>
      simp only [hins, Bool.false_eq_true, if_false] at h
      cases h
      exact ⟨rfl, trivial, Or.inl ⟨rfl, iff_of_false (not_hasInserted_of_error ht.2) hbefore⟩⟩
  | true =>
      simp only [hins, if_true] at h
      cases h
      -- recipient and publicity are appended after this, to a document that is destroyed
      refine ⟨rfl, fun _ => ⟨by simp [ht.2], rfl⟩, Or.inr ⟨_, ⟨file, ht.1, rfl⟩, ?_, ?_⟩⟩
      · rw [uploadDocs_append, SealedFile.document, uploadDocs_uploadDocument]
      · exact ⟨ht.1.1, Or.inl ⟨_, _, _, rfl⟩⟩

theorem statStep_documents {d : Document}
    (ht : (Thread.request r (.stat d) sent).InStep lib key)
    (h : statStep srv r d = (srv', pc', msgs)) :
    DocumentStep lib key r srv srv' (.request r (.stat d) sent)
      (.request r pc' (sent ++ msgs)) := by
  have hnot : ∀ pc sent, ¬ (Thread.request r pc sent).hasInserted := by
    intro pc sent hins
    exact ht hins.1
  unfold statStep at h
  split at h
  · cases h
    exact ⟨rfl, trivial, Or.inl ⟨rfl, iff_of_false (hnot _ _) (hnot _ _)⟩⟩
  · split at h
    · cases h
      exact ⟨rfl, trivial, Or.inl ⟨rfl, iff_of_false (hnot _ _) (hnot _ _)⟩⟩
    · split at h
      · cases h
        exact ⟨rfl, trivial, Or.inl ⟨rfl, iff_of_false (hnot _ _) (hnot _ _)⟩⟩
      · split at h
        · cases h
          exact ⟨rfl, trivial, Or.inl ⟨rfl, iff_of_false (hnot _ _) (hnot _ _)⟩⟩
        · cases h
          exact ⟨rfl, ht, Or.inl ⟨rfl, iff_of_false (hnot _ _) (hnot _ _)⟩⟩

theorem readStep_documents {d : Document} {size : Nat} {acc : Bytes}
    (ht : (Thread.request r (.reading d size acc) sent).InStep lib key)
    (h : readStep lib g srv r d size acc = (srv', pc', msgs)) :
    DocumentStep lib key r srv srv' (.request r (.reading d size acc) sent)
      (.request r pc' (sent ++ msgs)) := by
  have hcmd : r.header.command ≠ .upload := ht
  have hnot : ∀ pc sent, ¬ (Thread.request r pc sent).hasInserted := by
    intro pc sent hins
    exact hcmd hins.1
  simp only [readStep] at h
  split at h
  · cases h
    exact ⟨rfl, trivial, Or.inl ⟨rfl, iff_of_false (hnot _ _) (hnot _ _)⟩⟩
  · split at h
    · split at h
      · cases h
        exact ⟨rfl, trivial, Or.inl ⟨rfl, iff_of_false (hnot _ _) (hnot _ _)⟩⟩
      · cases h
        exact ⟨rfl, ht, Or.inl ⟨rfl, iff_of_false (hnot _ _) (hnot _ _)⟩⟩
    · split at h
      · cases h
        exact ⟨rfl, trivial, Or.inl ⟨rfl, iff_of_false (hnot _ _) (hnot _ _)⟩⟩
      · cases h
        exact ⟨rfl, trivial, Or.inl ⟨rfl, iff_of_false (hnot _ _) (hnot _ _)⟩⟩
      · cases h
        exact ⟨rfl, fun hup => absurd hup hcmd,
          Or.inl ⟨rfl, iff_of_false (hnot _ _) (hnot _ _)⟩⟩

theorem requestStep_documents (hcrypto : srv.crypto = { key := key, initialized := true })
    (ht : (Thread.request r pc sent).InStep lib key)
    (h : requestStep lib g srv r pc = some (srv', pc', msgs)) :
    DocumentStep lib key r srv srv' (.request r pc sent) (.request r pc' (sent ++ msgs)) := by
  cases pc with
  | start =>
      have hsent : sent = [] := ht
      subst hsent
      exact startStep_documents hcrypto (Option.some.inj h)
  | opening file =>
      exact openStep_documents ht (Option.some.inj h)
  | writing file pos =>
      exact writeStep_documents ht (Option.some.inj h)
  | inserting file =>
      exact insertStep_documents ht (Option.some.inj h)
  | stat d =>
      exact statStep_documents ht (Option.some.inj h)
  | reading d size acc =>
      exact readStep_documents ht (Option.some.inj h)
  | event fileId call reply =>
      simp only [requestStep] at h
      split at h
      -- a command of `append_proc_event`
      · next q hq =>
          cases h
          refine ⟨rfl, by simpa [Thread.InStep] using ht, Or.inl ⟨?_, by simp [Thread.hasInserted]⟩⟩
          exact uploadDocs_appendStep q.1 q.2 hq
      · cases h
        refine ⟨rfl, trivial, Or.inl ⟨rfl, ?_⟩⟩
        simp only [Thread.hasInserted]
        refine and_congr_right fun hcmd => ?_
        refine iff_of_true (Or.inr ⟨trivial, ?_⟩) (Or.inl ⟨_, _, _, rfl⟩)
        -- the last reply of an upload completes the acknowledgement
        rcases ht hcmd with ⟨hsent, hreply⟩
        rw [hsent, hreply]
        rfl
  | done =>
      cases h

end Steps

/-! ## Reachable states -/

section Pools

variable {lib : CryptoLib} {key : Bytes} {old : List Document} {p : Pool Server Thread}
  {i g : Nat} {r : Request} {pc pc' : Pc} {sent msgs : List Message} {srv' : Server}

/-- A request other than the stepping one, or the stepping one with its new place. -/
theorem mem_set_request {ts : List Thread} {t' : Thread} {u : Request} {pcu : Pc}
    {sentu : List Message} (hu : Thread.request u pcu sentu ∈ ts.set i t') :
    Thread.request u pcu sentu ∈ ts ∨ Thread.request u pcu sentu = t' :=
  List.mem_or_eq_of_mem_set hu

theorem UploadPool.advance (hp : UploadPool lib key old p)
    (ht : p.threads[i]? = some (.request r pc sent))
    (h : requestStep lib g p.shared r pc = some (srv', pc', msgs)) :
    UploadPool lib key old
      { shared := srv', threads := p.threads.set i (.request r pc' (sent ++ msgs)) } := by
  have hi : i < p.threads.length := (List.getElem?_eq_some_iff.1 ht).1
  have hmem : Thread.request r pc sent ∈ p.threads := List.mem_of_getElem? ht
  have hnew : Thread.request r pc' (sent ++ msgs) ∈
      p.threads.set i (.request r pc' (sent ++ msgs)) := List.mem_set hi _
  rcases requestStep_documents hp.crypto (hp.inStep _ hmem) h with ⟨hcrypto, hstep, hdocs⟩
  -- a handler that had inserted its document is still there
  have hkeep : ∀ u pcu sentu, Thread.request u pcu sentu ∈ p.threads →
      (Thread.request u pcu sentu).hasInserted →
      ((Thread.request r pc sent).hasInserted →
        (Thread.request r pc' (sent ++ msgs)).hasInserted) →
      ∃ pcu' sentu', Thread.request u pcu' sentu' ∈
        p.threads.set i (.request r pc' (sent ++ msgs)) ∧
          (Thread.request u pcu' sentu').hasInserted := by
    intro u pcu sentu hu hins himp
    rcases List.mem_iff_getElem?.1 hu with ⟨j, hj⟩
    by_cases hij : i = j
    · subst hij
      cases ht.symm.trans hj
      exact ⟨pc', sent ++ msgs, hnew, himp hins⟩
    · exact ⟨pcu, sentu, List.mem_of_getElem? (by rw [List.getElem?_set_ne hij]; exact hj), hins⟩
  refine ⟨hcrypto.trans hp.crypto, ?_, ?_, ?_⟩
  · intro t htmem
    rcases List.mem_or_eq_of_mem_set htmem with htmem | rfl
    · exact hp.inStep t htmem
    · exact hstep
  · intro d hd
    -- each document keeps its handler; a new one belongs to the handler that stepped
    rcases hdocs with ⟨hsame, hiff⟩ | ⟨e, he, happend, hins⟩
    · rw [hsame] at hd
      rcases hp.inserted d hd with hold | ⟨u, pcu, sentu, hu, huins, hdoc⟩
      · exact Or.inl hold
      · rcases hkeep u pcu sentu hu huins hiff.2 with ⟨pcu', sentu', hu', huins'⟩
        exact Or.inr ⟨u, pcu', sentu', hu', huins', hdoc⟩
    · rw [happend] at hd
      rcases List.mem_append.1 hd with hd | hd
      · rcases hp.inserted d hd with hold | ⟨u, pcu, sentu, hu, huins, hdoc⟩
        · exact Or.inl hold
        · rcases hkeep u pcu sentu hu huins fun _ => hins with ⟨pcu', sentu', hu', huins'⟩
          exact Or.inr ⟨u, pcu', sentu', hu', huins', hdoc⟩
      · cases List.mem_singleton.1 hd
        exact Or.inr ⟨r, pc', sent ++ msgs, hnew, hins, he⟩
  · intro u pcu sentu hu huins
    rcases mem_set_request hu with hu | heq
    · rcases hp.present u pcu sentu hu huins with ⟨d, hd, hdoc⟩
      refine ⟨d, ?_, hdoc⟩
      rcases hdocs with ⟨hsame, _⟩ | ⟨e, _, happend, _⟩
      · rw [hsame]
        exact hd
      · rw [happend]
        exact List.mem_append_left _ hd
    · cases heq
      rcases hdocs with ⟨hsame, hiff⟩ | ⟨e, he, happend, _⟩
      · rcases hp.present r pc sent hmem (hiff.1 huins) with ⟨d, hd, hdoc⟩
        exact ⟨d, by rw [hsame]; exact hd, hdoc⟩
      · exact ⟨e, by rw [happend]; exact List.mem_append_right _ (by simp), he⟩

theorem UploadPool.daemon {fileId : CString} {call call' : AppendThread} {coll' : Collection}
    (hp : UploadPool lib key old p) (ht : p.threads[i]? = some (.daemon fileId call))
    (h : appendStep fileId p.shared.collection call = some (coll', call')) :
    UploadPool lib key old
      { shared := { p.shared with collection := coll' }
        threads := p.threads.set i (.daemon fileId call') } := by
  have hsame := uploadDocs_appendStep _ _ h
  refine ⟨hp.crypto, ?_, ?_, ?_⟩
  · intro t htmem
    rcases List.mem_or_eq_of_mem_set htmem with htmem | rfl
    · exact hp.inStep t htmem
    · trivial
  · intro d hd
    rw [hsame] at hd
    rcases hp.inserted d hd with hold | ⟨u, pcu, sentu, hu, huins, hdoc⟩
    · exact Or.inl hold
    · rcases List.mem_iff_getElem?.1 hu with ⟨j, hj⟩
      -- the stepping thread is no request
      have hij : i ≠ j := by
        rintro rfl
        cases ht.symm.trans hj
      have hkept : Thread.request u pcu sentu ∈ p.threads.set i (.daemon fileId call') :=
        List.mem_of_getElem? (by rw [List.getElem?_set_ne hij]; exact hj)
      exact Or.inr ⟨u, pcu, sentu, hkept, huins, hdoc⟩
  · intro u pcu sentu hu huins
    rcases mem_set_request hu with hu | heq
    · rcases hp.present u pcu sentu hu huins with ⟨d, hd, hdoc⟩
      exact ⟨d, by rw [hsame]; exact hd, hdoc⟩
    · cases heq

theorem UploadPool.start (hp : UploadPool lib key old p) (job : Job) :
    UploadPool lib key old
      { p with threads := p.threads ++ [(serverThreads lib).spawn job] } := by
  have hfresh : ¬ ((serverThreads lib).spawn job).hasInserted := by
    cases job <;> simp [serverThreads, Thread.hasInserted]
  refine ⟨hp.crypto, ?_, ?_, ?_⟩
  · intro t ht
    rcases List.mem_append.1 ht with ht | ht
    · exact hp.inStep t ht
    · cases List.mem_singleton.1 ht
      cases job <;> simp [serverThreads, Thread.InStep]
  · intro d hd
    rcases hp.inserted d hd with hold | ⟨u, pcu, sentu, hu, huins, hdoc⟩
    · exact Or.inl hold
    · exact Or.inr ⟨u, pcu, sentu, List.mem_append_left _ hu, huins, hdoc⟩
  · intro u pcu sentu hu huins
    rcases List.mem_append.1 hu with hu | hu
    · exact hp.present u pcu sentu hu huins
    · rw [← List.mem_singleton.1 hu] at hfresh
      exact absurd huins hfresh

theorem UploadPool.step {p' : Pool Server Thread} {e : Turn Job Nat} (hp : UploadPool lib key old p)
    (h : (serverThreads lib).lts.step p e = some p') : UploadPool lib key old p' := by
  cases e with
  | start job =>
      rw [ThreadSystem.lts_step_start] at h
      subst h
      exact hp.start job
  | advance j g =>
      rcases (serverThreads lib).lts_step_advance.1 h with ⟨t, srv', t', ht, hts, rfl⟩
      cases t with
      | request r pc sent =>
          simp only [serverThreads, threadStep] at hts
          split at hts
          · cases hts
          · rcases Option.map_eq_some_iff.1 hts with ⟨⟨srv₁, pc₁, msgs⟩, hreq, heq⟩
            cases heq
            exact hp.advance ht hreq
      | daemon fileId call =>
          rcases Option.map_eq_some_iff.1 hts with ⟨⟨coll₁, call₁⟩, happ, heq⟩
          cases heq
          exact hp.daemon ht happ

theorem UploadPool.init (storage : Storage) (coll : Collection) :
    UploadPool lib key (uploadDocs coll)
      { shared := Server.started key storage coll, threads := [] } where
  crypto := rfl
  inStep := by simp
  inserted := fun _ hd => Or.inl hd
  present := by simp

/-- Documents and handlers belong together in every interleaving. -/
theorem uploadPool_run {storage : Storage} {coll : Collection} {es : List (Turn Job Nat)}
    (hrun : (serverThreads lib).lts.run
      { shared := Server.started key storage coll, threads := [] } es = some p) :
    UploadPool lib key (uploadDocs coll) p :=
  (serverThreads lib).lts.run_invariant (UploadPool lib key (uploadDocs coll)) (fun _ => True)
    (fun _ _ _ hq _ hstep => hq.step hstep) (UploadPool.init storage coll) (fun _ _ => trivial)
    hrun

/-- `r`, the `i`-th thread, is the one upload of its name that has inserted its document. -/
structure UploadedOnce (p : Pool Server Thread) (i : Nat) (r : Request) : Prop where
  inserted : ∃ pc sent, p.threads[i]? = some (.request r pc sent) ∧
    (Thread.request r pc sent).hasInserted
  once : ∀ j u pc sent, p.threads[j]? = some (.request u pc sent) →
    (Thread.request u pc sent).hasInserted → u.header.filename = r.header.filename → j = i

/-- Then its document is the one that downloads of the name find, if no old one has this name. -/
theorem firstUpload?_of_once (hp : UploadPool lib key old p)
    (hnew : ∀ d ∈ old, d.get? .filename ≠ some (.utf8 r.header.filename))
    (honce : UploadedOnce p i r) :
    ∃ d file, firstUpload? p.shared.collection r.header.filename = some d ∧
      Seals lib key r file ∧ d.withoutProc = file.document r.header r.client := by
  rcases honce.inserted with ⟨pc, sent, hi, hins⟩
  have hname : ∀ u d, IsDocumentOf lib key u d →
      d.get? .filename = some (.utf8 u.header.filename) := by
    rintro u d ⟨file, _, rfl⟩
    exact get?_filename_uploadDocument _ _ _ _ _
  rcases hp.present r pc sent (List.mem_of_getElem? hi) hins with ⟨d, hd, hdoc⟩
  have hsome : ((uploadDocs p.shared.collection).find? fun d =>
      decide (d.get? .filename = some (.utf8 r.header.filename))).isSome = true := by
    rw [List.find?_isSome]
    exact ⟨d, hd, by simp [hname r d hdoc]⟩
  rcases Option.isSome_iff_exists.1 hsome with ⟨e, he⟩
  have hfound := List.find?_some he
  rw [decide_eq_true_eq] at hfound
  -- the document found belongs to an upload of the same name, hence to the only one
  rcases hp.inserted e (List.mem_of_find?_eq_some he) with
    hold | ⟨u, pcu, sentu, hu, huins, hedoc⟩
  · exact absurd hfound (hnew e hold)
  have hsame : u.header.filename = r.header.filename := by
    rw [hname u e hedoc] at hfound
    exact Value.utf8.inj (Option.some.inj hfound)
  rcases List.mem_iff_getElem?.1 hu with ⟨j, hj⟩
  have hji : j = i := honce.once j u pcu sentu hj huins hsame
  subst hji
  cases hi.symm.trans hj
  have hfirst := firstUpload?_map_withoutProc p.shared.collection r.header.filename
  rw [he] at hfirst
  rcases Option.map_eq_some_iff.1 hfirst with ⟨d', hd', hwithout⟩
  rcases hedoc with ⟨file, hfile, rfl⟩
  exact ⟨d', file, hd', hfile, hwithout⟩

end Pools

/-! ## Permissions -/

section Permissions

variable {lib : CryptoLib} {key : Bytes} {p : Pool Server Thread} {i : Nat} {r : Request}

/-- A download of `f` by `client` passes the permission check. -/
def Permits (srv : Server) (f client : CString) : Prop :=
  ∃ d, firstUpload? srv.collection f = some d ∧ mayDownload d client = true

/-- A download that finds its document is answered `RESP_PERMISSION_DENIED` if and only if it
does not pass the check. -/
theorem denied_iff_not_permits {srv : Server} {req : RequestHeader} {client : CString}
    {env : DownloadEnv} {d : Document} (hfind : env.find = true)
    (hsafe : unsafeName req.filename = false)
    (hd : firstUpload? srv.collection req.filename = some d) :
    (handleDownload lib srv req client env).2 = [.status .permissionDenied] ↔
      ¬ Permits srv req.filename client := by
  have hpermits : Permits srv req.filename client ↔ mayDownload d client = true := by
    simp [Permits, hd]
  rw [hpermits, handleDownload_sent, hd]
  simp only [downloadReply, hsafe, hfind, Bool.false_eq_true, if_false, if_true]
  cases hmay : mayDownload d client with
  | false =>
      simp
  | true =>
      -- after the check no exit answers `RESP_PERMISSION_DENIED`
      simp only [Bool.not_true, Bool.false_eq_true, if_false, not_true_eq_false, iff_false]
      split
      · simp [Message.status]
      · split
        · simp [Message.status]
        · split
          · simp [Message.status]
          · split
            · simp [Message.status]
            · split
              · simp [Message.status]
              · unfold sendFile
                split
                · simp [Message.status]
                · split
                  · simp [Message.status]
                  · simp
                  · simp [fileMessages, Message.status]

/-- What the upload asked for: everybody when the recipient is empty, else owner and recipient. -/
def AskedFor (r : Request) (client : CString) : Prop :=
  r.header.recipient = [] ∨ client = r.client ∨ client = r.header.recipient

/-- In every reachable state with exactly one upload of a name, which was new to the server, a
client's permission is the one that the upload asked for if and only if the client is the owner,
or there is a recipient and the client is not the recipient.  The stored document carries
neither a recipient nor a public flag. -/
theorem permits_as_requested_iff {storage : Storage} {coll : Collection}
    {es : List (Turn Job Nat)} (hnew : firstUpload? coll r.header.filename = none)
    (hrun : (serverThreads lib).lts.run
      { shared := Server.started key storage coll, threads := [] } es = some p)
    (honce : UploadedOnce p i r) (client : CString) :
    ((Permits p.shared r.header.filename client ↔ AskedFor r client) ↔
        client = r.client ∨ (r.header.recipient ≠ [] ∧ client ≠ r.header.recipient)) ∧
      ∃ d, firstUpload? p.shared.collection r.header.filename = some d ∧
        d.get? .recipientFingerprint = none ∧ d.get? .isPublic = none := by
  rcases firstUpload?_of_once (uploadPool_run hrun) (firstUpload?_eq_none_iff.1 hnew) honce with
    ⟨d, file, hd, _, hdoc⟩
  -- without a public flag the check compares the client with the owner
  have hpermits : Permits p.shared r.header.filename client ↔ r.client = client := by
    constructor
    · rintro ⟨d', hd', hmay⟩
      cases hd.symm.trans hd'
      rw [mayDownload_of_document hdoc] at hmay
      exact of_decide_eq_true hmay
    · intro howner
      exact ⟨d, hd, by rw [mayDownload_of_document hdoc]; exact decide_eq_true howner⟩
  have hfield : ∀ f, f ≠ .proc → d.get? f = (file.document r.header r.client).get? f := by
    intro f hf
    rw [← Document.get?_withoutProc hf, hdoc]
  refine ⟨?_, d, hd, ?_, ?_⟩
  · rw [hpermits, AskedFor]
    by_cases howner : client = r.client
    · simp [howner]
    · have howner' : ¬ r.client = client := fun h => howner h.symm
      simp [howner, howner', not_or]
  · rw [hfield _ (by decide)]
    rfl
  · rw [hfield _ (by decide)]
    rfl

end Permissions

theorem uploadedOnce_singleton (srv : Server) (up : Request) {sent : List Message}
    (hcmd : up.header.command = .upload) (hsent : sent = acknowledgement) :
    UploadedOnce { shared := srv, threads := [.request up .done sent] } 0 up where
  inserted := ⟨.done, sent, rfl, hcmd, Or.inr ⟨rfl, hsent⟩⟩
  once j u pc sent' hj _ _ := by
    have hlt := (List.getElem?_eq_some_iff.1 hj).1
    simp only [List.length_singleton] at hlt
    omega

/-- The owner of an upload without recipient. -/
theorem permits_as_requested_owner :
    let up := Request.uploading (ascii "alice") (ascii "a") (ascii "hi") (sampleHash (ascii "hi"))
    ∃ es p, (serverThreads sampleLib).lts.run
        { shared := Server.started sampleKey OrderedMap.empty [], threads := [] } es = some p ∧
      ((Permits p.shared up.header.filename up.client ↔ AskedFor up up.client) ↔
        up.client = up.client ∨ (up.header.recipient ≠ [] ∧ up.client ≠ up.header.recipient)) ∧
      ∃ d, firstUpload? p.shared.collection up.header.filename = some d ∧
        d.get? .recipientFingerprint = none ∧ d.get? .isPublic = none := by
  intro up
  obtain ⟨es, _, hrun⟩ := run_serve_first sampleLib
    (Server.started sampleKey OrderedMap.empty []) rfl up
  exact ⟨es, _, hrun,
    permits_as_requested_iff rfl hrun (uploadedOnce_singleton _ _ rfl (by decide)) up.client⟩

/-- An upload without recipient, and a client that is not its owner: everybody should be
permitted, and the client is not. -/
theorem permits_nobody_else :
    let up := Request.uploading (ascii "alice") (ascii "a") (ascii "hi") (sampleHash (ascii "hi"))
    let after := (serve sampleLib (Server.started sampleKey OrderedMap.empty []) up).1
    (serve sampleLib (Server.started sampleKey OrderedMap.empty []) up).2 = acknowledgement ∧
      up.header.recipient = [] ∧ ¬ Permits after (ascii "a") (ascii "bob") := by
  refine ⟨by decide, rfl, ?_⟩
  rintro ⟨d, hd, hmay⟩
  have hchecked := congrArg (Option.map fun d => mayDownload d (ascii "bob")) hd
  rw [Option.map_some, hmay] at hchecked
  exact absurd hchecked (by decide)

end FileExchange
