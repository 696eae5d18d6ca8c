import FileExchange.Server.Threads

/-!
# Server.Confidentiality — who can receive which bytes

A download checks the permissions in the document it found and then sends what the file of that
name decrypts to, whoever has written that file in the meantime.  Only the nonce and the tag
connect the two.

* `Traceable`    : where a document comes from;
* `Thread.Sound` : what holds of a handler between two steps, whatever the others do;
* `confidential` : each byte sent in answer to a download belongs to an upload of that name that
  the client may read.
-/

namespace FileExchange

open Lib

section Sound

variable (lib : CryptoLib) (key : Bytes) (R : Request → Prop)

/-- What the upload `u` encrypts. -/
def plaintextOf (u : Request) : Bytes :=
  (payload u.header u.incoming).take (toInt u.header.filesize.toInt).toNat

/-- `u` is an upload request whose encrypted file is `file`. -/
def Seals (u : Request) (file : SealedFile) : Prop :=
  u.header.command = .upload ∧
    Prologue.Delivers lib { key := key, initialized := true } u.upload u.header u.incoming file

/-- A document that one of the requests inserted, or an older one that nothing decrypts with. -/
def Traceable (d : Document) : Prop :=
  (∃ u file, R u ∧ Seals lib key u file ∧ d.withoutProc = file.document u.header u.client) ∨
    ∀ content, decryptFile lib key EvpEnv.ok d content = .failed

/-- The client of `r` may receive the bytes: they are part of an upload of the same name, made
by that client, or naming it as the recipient, or without a recipient. -/
def Entitled (r : Request) (bytes : Bytes) : Prop :=
  ∃ u, R u ∧ u.header.command = .upload ∧ u.header.filename = r.header.filename ∧
    (u.client = r.client ∨ u.header.recipient = r.client ∨ u.header.recipient = []) ∧
    bytes <:+: payload u.header u.incoming

/-- What a handler relies on at each place in the code. -/
def Pc.Sound (r : Request) : Pc → Prop
  | .opening file => Seals lib key r file
  | .writing file _ => Seals lib key r file
  | .inserting file => Seals lib key r file
  | .stat d | .reading d _ _ =>
      d.get? .filename = some (.utf8 r.header.filename) ∧ mayDownload d r.client = true ∧
        Traceable lib key R d
  | .event _ _ reply => ∀ bytes, Message.payload bytes ∉ reply
  | _ => True

/-- A handler that has sent nothing but what its client may receive. -/
def Thread.Sound : Thread → Prop
  | .request r pc sent =>
      R r ∧ Pc.Sound lib key R r pc ∧
        (r.header.command = .download → ∀ bytes, .payload bytes ∈ sent → Entitled R r bytes)
  | .daemon _ _ => True

/-- Key and documents. -/
structure SoundServer (srv : Server) : Prop where
  crypto : srv.crypto = { key := key, initialized := true }
  traceable : ∀ d ∈ uploadDocs srv.collection, Traceable lib key R d

end Sound

/-! ## Decryption goes back to an upload -/

section Decrypt

variable {lib : CryptoLib} {key : Bytes} {R : Request → Prop} {r : Request}

/-- Whatever was read from the file, a download that decrypts it sends a part of an upload that
its client may read. -/
theorem entitled_of_sendFile (hlib : lib.Correct)
    (hideal : ∀ u file, R u → Seals lib key u file → lib.IdealFor key file.iv.val (plaintextOf u))
    {env : DownloadEnv} {d : Document} {content : Bytes} {bytes : Bytes}
    (hname : d.get? .filename = some (.utf8 r.header.filename))
    (hmay : mayDownload d r.client = true) (htrace : Traceable lib key R d)
    (hbytes : .payload bytes ∈ (sendFile lib key env d content r.header.offset).1) :
    Entitled R r bytes := by
  unfold sendFile at hbytes
  split at hbytes
  · simp [Message.status] at hbytes
  split at hbytes
  · simp [Message.status] at hbytes
  · simp at hbytes
  · next p hdec =>
      rcases decryptFile_eq_done hdec with ⟨iv, tag, hivtag, hplain, htrue⟩
      -- the document is that of an upload `u`, or nothing decrypts with it
      rcases htrace with ⟨u, file, hu, ⟨hcmd, hfile⟩, hd⟩ | hnone
      · have hfields : (iv, tag) = (file.iv.val, file.tag) :=
          Option.some.inj (hivtag.symm.trans (ivAndTag?_of_document hd (hfile.length_tag hlib)))
        rw [(Prod.mk.inj hfields).1, (Prod.mk.inj hfields).2, (Prod.mk.inj hfile.encrypted).2]
          at hplain
        -- the tag of `u` admits only the plaintext of `u`, whoever wrote the file
        rcases (hideal u file hu ⟨hcmd, hfile⟩).eq_plaintext hlib hplain with ⟨_, hp⟩
        -- the permission check was made on this very document
        have howner : u.client = r.client := by
          rw [mayDownload_of_document hd] at hmay
          exact of_decide_eq_true hmay
        have hsame : u.header.filename = r.header.filename := by
          have hdoc : d.get? .filename = some (.utf8 u.header.filename) := by
            rw [← Document.get?_withoutProc (by decide), hd]
            exact get?_filename_uploadDocument _ _ _ _ _
          rw [hname] at hdoc
          exact (Value.utf8.inj (Option.some.inj hdoc)).symm
        refine ⟨u, hu, hcmd, hsame, Or.inl howner, ?_⟩
        have hpart : bytes = p.drop r.header.offset.toInt.toNat := by
          simp only [fileMessages, List.mem_cons, reduceCtorEq, false_or] at hbytes
          split at hbytes
          · exact Message.payload.inj (List.mem_singleton.1 hbytes)
          · simp at hbytes
        rw [hpart, hp]
        exact (List.drop_suffix _ _).isInfix.trans (List.take_prefix _ _).isInfix
      · have hdone := htrue EvpEnv.ok rfl
        rw [hnone] at hdone
        cases hdone

end Decrypt

/-! ## One step -/

section Steps

variable {lib : CryptoLib} {key : Bytes} {R : Request → Prop} {r : Request} {g : Nat}
  {srv srv' : Server} {pc pc' : Pc} {msgs : List Message}

/-- The document a download finds. -/
theorem traceable_of_firstUpload? (hsrv : SoundServer lib key R srv) {f : CString} {d : Document}
    (h : firstUpload? srv.collection f = some d) :
    d.get? .filename = some (.utf8 f) ∧ Traceable lib key R d := by
  have hfind := firstUpload?_map_withoutProc srv.collection f
  rw [h, Option.map_some] at hfind
  have hmem := List.mem_of_find?_eq_some hfind.symm
  have hname := List.find?_some hfind.symm
  rw [decide_eq_true_eq, Document.get?_withoutProc (by decide)] at hname
  refine ⟨hname, ?_⟩
  -- events that were put into the document since do not change what it decrypts
  rcases hsrv.traceable d.withoutProc hmem with ⟨u, file, hu, hfile, hd⟩ | hnone
  · rw [Document.withoutProc_withoutProc] at hd
    exact Or.inl ⟨u, file, hu, hfile, hd⟩
  · right
    intro content
    rw [← decryptFile_congr (Document.withoutProc_withoutProc d), hnone]

theorem startStep_sound (hsrv : SoundServer lib key R srv)
    (h : startStep lib srv r = (srv', pc', msgs)) :
    SoundServer lib key R srv' ∧ Pc.Sound lib key R r pc' ∧
      (r.header.command = .download → ∀ bytes, .payload bytes ∉ msgs) := by
  unfold startStep at h
  split at h
  -- upload: the first part sends status blocks only
  · next hcmd =>
      cases hfile : (uploadPrologue lib srv.crypto r.upload r.header r.incoming).file with
      | none =>
          simp only [hfile] at h
          cases h
          exact ⟨⟨hsrv.crypto, hsrv.traceable⟩, trivial, by simp [hcmd]⟩
      | some file =>
          simp only [hfile] at h
          cases h
          refine ⟨hsrv, ⟨hcmd, ?_⟩, by simp [hcmd]⟩
          rw [hsrv.crypto] at hfile
          exact uploadPrologue_delivers hfile
  · split at h
    · cases h
      exact ⟨hsrv, trivial, by simp [Message.status]⟩
    · split at h
      · cases h
        exact ⟨hsrv, trivial, by simp [Message.status]⟩
      · next d hfind =>
          split at h
          · cases h
            exact ⟨hsrv, trivial, by simp [Message.status]⟩
          · next hmay =>
              cases h
              -- download: the document found has passed the permission check
              have hfirst : firstUpload? srv.collection r.header.filename = some d := by
                split at hfind
                · exact hfind
                · cases hfind
              rcases traceable_of_firstUpload? hsrv hfirst with ⟨hname, htrace⟩
              exact ⟨hsrv, ⟨hname, by simpa using hmay, htrace⟩, by simp⟩
  · next hcmd =>
      rcases handleList_server srv r.list with ⟨hcrypto, _, hcoll⟩
      cases h
      refine ⟨⟨hcrypto.trans hsrv.crypto, ?_⟩, trivial, by simp [hcmd]⟩
      rw [hcoll]
      exact hsrv.traceable
  · next hcmd =>
      cases h
      exact ⟨hsrv, trivial, by simp [hcmd]⟩

theorem openStep_sound {file : SealedFile} (hsrv : SoundServer lib key R srv)
    (hpc : Pc.Sound lib key R r (.opening file)) (h : openStep srv r file = (srv', pc', msgs)) :
    SoundServer lib key R srv' ∧ Pc.Sound lib key R r pc' ∧
      (r.header.command = .download → ∀ bytes, .payload bytes ∉ msgs) := by
  -- writing a file changes no document
  unfold openStep at h
  split at h
  · cases h
    exact ⟨hsrv, trivial, by simp [Message.status]⟩
  · split at h
    · cases h
      exact ⟨⟨hsrv.crypto, hsrv.traceable⟩, trivial, by simp⟩
    · cases h
      exact ⟨⟨hsrv.crypto, hsrv.traceable⟩, hpc, by simp⟩

theorem writeStep_sound {file : SealedFile} {pos : Nat} (hsrv : SoundServer lib key R srv)
    (hpc : Pc.Sound lib key R r (.writing file pos))
    (h : writeStep g srv r file pos = (srv', pc', msgs)) :
    SoundServer lib key R srv' ∧ Pc.Sound lib key R r pc' ∧
      (r.header.command = .download → ∀ bytes, .payload bytes ∉ msgs) := by
  simp only [writeStep] at h
  split at h
  · cases h
    exact ⟨⟨hsrv.crypto, hsrv.traceable⟩, hpc, by simp⟩
  · split at h
    · cases h
      exact ⟨hsrv, trivial, by simp [Message.status]⟩
    · cases h
      exact ⟨hsrv, hpc, by simp⟩

theorem insertStep_sound {file : SealedFile} (hsrv : SoundServer lib key R srv) (hr : R r)
    (hpc : Pc.Sound lib key R r (.inserting file))
    (h : insertStep srv r file = (srv', pc', msgs)) :
    SoundServer lib key R srv' ∧ Pc.Sound lib key R r pc' ∧
      (r.header.command = .download → ∀ bytes, .payload bytes ∉ msgs) := by
  simp only [insertStep, insertUpload_eq] at h
  cases hins : r.upload.insert with
  | false =>
      simp only [hins, Bool.false_eq_true, if_false] at h
      cases h
      exact ⟨hsrv, trivial, by simp [Message.status]⟩
  | true =>
      simp only [hins, if_true] at h
      cases h
      refine ⟨⟨hsrv.crypto, ?_⟩, by simp [Pc.Sound, Message.status], by simp⟩
      intro d hd
      rw [uploadDocs_append, SealedFile.document, uploadDocs_uploadDocument] at hd
      -- the only new document is the one of this upload
      rcases List.mem_append.1 hd with hd | hd
      · exact hsrv.traceable d hd
      · cases List.mem_singleton.1 hd
        exact Or.inl ⟨r, file, hr, hpc, withoutProc_uploadDocument _ _ _ _ _⟩

theorem statStep_sound {d : Document} (hsrv : SoundServer lib key R srv)
    (hpc : Pc.Sound lib key R r (.stat d)) (h : statStep srv r d = (srv', pc', msgs)) :
    SoundServer lib key R srv' ∧ Pc.Sound lib key R r pc' ∧
      (r.header.command = .download → ∀ bytes, .payload bytes ∉ msgs) := by
  unfold statStep at h
  split at h
  · cases h
    exact ⟨hsrv, trivial, by simp [Message.status]⟩
  · split at h
    · cases h
      exact ⟨hsrv, trivial, by simp [Message.status]⟩
    · split at h
      · cases h
        exact ⟨hsrv, trivial, by simp [Message.status]⟩
      · split at h
        · cases h
          exact ⟨hsrv, trivial, by simp [Message.status]⟩
        · cases h
          exact ⟨hsrv, hpc, by simp⟩

theorem readStep_sound (hlib : lib.Correct)
    (hideal : ∀ u file, R u → Seals lib key u file → lib.IdealFor key file.iv.val (plaintextOf u))
    {d : Document} {size : Nat} {acc : Bytes} (hsrv : SoundServer lib key R srv)
    (hpc : Pc.Sound lib key R r (.reading d size acc))
    (h : readStep lib g srv r d size acc = (srv', pc', msgs)) :
    SoundServer lib key R srv' ∧ Pc.Sound lib key R r pc' ∧
      (r.header.command = .download → ∀ bytes, .payload bytes ∈ msgs → Entitled R r bytes) := by
  simp only [readStep] at h
  split at h
  · cases h
    exact ⟨hsrv, trivial, by simp [Message.status]⟩
  · split at h
    · split at h
      · cases h
        exact ⟨hsrv, trivial, by simp [Message.status]⟩
      · cases h
        exact ⟨hsrv, hpc, by simp⟩
    -- everything is read: this is the only step of a download that sends contents
    · have hentitled : ∀ bytes,
          .payload bytes ∈ (sendFile lib srv.crypto.key r.download d acc r.header.offset).1 →
            Entitled R r bytes := by
        intro bytes hbytes
        rw [hsrv.crypto] at hbytes
        exact entitled_of_sendFile hlib hideal hpc.1 hpc.2.1 hpc.2.2 hbytes
      split at h
      · cases h
        exact ⟨hsrv, trivial, fun _ => hentitled⟩
      · cases h
        exact ⟨⟨hsrv.crypto, hsrv.traceable⟩, trivial, fun _ => hentitled⟩
      · cases h
        exact ⟨hsrv, by simp [Pc.Sound], fun _ => hentitled⟩

/-- A step keeps server and handler sound, and sends only what the client may receive. -/
theorem requestStep_sound (hlib : lib.Correct)
    (hideal : ∀ u file, R u → Seals lib key u file → lib.IdealFor key file.iv.val (plaintextOf u))
    (hsrv : SoundServer lib key R srv) (hr : R r) (hpc : Pc.Sound lib key R r pc)
    (h : requestStep lib g srv r pc = some (srv', pc', msgs)) :
    SoundServer lib key R srv' ∧ Pc.Sound lib key R r pc' ∧
      (r.header.command = .download → ∀ bytes, .payload bytes ∈ msgs → Entitled R r bytes) := by
  -- all steps but the last read send no contents to a downloading client
  have hquiet : (SoundServer lib key R srv' ∧ Pc.Sound lib key R r pc' ∧
      (r.header.command = .download → ∀ bytes, .payload bytes ∉ msgs)) →
      SoundServer lib key R srv' ∧ Pc.Sound lib key R r pc' ∧
        (r.header.command = .download → ∀ bytes, .payload bytes ∈ msgs → Entitled R r bytes) :=
    fun ⟨hs, hp, hm⟩ => ⟨hs, hp, fun hcmd bytes hbytes => absurd hbytes (hm hcmd bytes)⟩
  cases pc with
  | start =>
      exact hquiet (startStep_sound hsrv (Option.some.inj h))
  | opening file =>
      exact hquiet (openStep_sound hsrv hpc (Option.some.inj h))
  | writing file pos =>
      exact hquiet (writeStep_sound hsrv hpc (Option.some.inj h))
  | inserting file =>
      exact hquiet (insertStep_sound hsrv hr hpc (Option.some.inj h))
  | stat d =>
      exact hquiet (statStep_sound hsrv hpc (Option.some.inj h))
  | reading d size acc =>
      exact readStep_sound hlib hideal hsrv hpc (Option.some.inj h)
  | event fileId call reply =>
      simp only [requestStep] at h
      split at h
      · next q hq =>
          cases h
          refine ⟨⟨hsrv.crypto, ?_⟩, hpc, by simp⟩
          rw [uploadDocs_appendStep q.1 q.2 hq]
          exact hsrv.traceable
      · cases h
        exact ⟨hsrv, trivial, fun _ bytes hbytes => absurd hbytes (hpc bytes)⟩
  | done =>
      cases h

end Steps

/-! ## Every interleaving -/

/-- In every interleaving of any requests and daemon events, each byte that a client receives in
answer to a download of a name is part of an upload of that name that it may read. -/
theorem confidential {lib : CryptoLib} {key : Bytes} {storage : Storage} {coll : Collection}
    {es : List (Turn Job Nat)} {p : Pool Server Thread} (hlib : lib.Correct)
    (hold : ∀ d ∈ uploadDocs coll, ∀ content, decryptFile lib key EvpEnv.ok d content = .failed)
    (hideal : ∀ u file, Job.request u ∈ ThreadSystem.started es → Seals lib key u file →
      lib.IdealFor key file.iv.val (plaintextOf u))
    (hrun : (serverThreads lib).lts.run
      { shared := Server.started key storage coll, threads := [] } es = some p)
    {r : Request} {pc : Pc} {sent : List Message} {bytes : Bytes}
    (hthread : Thread.request r pc sent ∈ p.threads) (hcmd : r.header.command = .download)
    (hbytes : .payload bytes ∈ sent) :
    ∃ u, Job.request u ∈ ThreadSystem.started es ∧ u.header.command = .upload ∧
      u.header.filename = r.header.filename ∧
      (u.client = r.client ∨ u.header.recipient = r.client ∨ u.header.recipient = []) ∧
      bytes <:+: payload u.header u.incoming := by
  have hinv := (serverThreads lib).run_invariant
    (SoundServer lib key fun u => Job.request u ∈ ThreadSystem.started es)
    (fun _ t => Thread.Sound lib key (fun u => Job.request u ∈ ThreadSystem.started es) t)
    (fun job => job ∈ ThreadSystem.started es) ?spawn ?step
    (p := { shared := Server.started key storage coll, threads := [] })
    ⟨rfl, fun d hd => Or.inr (hold d hd)⟩ (by simp) (fun _ hjob => hjob) hrun
  case spawn =>
    intro srv job _ hjob
    cases job with
    | request u =>
        exact ⟨hjob, trivial, by simp⟩
    | daemon fileId call =>
        trivial
  -- the assertion on a thread mentions no shared state, so other steps cannot break it
  case step =>
    intro g srv t srv' t' hsrv ht hstep
    cases t with
    | request u pc sent =>
        rcases ht with ⟨hu, hpc, hsent⟩
        simp only [serverThreads, threadStep] at hstep
        split at hstep
        · cases hstep
        · rcases Option.map_eq_some_iff.1 hstep with ⟨⟨srv₁, pc₁, msgs⟩, hreq, heq⟩
          cases heq
          rcases requestStep_sound hlib hideal hsrv hu hpc hreq with ⟨hsrv', hpc', hmsgs⟩
          refine ⟨hsrv', ⟨hu, hpc', ?_⟩, fun _ hother => hother⟩
          intro hdown b hb
          rcases List.mem_append.1 hb with hb | hb
          · exact hsent hdown b hb
          · exact hmsgs hdown b hb
    | daemon fileId call =>
        rcases Option.map_eq_some_iff.1 hstep with ⟨q, happ, heq⟩
        cases heq
        refine ⟨⟨hsrv.crypto, ?_⟩, trivial, fun _ hother => hother⟩
        rw [uploadDocs_appendStep q.1 q.2 happ]
        exact hsrv.traceable
  exact (hinv.2 _ hthread).2.2 hcmd bytes hbytes

/-- A client that uploads a file and downloads it again. -/
theorem confidential_own_upload :
    let up := Request.uploading (ascii "alice") (ascii "a") (ascii "hi") (sampleHash (ascii "hi"))
    let down := Request.downloading (ascii "alice") (ascii "a")
    ∃ es : List (Turn Job Nat),
      ThreadSystem.started es = [Job.request up, Job.request down] ∧
      ∃ u, Job.request u ∈ ThreadSystem.started es ∧ u.header.command = .upload ∧
        u.header.filename = down.header.filename ∧
        (u.client = down.client ∨ u.header.recipient = down.client ∨ u.header.recipient = []) ∧
        ascii "hi" <:+: payload u.header u.incoming := by
  intro up down
  obtain ⟨es₁, hstart₁, hrun₁⟩ := run_serve sampleLib
    (p := { shared := Server.started sampleKey OrderedMap.empty [], threads := [] }) rfl up
  obtain ⟨es₂, hstart₂, hrun₂⟩ := run_serve sampleLib
    (p := { shared := (serve sampleLib (Server.started sampleKey OrderedMap.empty []) up).1
            threads := [.request up .done
              (serve sampleLib (Server.started sampleKey OrderedMap.empty []) up).2] })
    (by decide) down
  have hstart : ThreadSystem.started (es₁ ++ es₂) = [Job.request up, Job.request down] := by
    rw [ThreadSystem.started_append, hstart₁, hstart₂]
    rfl
  refine ⟨es₁ ++ es₂, hstart, ?_⟩
  have hrun := ((serverThreads sampleLib).lts.run_append_eq_some).2 ⟨_, hrun₁, hrun₂⟩
  refine confidential sampleLib_correct (by simp) ?_ hrun (List.mem_of_getElem? (i := 1) rfl) rfl
    (by decide)
  intro u file hu hseals
  rw [hstart] at hu
  have hjobs : u = up ∨ u = down := by
    simpa using hu
  rcases hjobs with rfl | rfl
  · exact sampleLib_idealFor _ _ (by decide)
  · exact absurd hseals.1 (by decide)

end FileExchange
