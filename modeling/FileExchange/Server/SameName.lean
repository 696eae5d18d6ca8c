import FileExchange.Server.Isolation

/-!
# Server.SameName — uploads of one name at the same time

Every handler opens the file for itself and writes at its own position, and no lock keeps it from
doing so while another one is writing.

* `Thread.opensAt`, `Thread.writesAt` : what the next step of a handler does to a file;
* `threadStep_file` : nothing else happens to it;
* `KeepsOff`       : a step of another handler spares what one upload has written;
* `sameName_complete` : in a run of such steps the file is the ciphertext of this upload.
-/

namespace FileExchange

open Lib

/-! ## What a step does to a file -/

/-- The next step empties the file at `path`. -/
def Thread.opensAt (path : CString) : Thread → Bool
  | .request r (.opening _) _ =>
      r.upload.stdio.opened && openable path && decide (storagePath r.header.filename = path)
  | _ => false

/-- Position and number of the bytes that the next step writes to the file at `path`. -/
def Thread.writesAt (path : CString) (g : Nat) : Thread → Option (Nat × Nat)
  | .request r (.writing file pos) _ =>
      let total := file.delivered r.upload.stdio
      if storagePath r.header.filename = path ∧ pos < total then
        some (pos, min (g + 1) (total - pos))
      else none
  | _ => none

/-- How far a handler has written its file of `size` bytes, from the opening on and unless it has
failed. -/
def Thread.reach (size : Nat) : Thread → Option Nat
  | .request _ (.writing _ pos) _ => some pos
  | .request _ (.inserting _) _ => some size
  | .request _ (.event _ _ _) _ => some size
  | .request _ .done sent => if sent = acknowledgement then some size else none
  | _ => none

/-- If the turn is that of another thread, it opens the file at `path` only when thread `i` has
not written anything to it, and writes only behind what thread `i` has written and in front of
byte `size`. -/
def KeepsOff (path : CString) (size i : Nat) (p : Pool Server Thread) : Turn Job Nat → Prop
  | .start _ => True
  | .advance j g =>
      j ≠ i → ∀ n ∈ (p.threads[i]?).bind (Thread.reach size), ∀ t ∈ p.threads[j]?,
        (t.opensAt path = true → n = 0) ∧
          ∀ w ∈ t.writesAt path g, n ≤ w.1 ∧ w.1 + w.2 ≤ size

instance (path : CString) (size i : Nat) (p : Pool Server Thread) :
    (e : Turn Job Nat) → Decidable (KeepsOff path size i p e)
  | .start _ => isTrue trivial
  | .advance j g => by
      unfold KeepsOff
      infer_instance

section Steps

variable {lib : CryptoLib} {g : Nat} {srv srv' : Server} {path : CString}

/-- A write behind the first `n` bytes. -/
theorem take_writeAt {content chunk : Bytes} {pos n : Nat} (hn : n ≤ content.length)
    (hpos : n ≤ pos) : (writeAt content pos chunk).take n = content.take n := by
  have hlength : n ≤ (content.take pos).length := by
    rw [List.length_take]
    omega
  rw [writeAt, List.append_assoc, List.append_assoc, List.take_append_of_le_length hlength,
    List.take_take, Nat.min_eq_left hpos]

/-- A write right behind them. -/
theorem take_writeAt_end {content chunk : Bytes} {pos : Nat} (hpos : pos ≤ content.length) :
    (writeAt content pos chunk).take (pos + chunk.length) = content.take pos ++ chunk := by
  have hgap : pos - content.length = 0 := by omega
  have hlength : (content.take pos ++ chunk).length = pos + chunk.length := by
    rw [List.length_append, List.length_take, Nat.min_eq_left hpos]
  rw [writeAt, hgap, List.replicate_zero, List.append_nil, ← hlength, List.take_left]

/-- The next bytes of the ciphertext continue what is there. -/
theorem continues_writeAt {content ciphertext : Bytes} {pos n : Nat} (hle : pos ≤ content.length)
    (hsize : content.length ≤ ciphertext.length)
    (htake : content.take pos = ciphertext.take pos) (hn : n ≤ ciphertext.length - pos) :
    let content' := writeAt content pos ((ciphertext.drop pos).take n)
    pos + n ≤ content'.length ∧ content'.length ≤ ciphertext.length ∧
      content'.take (pos + n) = ciphertext.take (pos + n) := by
  intro content'
  have hchunk : ((ciphertext.drop pos).take n).length = n := by
    rw [List.length_take, List.length_drop, Nat.min_eq_left hn]
  have hlength : content'.length = _ := length_writeAt content pos ((ciphertext.drop pos).take n)
  have hend := @take_writeAt_end content ((ciphertext.drop pos).take n) pos hle
  rw [hchunk] at hlength hend
  refine ⟨?_, ?_, ?_⟩
  · exact (Nat.le_max_right _ _).trans_eq hlength.symm
  · exact hlength.trans_le (Nat.max_le.2 ⟨hsize, by omega⟩)
  · exact hend.trans (by rw [htake, List.take_add])

/-- A step empties the file at `path`, or writes a chunk to it, or leaves it alone. -/
theorem threadStep_file {t t' : Thread} (h : threadStep lib g srv t = some (srv', t')) :
    (t.opensAt path = true ∧ srv'.storage.get? path = some []) ∨
      (∃ q chunk, t.writesAt path g = some (q, chunk.length) ∧
        srv'.storage.get? path = some (writeAt ((srv.storage.get? path).getD []) q chunk)) ∨
      (t.opensAt path = false ∧ t.writesAt path g = none ∧
        srv'.storage.get? path = srv.storage.get? path) := by
  cases t with
  | daemon fileId call =>
      rcases Option.map_eq_some_iff.1 h with ⟨⟨coll, call'⟩, _, heq⟩
      cases heq
      exact Or.inr (Or.inr ⟨rfl, rfl, rfl⟩)
  | request r pc sent =>
      simp only [threadStep] at h
      split at h
      · cases h
      rcases Option.map_eq_some_iff.1 h with ⟨⟨srv₁, pc₁, msgs⟩, hstep, heq⟩
      cases heq
      cases pc with
      | opening file =>
          have hopen := Option.some.inj hstep
          unfold openStep fopenWb at hopen
          by_cases hpath : storagePath r.header.filename = path
          · subst hpath
            cases hgranted : r.upload.stdio.opened && openable (storagePath r.header.filename) with
            | true =>
                rw [hgranted] at hopen
                refine Or.inl ⟨by simp [Thread.opensAt, hgranted], ?_⟩
                simp only [if_true] at hopen
                split at hopen <;> cases hopen <;> exact OrderedMap.get?_set_self _ _ _
            | false =>
                rw [hgranted] at hopen
                cases hopen
                exact Or.inr (Or.inr ⟨by simp [Thread.opensAt, hgranted], rfl, rfl⟩)
          · -- another file
            refine Or.inr (Or.inr ⟨by simp [Thread.opensAt, hpath], rfl, ?_⟩)
            split at hopen
            · cases hopen
              rfl
            · next hset =>
                split at hset
                · cases hset
                  split at hopen <;> cases hopen <;>
                    exact OrderedMap.get?_set_of_ne (Ne.symm hpath) _
                · cases hset
      | writing file pos =>
          have hwrite := Option.some.inj hstep
          simp only [writeStep] at hwrite
          split at hwrite
          · next hpos =>
              cases hwrite
              by_cases hpath : storagePath r.header.filename = path
              · subst hpath
                refine Or.inr (Or.inl ⟨pos, _, ?_, OrderedMap.get?_set_self _ _ _⟩)
                have hle := file.delivered_le r.upload.stdio
                simp only [Thread.writesAt, hpos, true_and, if_true, List.length_take,
                  List.length_drop, Option.some.injEq, Prod.mk.injEq]
                omega
              · refine Or.inr (Or.inr ⟨rfl, by simp [Thread.writesAt, hpath], ?_⟩)
                exact OrderedMap.get?_set_of_ne (Ne.symm hpath) _
          · next hpos =>
              -- the end of `fclose`
              have hnone : (Thread.request r (.writing file pos) sent).writesAt path g = none := by
                simp [Thread.writesAt, hpos]
              split at hwrite <;> cases hwrite <;> exact Or.inr (Or.inr ⟨rfl, hnone, rfl⟩)
      | _ =>
          rw [requestStep_storage (by simp) (by simp) hstep]
          exact Or.inr (Or.inr ⟨rfl, rfl, rfl⟩)

end Steps

/-! ## The upload that is spared -/

/-- As far as thread `i` has written the ciphertext, the file has it, and nothing behind its
end. -/
def Intact (r : Request) (ciphertext : Bytes) (i : Nat) (p : Pool Server Thread) : Prop :=
  ∀ pc sent, p.threads[i]? = some (.request r pc sent) →
    ∀ n ∈ (Thread.request r pc sent).reach ciphertext.length, ∃ content,
      p.shared.storage.get? (storagePath r.header.filename) = some content ∧
        n ≤ content.length ∧ content.length ≤ ciphertext.length ∧
        content.take n = ciphertext.take n

section Intact

variable {lib : CryptoLib} {key : Bytes} {old : List Document} {p : Pool Server Thread}
  {i j g : Nat} {r : Request} {file : SealedFile} {ciphertext : Bytes} {srv' : Server}

/-- An upload has one encrypted file. -/
theorem Seals.unique {file' : SealedFile} (h : Seals lib key r file) (h' : Seals lib key r file') :
    file' = file := by
  have hiv : file'.iv = file.iv := Option.some.inj (h'.2.iv.symm.trans h.2.iv)
  rw [h.2.eq_sealedFile, h'.2.eq_sealedFile, hiv]

theorem Intact.start (h : Intact r ciphertext i p) (job : Job) :
    Intact r ciphertext i { p with threads := p.threads ++ [(serverThreads lib).spawn job] } := by
  intro pc sent hi n hn
  by_cases hlt : i < p.threads.length
  · rw [List.getElem?_append_left hlt] at hi
    exact h pc sent hi n hn
  · -- a thread that has just been started has opened nothing
    rw [List.getElem?_append_right (by omega)] at hi
    have hspawn := List.mem_singleton.1 (List.mem_of_getElem? hi)
    cases job with
    | request u =>
        cases hspawn
        cases hn
    | daemon fileId call =>
        cases hspawn

/-- A step of another thread that keeps off. -/
theorem Intact.other {t t' : Thread} (h : Intact r ciphertext i p) (hj : j ≠ i)
    (ht : p.threads[j]? = some t) (hstep : threadStep lib g p.shared t = some (srv', t'))
    (hkeeps : KeepsOff (storagePath r.header.filename) ciphertext.length i p (.advance j g)) :
    Intact r ciphertext i { shared := srv', threads := p.threads.set j t' } := by
  intro pc sent hi n hn
  rw [List.getElem?_set_ne hj] at hi
  rcases h pc sent hi n hn with ⟨content, hcontent, hle, hsize, htake⟩
  have hn' : n ∈ (p.threads[i]?).bind (Thread.reach ciphertext.length) := by
    rw [hi]
    exact hn
  rcases hkeeps hj n hn' t ht with ⟨hopens, hwrites⟩
  rcases @threadStep_file lib g p.shared srv' (storagePath r.header.filename) t t' hstep with
    ⟨hopen, hfile⟩ | ⟨q, chunk, hwrite, hfile⟩ | ⟨_, _, hfile⟩
  · -- nothing was written before the file is emptied
    cases hopens hopen
    exact ⟨[], hfile, le_rfl, Nat.zero_le _, by simp⟩
  · rcases hwrites _ hwrite with ⟨hbehind, hwithin⟩
    rw [hcontent, Option.getD_some] at hfile
    refine ⟨_, hfile, ?_, ?_, (take_writeAt hle hbehind).trans htake⟩
    · rw [length_writeAt]
      omega
    · rw [length_writeAt]
      omega
  · exact ⟨content, hfile.trans hcontent, hle, hsize, htake⟩

/-- A failed upload claims nothing. -/
theorem reach_of_error {sent : List Message} (size : Nat) (h : sent = [.status .success]) :
    (Thread.request r .done (sent ++ [.status .error])).reach size = none := by
  simp [Thread.reach, acknowledgement, h, Message.status]

/-- A step of the upload itself. -/
theorem Intact.own {pc pc' : Pc} {sent msgs : List Message} (h : Intact r file.ciphertext i p)
    (hpool : UploadPool lib key old p) (hseals : Seals lib key r file)
    (hflush : r.upload.stdio.delivered file.ciphertext.length = file.ciphertext.length)
    (hi : p.threads[i]? = some (.request r pc sent))
    (hstep : requestStep lib g p.shared r pc = some (srv', pc', msgs)) :
    Intact r file.ciphertext i
      { shared := srv', threads := p.threads.set i (.request r pc' (sent ++ msgs)) } := by
  have hbound : i < p.threads.length := (List.getElem?_eq_some_iff.1 hi).1
  have hstate := hpool.inStep _ (List.mem_of_getElem? hi)
  have hintact := h pc sent hi
  intro pc₁ sent₁ hi₁ n hn
  rw [List.getElem?_set_self hbound] at hi₁
  cases hi₁
  cases pc with
  | start =>
      have hstart := Option.some.inj hstep
      rw [startStep, hseals.1] at hstart
      cases hfile : (uploadPrologue lib p.shared.crypto r.upload r.header r.incoming).file with
      | none =>
          have hne := uploadPrologue_sent_ne hfile
          simp only [hfile] at hstart
          cases hstart
          have hsent : sent = [] := hstate
          simp [Thread.reach, acknowledgement, hsent, hne] at hn
      | some file' =>
          simp only [hfile] at hstart
          cases hstart
          cases hn
  | opening file' =>
      have hopen := Option.some.inj hstep
      unfold openStep at hopen
      split at hopen
      · cases hopen
        rw [reach_of_error _ hstate.2] at hn
        cases hn
      · next opening hfopen =>
          split at hopen
          · -- the crash
            cases hopen
            simp [Thread.reach, acknowledgement, hstate.2] at hn
          · cases hopen
            cases hn
            unfold fopenWb at hfopen
            split at hfopen
            · cases hfopen
              exact ⟨[], OrderedMap.get?_set_self _ _ _, le_rfl, Nat.zero_le _, by simp⟩
            · cases hfopen
  | writing file' pos =>
      cases hseals.unique hstate.1
      rcases hintact pos rfl with ⟨content, hcontent, hle, hsize, htake⟩
      have hwrite := Option.some.inj hstep
      have hreports : file.lacksBuffer = false ∨ srv' = p.shared ∧ pc' = .done ∧
          msgs = [.status .error] := by
        cases hlacks : file.lacksBuffer with
        | false =>
            exact Or.inl rfl
        | true =>
            have hshort := SealedFile.written_ne_of_lacksBuffer hlacks r.upload.stdio
            simp only [writeStep, SealedFile.delivered, hlacks, if_true, Nat.not_lt_zero, if_false,
              if_pos hshort] at hwrite
            cases hwrite
            exact Or.inr ⟨rfl, rfl, rfl⟩
      rcases hreports with hbuffer | ⟨rfl, rfl, rfl⟩
      swap
      -- without a buffer nothing is written
      · rw [reach_of_error _ hstate.2] at hn
        cases hn
      simp only [writeStep, SealedFile.delivered_of_buffer hbuffer, hflush] at hwrite
      split at hwrite
      · next hpos =>
          cases hwrite
          cases hn
          rw [hcontent, Option.getD_some]
          rcases continues_writeAt hle hsize htake (Nat.min_le_right (g + 1) _) with
            ⟨hle', hsize', htake'⟩
          exact ⟨_, OrderedMap.get?_set_self _ _ _, hle', hsize', htake'⟩
      · next hpos =>
          split at hwrite
          · cases hwrite
            rw [reach_of_error _ hstate.2] at hn
            cases hn
          · cases hwrite
            cases hn
            have hwhole : pos = file.ciphertext.length := by omega
            subst hwhole
            exact ⟨content, hcontent, hle, hsize, htake⟩
  | inserting file' =>
      have hinsert := Option.some.inj hstep
      unfold insertStep at hinsert
      split at hinsert
      · cases hinsert
        rw [reach_of_error _ hstate.2] at hn
        cases hn
      · cases hinsert
        exact hintact n hn
  | event fileId call reply =>
      -- the event is in the database, and the reply may complete the acknowledgement
      have hwhole := hintact file.ciphertext.length rfl
      simp only [requestStep] at hstep
      split at hstep
      · cases hstep
        cases hn
        exact hwhole
      · cases hstep
        simp only [Thread.reach] at hn
        split at hn
        · cases hn
          exact hwhole
        · cases hn
  | stat d =>
      exact absurd hseals.1 hstate
  | reading d size acc =>
      exact absurd hseals.1 hstate
  | done =>
      cases hstep

end Intact

/-! ## Runs -/

section Runs

variable {lib : CryptoLib} {key : Bytes} {storage : Storage} {coll : Collection}
  {es : List (Turn Job Nat)} {p : Pool Server Thread} {i : Nat} {r : Request}
  {file : SealedFile}

theorem intact_run (hseals : Seals lib key r file)
    (hflush : r.upload.stdio.delivered file.ciphertext.length = file.ciphertext.length)
    (hrun : (serverThreads lib).lts.run
      { shared := Server.started key storage coll, threads := [] } es = some p)
    (hkeeps : (serverThreads lib).lts.EachStep
      (KeepsOff (storagePath r.header.filename) file.ciphertext.length i)
      { shared := Server.started key storage coll, threads := [] } es) :
    Intact r file.ciphertext i p := by
  have halways : (serverThreads lib).lts.Always (Intact r file.ciphertext i)
      { shared := Server.started key storage coll, threads := [] } es := by
    refine @Lts.always_of_eachStep _ _ (serverThreads lib).lts
      (fun q => UploadPool lib key (uploadDocs coll) q ∧ Intact r file.ciphertext i q) _ _
      (fun q hq => hq.2) ?_ _ _ ⟨UploadPool.init storage coll, fun _ _ hi => by cases hi⟩ hkeeps
    rintro q e q' ⟨hpool, hintact⟩ hkeep hstep
    refine ⟨hpool.step hstep, ?_⟩
    cases e with
    | start job =>
        rw [ThreadSystem.lts_step_start] at hstep
        subst hstep
        exact hintact.start job
    | advance j g =>
        rcases (serverThreads lib).lts_step_advance.1 hstep with ⟨t, srv', t', ht, hts, rfl⟩
        by_cases hj : j = i
        swap
        · exact hintact.other hj ht hts hkeep
        subst hj
        cases t with
        | daemon fileId call =>
            rcases Option.map_eq_some_iff.1 hts with ⟨_, _, heq⟩
            cases heq
            intro pc sent hi
            rw [List.getElem?_set_self (List.getElem?_eq_some_iff.1 ht).1] at hi
            cases hi
        | request u pc sent =>
            simp only [serverThreads, threadStep] at hts
            split at hts
            · cases hts
            rcases Option.map_eq_some_iff.1 hts with ⟨⟨srv₁, pc₁, msgs⟩, hreq, heq⟩
            cases heq
            intro pc' sent' hi
            have hi' := hi
            rw [List.getElem?_set_self (List.getElem?_eq_some_iff.1 ht).1] at hi'
            cases hi'
            exact hintact.own hpool hseals hflush ht hreq _ _ hi
  exact (serverThreads lib).lts.always_iff_forall_initial.1 halways es List.prefix_rfl p hrun

/-- In every run from whose beginning to whose end all other threads keep off the file of one
upload, which is acknowledged and loses no byte in `fclose`: the file is the complete ciphertext
of this upload, and a document decrypts it. -/
theorem sameName_complete (hlib : lib.Correct)
    (hopens : r.opens lib (Server.started key storage coll).crypto = some file)
    (hflush : r.upload.stdio.delivered file.ciphertext.length = file.ciphertext.length)
    (hrun : (serverThreads lib).lts.run
      { shared := Server.started key storage coll, threads := [] } es = some p)
    (hkeeps : (serverThreads lib).lts.EachStep
      (KeepsOff (storagePath r.header.filename) file.ciphertext.length i)
      { shared := Server.started key storage coll, threads := [] } es)
    (hdone : p.threads[i]? = some (.request r .done acknowledgement)) :
    p.shared.storage.get? (storagePath r.header.filename) = some file.ciphertext ∧
      ∃ d ∈ p.shared.collection,
        decryptFile lib p.shared.crypto.key EvpEnv.ok d file.ciphertext =
          .done (plaintextOf r) := by
  rcases Request.delivers_of_opens hopens with ⟨hcmd, _, hdelivers⟩
  have hseals : Seals lib key r file := ⟨hcmd, hdelivers⟩
  have hpool := uploadPool_run hrun
  constructor
  · have hreach : file.ciphertext.length ∈
        (Thread.request r .done acknowledgement).reach file.ciphertext.length := by
      simp [Thread.reach]
    rcases intact_run hseals hflush hrun hkeeps .done acknowledgement hdone _ hreach with
      ⟨content, hcontent, _, hsize, htake⟩
    rw [List.take_of_length_le hsize, List.take_length] at htake
    rw [hcontent, htake]
  · rcases hpool.present r .done acknowledgement (List.mem_of_getElem? hdone)
      ⟨hcmd, Or.inr ⟨rfl, rfl⟩⟩ with ⟨d, hd, file', hseals', rfl⟩
    cases hseals.unique hseals'
    rcases List.mem_map.1 (List.mem_filter.1 hd).1 with ⟨d', hd', hsame⟩
    rcases Prod.mk.inj hdelivers.encrypted with ⟨hciphertext, htag⟩
    refine ⟨d', hd', ?_⟩
    rw [decryptFile_of_document hsame (hdelivers.length_tag hlib) rfl
      (hdelivers.length_ciphertext_lt hlib), hpool.crypto, hciphertext, htag]
    exact EvpResult.ofOption_eq_done_iff.2 (hlib.decrypt_encrypt _ _ _)

end Runs

/-! ## Two uploads -/

/-- The AES-256-GCM tag of "y" as well. -/
def raceTag (p : Bytes) : Bytes :=
  if p = ascii "y" then
    [187, 72, 7, 89, 136, 227, 16, 114, 91, 254, 62, 50, 16, 223, 50, 102]
  else sampleTag p

/-- And its BLAKE3 hash. -/
def raceHash (p : Bytes) : Bytes :=
  if p = ascii "y" then
    [8, 17, 42, 158, 51, 76, 231, 48, 66, 181, 49, 194, 86, 104, 207, 92,
     177, 42, 30, 224, 64, 164, 50, 106, 254, 172, 6, 84, 97, 7, 154, 6]
  else sampleHash p

def raceLib : CryptoLib :=
  streamLib (fun _ => raceTag) raceHash

theorem raceLib_correct : raceLib.Correct := by
  refine streamLib_correct fun _ p => ?_
  unfold raceTag
  split
  · rfl
  · exact length_sampleTag p

/-- Bob's upload of "y", also as "a". -/
def bobUpload : Request :=
  Request.uploading (ascii "bob") (ascii "a") (ascii "y") (raceHash (ascii "y"))

/-- An upload that has ended with success. -/
def Thread.acknowledged : Thread → Bool
  | .request _ .done sent => decide (sent = acknowledgement)
  | _ => false

theorem threads_of_acknowledged {ts : List Thread} {rs : List Request}
    (hrequests : ts.map Thread.request? = rs.map some)
    (hack : ts.all Thread.acknowledged = true) :
    ts = rs.map fun r => .request r .done acknowledgement := by
  induction ts generalizing rs with
  | nil =>
      rw [List.map_eq_nil_iff.1 hrequests.symm]
      rfl
  | cons t ts ih =>
      cases rs with
      | nil =>
          cases hrequests
      | cons r rs =>
          rcases List.cons.inj hrequests with ⟨hrequest, hrest⟩
          rcases Bool.and_eq_true_iff.1 hack with ⟨ht, hts⟩
          rw [List.map_cons, ← ih hrest hts]
          cases t with
          | daemon fileId call =>
              cases hrequest
          | request u pc sent =>
              cases hrequest
              cases pc with
              | done =>
                  rw [of_decide_eq_true ht]
              | _ =>
                  cases ht

/-- Both have the file open, and Bob writes before Alice does. -/
theorem sameName_alice_last :
    let srv := Server.started sampleKey OrderedMap.empty []
    let es := [.start (.request aliceUpload), .start (.request bobUpload), .advance 0 0,
      .advance 1 0, .advance 0 0, .advance 1 0, .advance 1 0, .advance 0 1] ++
        List.replicate 6 (.advance 0 0) ++ List.replicate 6 (.advance 1 0)
    ∃ p, (serverThreads raceLib).lts.run { shared := srv, threads := [] } es = some p ∧
      p.shared.storage.get? (storagePath (ascii "a")) = some (sampleXor (ascii "hi")) ∧
      ∃ d ∈ p.shared.collection, decryptFile raceLib p.shared.crypto.key EvpEnv.ok d
        (sampleXor (ascii "hi")) = .done (ascii "hi") := by
  intro srv es
  have hend : ((serverThreads raceLib).lts.run { shared := srv, threads := [] } es).any
      (fun q => q.threads.all Thread.acknowledged) = true := by decide
  rcases (Option.any_eq_true _ _).1 hend with ⟨p, hrun, hack⟩
  have hopens : aliceUpload.opens raceLib srv.crypto = some
      { ciphertext := sampleXor (ascii "hi"), hasBuffer := true, iv := sampleIv,
        tag := sampleTag (ascii "hi") } := by decide
  have hthreads := @threads_of_acknowledged p.threads [aliceUpload, bobUpload]
    (request?_run hrun) hack
  have hdone : p.threads[0]? = some (.request aliceUpload .done acknowledgement) := by
    rw [hthreads]
    rfl
  exact ⟨p, hrun, sameName_complete raceLib_correct hopens (by decide) hrun (by decide) hdone⟩

/-- Both have the file open, and Alice writes before Bob does: of Alice's two bytes the second is
left behind Bob's one. -/
theorem sameName_mixed :
    let srv := Server.started sampleKey OrderedMap.empty []
    let es := [.start (.request aliceUpload), .start (.request bobUpload), .advance 0 0,
      .advance 1 0, .advance 0 0, .advance 1 0, .advance 0 1, .advance 1 0] ++
        List.replicate 6 (.advance 0 0) ++ List.replicate 6 (.advance 1 0)
    ∃ p content, (serverThreads raceLib).lts.run { shared := srv, threads := [] } es = some p ∧
      p.threads = [.request aliceUpload .done acknowledgement,
        .request bobUpload .done acknowledgement] ∧
      p.shared.storage.get? (storagePath (ascii "a")) = some content ∧
      (∀ r ∈ [aliceUpload, bobUpload],
        (r.opens raceLib srv.crypto).map SealedFile.ciphertext ≠ some content) ∧
      ∀ d ∈ p.shared.collection,
        decryptFile raceLib p.shared.crypto.key EvpEnv.ok d content = .failed := by
  intro srv es
  let content : Bytes := [183, 206]
  have hend : ((serverThreads raceLib).lts.run { shared := srv, threads := [] } es).any
      (fun q => q.threads.all Thread.acknowledged &&
        decide (q.shared.storage.get? (storagePath (ascii "a")) = some content) &&
        q.shared.collection.all fun d =>
          decide (decryptFile raceLib q.shared.crypto.key EvpEnv.ok d content = .failed)) =
        true := by
    decide
  rcases (Option.any_eq_true _ _).1 hend with ⟨p, hrun, hp⟩
  simp only [Bool.and_eq_true, decide_eq_true_eq, List.all_eq_true] at hp
  rcases hp with ⟨⟨hack, hfile⟩, hnone⟩
  refine ⟨p, content, hrun, ?_, hfile, by decide, hnone⟩
  exact @threads_of_acknowledged p.threads [aliceUpload, bobUpload] (request?_run hrun)
    (List.all_eq_true.2 hack)

end FileExchange
