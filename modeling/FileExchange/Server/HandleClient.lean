import FileExchange.Server.Run

/-!
# Server.HandleClient — the request loop and TLS records

The loop reads a header with one `SSL_read` and ends when it gets fewer bytes than a header has;
file contents are received by a loop that goes on over record boundaries.

* `clientLoop`     : the loop of `handle_client`, on the records that arrive;
* `streamRequests` : the requests in a stream of bytes, wherever its records end;
* `clientLoop_eq`  : the loop serves the requests up to the first header that a boundary cuts;
* `handleClient_congr_iff` : so two ways of cutting a stream are served alike if and only if the
  headers before the first cut one are the same.
-/

namespace FileExchange

open Lib

/-! ## Record boundaries -/

/-- The positions in the stream at which the records end. -/
def boundaries : List Bytes → List Nat
  | [] => []
  | r :: records => r.length :: (boundaries records).map (r.length + ·)

/-- No record ends within the `size` bytes from `start` on. -/
def Whole (records : List Bytes) (size start : Nat) : Bool :=
  (boundaries records).all fun b => !(decide (start < b) && decide (b < start + size))

/-- After `n` more bytes of the stream `records` have become `rest`: the same bytes, with the same
boundaries between them. -/
structure Advances (records : List Bytes) (n : Nat) (rest : List Bytes) : Prop where
  flatten : rest.flatten = records.flatten.drop n
  boundary : ∀ b, 0 < b → (b ∈ boundaries rest ↔ n + b ∈ boundaries records)

section Boundaries

variable {records rest rest' : List Bytes} {n m : Nat}

theorem whole_eq_true_iff {size start : Nat} :
    Whole records size start = true ↔
      ∀ b ∈ boundaries records, ¬ (start < b ∧ b < start + size) := by
  rw [Whole, List.all_eq_true]
  refine forall₂_congr fun b _ => ?_
  rw [Bool.not_eq_true', Bool.and_eq_false_iff, decide_eq_false_iff_not, decide_eq_false_iff_not]
  omega

theorem Advances.refl (records : List Bytes) : Advances records 0 records where
  flatten := rfl
  boundary b _ := by rw [Nat.zero_add]

theorem Advances.trans (h : Advances records n rest) (h' : Advances rest m rest') :
    Advances records (n + m) rest' where
  flatten := by rw [h'.flatten, h.flatten, List.drop_drop]
  boundary b hb := by
    rw [h'.boundary b hb, h.boundary (m + b) (by omega), Nat.add_assoc]

theorem Advances.whole (h : Advances records n rest) (size start : Nat) :
    Whole records size (n + start) = Whole rest size start := by
  rw [Bool.eq_iff_iff, whole_eq_true_iff, whole_eq_true_iff]
  constructor
  · intro hall b hb hinside
    exact hall (n + b) ((h.boundary b (by omega)).1 hb) ⟨by omega, by omega⟩
  · intro hall b hb hinside
    -- a boundary behind the first `n` bytes is one of the rest
    have hshift : n + (b - n) = b := by omega
    refine hall (b - n) ((h.boundary (b - n) (by omega)).2 ?_) ⟨by omega, by omega⟩
    rw [hshift]
    exact hb

/-- A read leaves the boundaries behind it. -/
theorem advances_sslRead (hn : 0 < n) {bytes : Bytes}
    (h : sslRead n records = some (bytes, rest)) : Advances records bytes.length rest := by
  refine ⟨?_, ?_⟩
  · rw [(sslRead_eq_some hn h).1, List.drop_left]
  · induction records with
    | nil =>
        cases h
    | cons r records ih =>
        cases r with
        | nil =>
            intro b hb
            rw [ih h b hb]
            simp [boundaries]
            omega
        | cons c r =>
            intro b hb
            rw [sslRead] at h
            cases h
            split
            -- the read uses up the first record, or ends inside of it
            · next hle =>
                rw [List.take_of_length_le hle]
                simp [boundaries]
                omega
            · next hgt =>
                have hlen : ((c :: r).take n).length = n := by
                  rw [List.length_take]
                  omega
                have hrest : ((c :: r).drop n).length = (c :: r).length - n := List.length_drop
                rw [hlen, boundaries, boundaries, hrest, List.mem_cons, List.mem_cons,
                  List.mem_map, List.mem_map]
                constructor
                · rintro (rfl | ⟨b', hb', rfl⟩)
                  · exact Or.inl (by omega)
                  · exact Or.inr ⟨b', hb', by omega⟩
                · rintro (heq | ⟨b', hb', heq⟩)
                  · exact Or.inl (by omega)
                  · exact Or.inr ⟨b', hb', by omega⟩

/-- A read gets all it asks for, unless a record ends before. -/
theorem sslRead_whole_iff {bytes : Bytes}
    (h : sslRead n records = some (bytes, rest)) (hlen : n ≤ records.flatten.length) :
    bytes.length = n ↔ Whole records n 0 = true := by
  rw [whole_eq_true_iff]
  induction records with
  | nil =>
      cases h
  | cons r records ih =>
      cases r with
      | nil =>
          rw [ih h hlen]
          simp [boundaries]
      | cons c r =>
          rw [sslRead] at h
          cases h
          rw [List.length_take]
          constructor
          · intro hfull b hb hinside
            rw [boundaries, List.mem_cons, List.mem_map] at hb
            rcases hb with rfl | ⟨b', _, rfl⟩
            · omega
            · omega
          · intro hall
            have hfirst := hall (c :: r).length (by simp [boundaries])
            rw [List.length_cons] at hfirst ⊢
            omega

theorem advances_recvLoop {fuel : Nat} : ∀ {len : Nat} {records rest : List Bytes} {bytes : Bytes},
    len ≤ fuel → recvLoop fuel len records = some (bytes, rest) → Advances records len rest := by
  induction fuel with
  | zero =>
      intro len records rest bytes hlen h
      cases h
      rw [Nat.le_zero.1 hlen]
      exact Advances.refl _
  | succ fuel ih =>
      intro len records rest bytes hlen h
      by_cases hzero : len = 0
      · rw [recvLoop, if_pos hzero] at h
        cases h
        rw [hzero]
        exact Advances.refl _
      · rw [recvLoop, if_neg hzero] at h
        rcases Option.bind_eq_some_iff.1 h with ⟨⟨got, left⟩, hread, h⟩
        rcases Option.map_eq_some_iff.1 h with ⟨⟨more, rest'⟩, hrec, heq⟩
        cases heq
        rcases sslRead_eq_some (by omega) hread with ⟨_, hpos, hle⟩
        dsimp only at hrec hpos hle ⊢
        have hfirst := advances_sslRead (by omega) hread
        have hmore := ih (by omega) hrec
        have hsum : got.length + (len - got.length) = len := by omega
        rw [← hsum]
        exact hfirst.trans hmore

theorem advances_receiveLoop {fuel : Nat} :
    ∀ {remaining : Int} {records rest : List Bytes} {bytes : Bytes},
      remaining.toNat ≤ fuel → receiveLoop fuel remaining records = some (bytes, rest) →
        Advances records remaining.toNat rest := by
  induction fuel with
  | zero =>
      intro remaining records rest bytes hfuel h
      cases h
      rw [Nat.le_zero.1 hfuel]
      exact Advances.refl _
  | succ fuel ih =>
      intro remaining records rest bytes hfuel h
      by_cases hpos : remaining > 0
      · rcases toRead_bounds hpos with ⟨hone, hmax⟩
        rw [receiveLoop, if_pos hpos] at h
        rcases Option.bind_eq_some_iff.1 h with ⟨⟨got, left⟩, hrecv, h⟩
        rcases Option.map_eq_some_iff.1 h with ⟨⟨more, rest'⟩, hrec, heq⟩
        cases heq
        dsimp only at hrec ⊢
        have hfirst : Advances records (toRead remaining) left := advances_recvLoop le_rfl hrecv
        have hmore := ih (by omega) hrec
        have hsum : toRead remaining + (remaining - toRead remaining).toNat = remaining.toNat := by
          omega
        rw [← hsum]
        exact hfirst.trans hmore
      · rw [receiveLoop, if_neg hpos] at h
        cases h
        have hzero : remaining.toNat = 0 := by omega
        rw [hzero]
        exact Advances.refl _

/-- Boundaries lie within the stream. -/
theorem le_length_of_mem_boundaries {b : Nat} (h : b ∈ boundaries records) :
    b ≤ records.flatten.length := by
  induction records generalizing b with
  | nil =>
      cases h
  | cons r records ih =>
      rw [boundaries, List.mem_cons, List.mem_map] at h
      rw [List.flatten_cons, List.length_append]
      rcases h with rfl | ⟨b', hb', rfl⟩
      · omega
      · have hle := ih hb'
        omega

/-- At the end of the stream nothing is left. -/
theorem advances_end (h : records.flatten.length ≤ n) : Advances records n [] where
  flatten := (List.drop_of_length_le h).symm
  boundary b hb := by
    refine iff_of_false (by simp [boundaries]) fun hmem => ?_
    have hle := le_length_of_mem_boundaries hmem
    omega

end Boundaries

/-! ## The request loop -/

/-- What the handlers of a connection find, request by request, and what lies behind the header on
the stack of `handle_client`. -/
structure ClientEnv where
  upload : Nat → UploadEnv
  download : Nat → DownloadEnv
  list : Nat → ListEnv
  stack : Nat → Bytes

/-- The `i`-th request, with the records that follow its header. -/
def ClientEnv.request (env : ClientEnv) (client : CString) (i : Nat) (header : Bytes)
    (incoming : List Bytes) : Request :=
  { client := client
    header := RequestHeader.ofBytes (header ++ env.stack i)
    incoming := incoming
    upload := env.upload i
    download := env.download i
    list := env.list i }

/-- The handler gets to its receive loop. -/
def Request.receives (crypto : FileCryptoCtx) (r : Request) : Bool :=
  decide (r.header.command = .upload) && (uploadRefusal crypto r.header).isNone &&
    r.upload.readySent && malloc r.upload.plaintextAlloc (toSizeT r.header.filesize.toInt)

/-- The file that an upload request receives. -/
def Request.received (crypto : FileCryptoCtx) (r : Request) : Option Bytes :=
  if r.receives crypto then (receiveFile r.header.filesize.toInt r.incoming).map Prod.fst else none

/-- The records that the handler leaves to the loop. -/
def Request.unread (lib : CryptoLib) (crypto : FileCryptoCtx) (r : Request) : List Bytes :=
  if r.header.command = .upload then
    (uploadPrologue lib crypto r.upload r.header r.incoming).incoming
  else r.incoming

/-- A request that the loop has served, and the file it came with. -/
structure Served where
  header : RequestHeader
  received : Option Bytes
  deriving DecidableEq, Repr

/-- `while (SSL_read(ssl, &req, sizeof(RequestHeader)) == sizeof(RequestHeader))`. -/
def clientLoop (lib : CryptoLib) (client : CString) (env : ClientEnv) :
    Nat → Nat → Server → List Bytes → List Served
  | 0, _, _, _ => []
  | fuel + 1, i, srv, records =>
      if !srv.alive then []
      else
        match sslRead requestHeaderSize records with
        | none => []
        | some (header, rest) =>
            if header.length = requestHeaderSize then
              let r := env.request client i header rest
              { header := r.header, received := r.received srv.crypto } ::
                clientLoop lib client env fuel (i + 1) (serve lib srv r).1
                  (r.unread lib srv.crypto)
            -- part of a header ends the loop like the end of the stream
            else []

/-- The requests that a connection serves, when `records` arrive on it. -/
def handleClient (lib : CryptoLib) (client : CString) (env : ClientEnv) (srv : Server)
    (records : List Bytes) : List Served :=
  clientLoop lib client env records.flatten.length 0 srv records

/-! ## The requests of a stream -/

/-- The number of bytes behind the header that belong to the request. -/
def Request.fileSize (crypto : FileCryptoCtx) (r : Request) : Nat :=
  if r.receives crypto then r.header.filesize.toInt.toNat else 0

/-- The requests in a stream, each with the position of its header. -/
def streamRequests (lib : CryptoLib) (client : CString) (env : ClientEnv) :
    Nat → Nat → Server → Bytes → List (Nat × Served)
  | 0, _, _, _ => []
  | fuel + 1, i, srv, stream =>
      if !srv.alive || decide (stream.length < requestHeaderSize) then []
      else
        let rest := stream.drop requestHeaderSize
        let r := env.request client i (stream.take requestHeaderSize) [rest]
        let size := requestHeaderSize + r.fileSize srv.crypto
        (0, { header := r.header, received := r.received srv.crypto }) ::
          (streamRequests lib client env fuel (i + 1) (serve lib srv r).1 (stream.drop size)).map
            fun q => (size + q.1, q.2)

/-- The positions of the headers in a stream. -/
def headerStarts (lib : CryptoLib) (client : CString) (env : ClientEnv) (srv : Server)
    (stream : Bytes) : List Nat :=
  (streamRequests lib client env stream.length 0 srv stream).map Prod.fst

/-! ## A request does not depend on the records of its file -/

section Segments

variable {lib : CryptoLib} {crypto : FileCryptoCtx} {srv : Server} {r : Request}
  {records records' : List Bytes}

theorem uploadPrologue_congr {env : UploadEnv} {req : RequestHeader}
    (h : records.flatten = records'.flatten) :
    (uploadPrologue lib crypto env req records).sent =
        (uploadPrologue lib crypto env req records').sent ∧
      (uploadPrologue lib crypto env req records).file =
        (uploadPrologue lib crypto env req records').file ∧
      (uploadPrologue lib crypto env req records).died =
        (uploadPrologue lib crypto env req records').died := by
  have hfile := @receiveFile_congr req.filesize.toInt records records' h
  unfold uploadPrologue
  split
  · exact ⟨rfl, rfl, rfl⟩
  · simp only
    split
    · exact ⟨rfl, rfl, rfl⟩
    · split
      · exact ⟨rfl, rfl, rfl⟩
      · cases hr : receiveFile req.filesize.toInt records with
        | none =>
            rw [hr, Option.map_none, eq_comm, Option.map_eq_none_iff] at hfile
            rw [hfile]
            exact ⟨rfl, rfl, rfl⟩
        | some q =>
            rw [hr, Option.map_some, eq_comm, Option.map_eq_some_iff] at hfile
            rcases hfile with ⟨q', hq', hsame⟩
            rw [hq']
            -- the same contents, so the same hash and ciphertext
            rcases q with ⟨plaintext, rest⟩
            rcases q' with ⟨plaintext', rest'⟩
            cases hsame
            dsimp only
            split
            · exact ⟨rfl, rfl, rfl⟩
            · split
              · exact ⟨rfl, rfl, rfl⟩
              · split
                · exact ⟨rfl, rfl, rfl⟩
                · exact ⟨rfl, rfl, rfl⟩
                · exact ⟨rfl, rfl, rfl⟩

theorem handleUpload_congr {req : RequestHeader} {client : CString} {env : UploadEnv}
    (h : records.flatten = records'.flatten) :
    (handleUpload lib srv req client env records).server =
      (handleUpload lib srv req client env records').server := by
  obtain ⟨-, hfile, hdied⟩ := @uploadPrologue_congr lib srv.crypto _ _ env req h
  simp only [handleUpload, hfile, hdied]
  split
  · rfl
  · split
    · rfl
    · split
      · rfl
      · split
        · rfl
        · split <;> rfl

theorem serve_congr (h : records.flatten = records'.flatten) :
    (serve lib srv { r with incoming := records }).1 =
      (serve lib srv { r with incoming := records' }).1 := by
  cases halive : srv.alive with
  | false =>
      simp [serve, halive]
  | true =>
      -- only an upload reads more than its header
      cases hcmd : r.header.command with
      | upload => simpa [serve, halive, hcmd] using handleUpload_congr h
      | download => simp [serve, halive, hcmd]
      | list => simp [serve, halive, hcmd]
      | unknown => simp [serve, halive, hcmd]

theorem received_congr (h : records.flatten = records'.flatten) :
    { r with incoming := records }.received crypto =
      { r with incoming := records' }.received crypto := by
  rw [Request.received, Request.received, receiveFile_congr h]
  rfl

/-- Behind a request the loop goes on where its file ends. -/
theorem advances_unread (lib : CryptoLib) (crypto : FileCryptoCtx) (r : Request) :
    Advances r.incoming (r.fileSize crypto) (r.unread lib crypto) := by
  by_cases hcmd : r.header.command = .upload
  swap
  · have hnone : r.fileSize crypto = 0 := by
      simp [Request.fileSize, Request.receives, hcmd]
    rw [hnone, Request.unread, if_neg hcmd]
    exact Advances.refl _
  rw [Request.unread, if_pos hcmd]
  cases href : uploadRefusal crypto r.header with
  | some st =>
      simpa [Request.fileSize, Request.receives, href, uploadPrologue] using Advances.refl _
  | none =>
      by_cases hready : r.upload.readySent = true
      swap
      · simpa [Request.fileSize, Request.receives, href, uploadPrologue, hready] using
          Advances.refl _
      by_cases halloc : malloc r.upload.plaintextAlloc (toSizeT r.header.filesize.toInt) = true
      swap
      · simpa [Request.fileSize, Request.receives, href, uploadPrologue, hready, halloc] using
          Advances.refl _
      have hsize : r.fileSize crypto = r.header.filesize.toInt.toNat := by
        simp [Request.fileSize, Request.receives, hcmd, href, hready, halloc]
      rw [hsize]
      cases hrecv : receiveFile r.header.filesize.toInt r.incoming with
      | none =>
          -- the connection has ended within the file
          have hshort : ¬ r.header.filesize.toInt.toNat ≤ r.incoming.flatten.length := by
            rw [← receiveFile_isSome_iff, hrecv]
            simp
          have hend : Advances r.incoming r.header.filesize.toInt.toNat [] :=
            advances_end (by omega)
          simpa [uploadPrologue, href, hready, halloc, hrecv] using hend
      | some q =>
          rcases q with ⟨plaintext, rest⟩
          have hrest : Advances r.incoming r.header.filesize.toInt.toNat rest :=
            advances_receiveLoop le_rfl hrecv
          -- every exit behind the receive loop leaves what the loop has left
          have hleft :
              (uploadPrologue lib crypto r.upload r.header r.incoming).incoming = rest := by
            simp only [uploadPrologue, href, hready, halloc, hrecv, Bool.not_true,
              Bool.false_eq_true, if_false]
            split
            · rfl
            · split
              · rfl
              · split <;> rfl
          rw [hleft]
          exact hrest

end Segments

/-! ## The loop on the records of a stream -/

section Loop

variable {lib : CryptoLib} {client : CString} {env : ClientEnv} {records records' : List Bytes}
  {fuel i : Nat} {srv : Server}

/-- Behind the first `n` bytes the boundaries cut the same headers. -/
theorem Advances.takeWhile_whole {n : Nat} {rest : List Bytes} (h : Advances records n rest)
    (size : Nat) (qs : List (Nat × Served)) :
    ((qs.map fun q => (n + q.1, q.2)).takeWhile fun q => Whole records size q.1).map Prod.snd =
      (qs.takeWhile fun q => Whole rest size q.1).map Prod.snd := by
  rw [List.takeWhile_map, List.map_map]
  simp only [Function.comp_def, h.whole]

/-- A stream that is too short for a header has no request. -/
theorem streamRequests_of_short {stream : Bytes} (h : stream.length < requestHeaderSize) :
    streamRequests lib client env (fuel + 1) i srv stream = [] := by
  simp [streamRequests, h]

/-- A stream that begins with a header. -/
theorem streamRequests_of_header (halive : srv.alive = true) {header rest : Bytes}
    (h : header.length = requestHeaderSize) :
    let r := env.request client i header [rest]
    let size := requestHeaderSize + r.fileSize srv.crypto
    streamRequests lib client env (fuel + 1) i srv (header ++ rest) =
      (0, { header := r.header, received := r.received srv.crypto }) ::
        (streamRequests lib client env fuel (i + 1) (serve lib srv r).1
          ((header ++ rest).drop size)).map fun q => (size + q.1, q.2) := by
  have hlong : ¬ (header ++ rest).length < requestHeaderSize := by
    rw [List.length_append]
    omega
  simp only [streamRequests, halive, hlong, List.take_left' h, List.drop_left' h, Bool.not_true,
    decide_false, Bool.or_self, Bool.false_eq_true, if_false]

/-- The loop serves the requests of the stream up to the first header that a boundary cuts. -/
theorem clientLoop_eq : ∀ {i : Nat} {srv : Server} {records : List Bytes},
    clientLoop lib client env fuel i srv records =
      ((streamRequests lib client env fuel i srv records.flatten).takeWhile
        fun q => Whole records requestHeaderSize q.1).map Prod.snd := by
  induction fuel with
  | zero =>
      intro i srv records
      rfl
  | succ fuel ih =>
      intro i srv records
      by_cases halive : srv.alive = true
      swap
      · simp [clientLoop, streamRequests, halive]
      cases hread : sslRead requestHeaderSize records with
      | none =>
          -- the end of the stream
          rw [sslRead_eq_none hread, streamRequests_of_short (by decide)]
          simp [clientLoop, halive, hread]
      | some q =>
          rcases q with ⟨header, rest⟩
          rcases sslRead_eq_some (by decide) hread with ⟨hstream, hpos, _⟩
          by_cases hlen : header.length = requestHeaderSize
          swap
          -- a part of a header: the stream ends within it, or a boundary cuts it
          · have hend : clientLoop lib client env (fuel + 1) i srv records = [] := by
              simp [clientLoop, halive, hread, hlen]
            rw [hend]
            by_cases hshort : records.flatten.length < requestHeaderSize
            · rw [streamRequests_of_short hshort]
              rfl
            · have hcut : Whole records requestHeaderSize 0 = false := by
                rw [← Bool.not_eq_true, ← sslRead_whole_iff hread (by omega)]
                exact hlen
              simp only [streamRequests, halive, hshort, Bool.not_true, decide_false,
                Bool.or_self, Bool.false_eq_true, if_false]
              rw [List.takeWhile_cons_of_neg (by simp [hcut])]
              rfl
          · have hwhole : Whole records requestHeaderSize 0 = true := by
              refine (sslRead_whole_iff hread ?_).1 hlen
              rw [hstream, List.length_append]
              omega
            have hadvance := advances_sslRead (by decide) hread
            rw [hlen] at hadvance
            -- the request with its file in records, and in one piece
            let r := env.request client i header rest
            let r' := env.request client i header [rest.flatten]
            have hrest : rest.flatten = [rest.flatten].flatten := by simp
            have hserve : (serve lib srv r).1 = (serve lib srv r').1 :=
              @serve_congr lib srv r _ _ hrest
            have hreceived : r.received srv.crypto = r'.received srv.crypto :=
              @received_congr srv.crypto r _ _ hrest
            have hunread : Advances records (requestHeaderSize + r'.fileSize srv.crypto)
                (r.unread lib srv.crypto) :=
              hadvance.trans (advances_unread lib srv.crypto r)
            calc clientLoop lib client env (fuel + 1) i srv records
                = { header := r.header, received := r.received srv.crypto } ::
                    clientLoop lib client env fuel (i + 1) (serve lib srv r).1
                      (r.unread lib srv.crypto) := by
                  simp [clientLoop, halive, hread, hlen, r]
              _ = { header := r'.header, received := r'.received srv.crypto } ::
                    ((streamRequests lib client env fuel (i + 1) (serve lib srv r').1
                      (records.flatten.drop (requestHeaderSize + r'.fileSize srv.crypto))).takeWhile
                        fun q => Whole (r.unread lib srv.crypto) requestHeaderSize q.1).map
                          Prod.snd := by
                  rw [ih, hunread.flatten, hserve, hreceived]
                  rfl
              _ = ((streamRequests lib client env (fuel + 1) i srv records.flatten).takeWhile
                    fun q => Whole records requestHeaderSize q.1).map Prod.snd := by
                  rw [hstream, streamRequests_of_header halive hlen,
                    List.takeWhile_cons_of_pos (p := fun q : Nat × Served =>
                      Whole records requestHeaderSize q.1) hwhole, List.map_cons]
                  exact congrArg (List.cons _) (hunread.takeWhile_whole _ _).symm

/-- Two parts of a list from its front are the same when they have the same length. -/
theorem takeWhile_eq_of_length {α : Type} {P Q : α → Bool} {l : List α}
    (h : (l.takeWhile P).length = (l.takeWhile Q).length) : l.takeWhile P = l.takeWhile Q := by
  have hP := (List.takeWhile_prefix P : l.takeWhile P <+: l)
  have hQ := (List.takeWhile_prefix Q : l.takeWhile Q <+: l)
  exact (List.prefix_of_prefix_length_le hP hQ h.le).eq_of_length h

/-- For two ways of cutting a stream into records, the loop serves the same requests with the same
files if and only if the headers before the first one that a boundary cuts are the same. -/
theorem handleClient_congr_iff (lib : CryptoLib) (client : CString) (env : ClientEnv)
    (srv : Server) (h : records.flatten = records'.flatten) :
    handleClient lib client env srv records = handleClient lib client env srv records' ↔
      (headerStarts lib client env srv records.flatten).takeWhile
          (Whole records requestHeaderSize) =
        (headerStarts lib client env srv records.flatten).takeWhile
          (Whole records' requestHeaderSize) := by
  rw [handleClient, handleClient, clientLoop_eq, clientLoop_eq, ← h, headerStarts,
    List.takeWhile_map, List.takeWhile_map]
  constructor
  · intro heq
    have hlength := congrArg List.length heq
    rw [List.length_map, List.length_map] at hlength
    exact congrArg _ (takeWhile_eq_of_length hlength)
  · intro heq
    have hlength := congrArg List.length heq
    rw [List.length_map, List.length_map] at hlength
    exact congrArg _ (takeWhile_eq_of_length hlength)

end Loop

/-! ## Two streams -/

/-- Handlers in which nothing fails. -/
def ClientEnv.ok : ClientEnv :=
  { upload := fun _ => UploadEnv.ok sampleIv 0
    download := fun _ => DownloadEnv.ok 0
    list := fun _ => ListEnv.ok fun _ => []
    stack := fun _ => [] }

/-- A header that asks for the list. -/
def listHeader : Bytes :=
  2 :: List.replicate 383 0

/-- A header that announces "hi" as "a". -/
def uploadHeader : Bytes :=
  [0, 0, 0, 0] ++ 97 :: List.replicate 259 0 ++ 2 :: List.replicate 16 0 ++
    sampleHash (ascii "hi") ++ List.replicate 71 0

set_option maxRecDepth 8000 in
/-- A file may arrive in any records. -/
theorem handleClient_file_in_records :
    let srv := Server.started sampleKey OrderedMap.empty []
    handleClient sampleLib (ascii "alice") ClientEnv.ok srv
        [uploadHeader ++ ascii "h", ascii "i", listHeader] =
      handleClient sampleLib (ascii "alice") ClientEnv.ok srv
        [uploadHeader, ascii "hi", listHeader] := by
  intro srv
  refine (handleClient_congr_iff sampleLib (ascii "alice") ClientEnv.ok srv ?_).2 ?_
  · decide
  · decide

set_option maxRecDepth 8000 in
/-- The same header in one record and in two: the second time it is not served. -/
theorem handleClient_header_in_two_records :
    let srv := Server.started sampleKey OrderedMap.empty []
    let whole := [listHeader]
    let cut := [listHeader.take 1, listHeader.drop 1]
    whole.flatten = cut.flatten ∧
      (handleClient sampleLib (ascii "alice") ClientEnv.ok srv whole).length = 1 ∧
      handleClient sampleLib (ascii "alice") ClientEnv.ok srv cut = [] ∧
      handleClient sampleLib (ascii "alice") ClientEnv.ok srv whole ≠
        handleClient sampleLib (ascii "alice") ClientEnv.ok srv cut := by
  intro srv whole cut
  have hwhole : (handleClient sampleLib (ascii "alice") ClientEnv.ok srv whole).length = 1 := by
    decide
  have hcut : handleClient sampleLib (ascii "alice") ClientEnv.ok srv cut = [] := by decide
  refine ⟨by decide, hwhole, hcut, fun heq => ?_⟩
  rw [heq, hcut] at hwhole
  cases hwhole

end FileExchange
