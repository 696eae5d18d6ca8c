import FileExchange.Server.Upload

/-!
# Connection — a client and its handler thread on one connection

The client sends a header, waits for the readiness reply, sends the file, and waits for the
final reply.  The server reads a header, announces readiness, allocates a buffer, reads the
file, replies, and goes back to `while (SSL_read(ssl, &req, sizeof(RequestHeader)) == ...)`.

* `Connection`         : the places of the two parties, and what is on its way between them;
* `connectionStep`     : the steps of either party;
* `run_uploadPrologue` : the handler thread goes through an upload as `uploadPrologue` says.
-/

namespace FileExchange

open Lib

/-! ## Bytes on their way -/

/-- A byte from the client, and whether it belongs to a file. -/
structure WireByte where
  byte : UInt8
  ofFile : Bool
  deriving DecidableEq, Repr

def headerBytes (bs : Bytes) : List WireByte :=
  bs.map fun b => { byte := b, ofFile := false }

def fileBytes (bs : Bytes) : List WireByte :=
  bs.map fun b => { byte := b, ofFile := true }

/-- A request of the client: the memory of its `RequestHeader`, and the file that an upload
announces. -/
structure Exchange where
  header : Bytes
  file : Bytes
  headerSize : header.length = requestHeaderSize
  fileSize : (RequestHeader.ofBytes header).command = .upload →
    file.length = (RequestHeader.ofBytes header).filesize.toInt.toNat

def Exchange.isUpload (x : Exchange) : Bool :=
  decide ((RequestHeader.ofBytes x.header).command = .upload)

/-! ## The two parties -/

/-- Where the client stands: between requests; with `rest` of a header to send, or waiting for
the reply to it; with `rest` of a file to send, or waiting for the reply to it. -/
inductive ClientPc
  | idle
  | request (rest : Bytes) (x : Exchange)
  | file (rest : Bytes)

/-- Where the handler thread stands: in `SSL_read` of the request loop; in the switch with the
bytes of a header; at the allocation of the buffer; in the receive loop, with `got` bytes of the
present round; after it; after the last reply of a list or download request. -/
inductive ServerPc
  | loop
  | dispatch (raw : List WireByte)
  | allocating (filesize : Int)
  | receiving (remaining : Int) (got : Nat)
  | finishing
  | returning
  deriving DecidableEq

/-- The requests still to be made, the two parties, and what is on its way in TLS records to the
server and in `ResponseHeader`s to the client. -/
structure Connection where
  script : List Exchange
  client : ClientPc
  server : ServerPc
  toServer : List (List WireByte)
  toClient : List ResponseStatus
  up : Bool

/-- What happens next: the client starts a request, passes up to `k + 1` bytes to `SSL_write`,
or reads a reply; the server reads, decides (`after` is what follows the header on its stack,
and `st` its answer to other requests than uploads), asks for a buffer, ends an upload, or
returns to the loop; or the connection breaks. -/
inductive ConnectionEvent
  | next
  | write (k : Nat)
  | receive
  | read
  | dispatch (after : Bytes) (st : ResponseStatus)
  | allocate (granted : Bool)
  | finish (st : ResponseStatus)
  | back
  | close
  deriving DecidableEq, Repr

namespace Connection

/-- A connection on which nothing has been sent. -/
def opened (script : List Exchange) : Connection :=
  { script := script
    client := .idle
    server := .loop
    toServer := []
    toClient := []
    up := true }

/-! ## Steps of the client -/

def next (c : Connection) : Option Connection :=
  match c.client, c.script with
  | .idle, x :: script => some { c with script := script, client := .request x.header x }
  | _, _ => none

def write (c : Connection) (k : Nat) : Option Connection :=
  match c.client with
  | .request (b :: rest) x =>
      some { c with
        client := .request ((b :: rest).drop (k + 1)) x
        toServer := c.toServer ++ [headerBytes ((b :: rest).take (k + 1))] }
  | .file (b :: rest) =>
      some { c with
        client := .file ((b :: rest).drop (k + 1))
        toServer := c.toServer ++ [fileBytes ((b :: rest).take (k + 1))] }
  | _ => none

/-- The client sends its file after `RESP_SUCCESS` only. -/
def receive (c : Connection) : Option Connection :=
  match c.client, c.toClient with
  | .request [] x, st :: replies =>
      some { c with
        client := if x.isUpload && decide (st = .success) then .file x.file else .idle
        toClient := replies }
  | .file [], _ :: replies => some { c with client := .idle, toClient := replies }
  | _, _ => none

/-! ## Steps of the server -/

/-- The receive loop with `got` bytes of the present round. -/
def afterRead (remaining : Int) (got : Nat) : ServerPc :=
  if got < toRead remaining then .receiving remaining got
  else if remaining - toRead remaining > 0 then .receiving (remaining - toRead remaining) 0
  else .finishing

/-- One `SSL_read`.  The request loop ends when it does not get a whole header. -/
def read (c : Connection) : Option Connection :=
  match c.server with
  | .loop =>
      (sslRead requestHeaderSize c.toServer).map fun r =>
        if r.1.length = requestHeaderSize then
          { c with server := .dispatch r.1, toServer := r.2 }
        else { c with up := false }
  | .receiving remaining got =>
      (sslRead (toRead remaining - got) c.toServer).map fun r =>
        { c with server := afterRead remaining (got + r.1.length), toServer := r.2 }
  | _ => none

/-- The switch; an upload goes on to its readiness reply. -/
def dispatch (crypto : FileCryptoCtx) (c : Connection) (after : Bytes) (st : ResponseStatus) :
    Option Connection :=
  match c.server with
  | .dispatch raw =>
      let req := RequestHeader.ofBytes (raw.map WireByte.byte ++ after)
      if req.command = .upload then
        match uploadRefusal crypto req with
        | some refusal => some { c with server := .loop, toClient := c.toClient ++ [refusal] }
        | none =>
            some { c with
              server := .allocating req.filesize.toInt
              toClient := c.toClient ++ [.success] }
      else some { c with server := .returning, toClient := c.toClient ++ [st] }
  | _ => none

/-- `malloc(req->filesize)`, after readiness has been announced. -/
def allocate (c : Connection) (granted : Bool) : Option Connection :=
  match c.server with
  | .allocating filesize =>
      if malloc granted (toSizeT filesize) then
        some { c with server := if filesize > 0 then .receiving filesize 0 else .finishing }
      -- the handler returns although the client has been told to send
      else some { c with server := .loop, toClient := c.toClient ++ [.error] }
  | _ => none

/-- Every exit behind the receive loop sends one reply. -/
def finish (c : Connection) (st : ResponseStatus) : Option Connection :=
  match c.server with
  | .finishing => some { c with server := .loop, toClient := c.toClient ++ [st] }
  | _ => none

def back (c : Connection) : Option Connection :=
  match c.server with
  | .returning => some { c with server := .loop }
  | _ => none

end Connection

/-- One step of either party, as long as the connection is up. -/
def connectionStep (crypto : FileCryptoCtx) (c : Connection) (e : ConnectionEvent) :
    Option Connection :=
  if !c.up then none
  else
    match e with
    | .next => c.next
    | .write k => c.write k
    | .receive => c.receive
    | .read => c.read
    | .dispatch after st => c.dispatch crypto after st
    | .allocate granted => c.allocate granted
    | .finish st => c.finish st
    | .back => c.back
    | .close => some { c with up := false }

/-- All interleavings of a client and its handler thread. -/
def connectionLts (crypto : FileCryptoCtx) : Lts Connection ConnectionEvent where
  step := connectionStep crypto

/-! ## The receive loop -/

/-- The server is going to take `n` more bytes as the file. -/
def ServerPc.Expects : ServerPc → Nat → Prop
  | .allocating filesize, n => n = filesize.toNat
  | .receiving remaining got, n =>
      remaining > 0 ∧ got < toRead remaining ∧ (n : Int) = remaining - got
  | .finishing, n => n = 0
  | _, _ => False

theorem ServerPc.Expects.ne_loop {pc : ServerPc} {n : Nat} (h : pc.Expects n) : pc ≠ .loop := by
  rintro rfl
  exact h

theorem ServerPc.Expects.ne_dispatch {pc : ServerPc} {n : Nat} (h : pc.Expects n)
    (raw : List WireByte) : pc ≠ .dispatch raw := by
  rintro rfl
  exact h

/-- A read of the receive loop. -/
theorem expects_afterRead {remaining : Int} {got n k : Nat}
    (h : (ServerPc.receiving remaining got).Expects n) (hle : k ≤ toRead remaining - got) :
    (Connection.afterRead remaining (got + k)).Expects (n - k) := by
  rcases h with ⟨hpos, hgot, hn⟩
  rcases toRead_bounds hpos with ⟨hone, hmax⟩
  unfold Connection.afterRead
  split
  · next hround =>
      exact ⟨hpos, hround, by omega⟩
  · next hround =>
      -- the round is complete
      have hk : got + k = toRead remaining := by omega
      split
      · next hmore =>
          exact ⟨hmore, (toRead_bounds hmore).1, by omega⟩
      · next hmore =>
          have hzero : n - k = 0 := by omega
          exact hzero

/-- A read takes its bytes off the front of what is on its way. -/
theorem sslRead_eq_of_flatten {n : Nat} (hn : 0 < n) {records rest : List (List WireByte)}
    {bytes flight : List WireByte} (h : sslRead n records = some (bytes, rest))
    (hflight : records.flatten = flight) :
    bytes ≠ [] ∧ bytes.length ≤ n ∧ bytes.length ≤ flight.length ∧
      bytes = flight.take bytes.length ∧ rest.flatten = flight.drop bytes.length := by
  rcases sslRead_eq_some hn h with ⟨hstream, hpos, hle⟩
  have hsplit : flight = bytes ++ rest.flatten := hflight.symm.trans hstream
  refine ⟨List.ne_nil_of_length_pos hpos, hle, ?_, ?_, ?_⟩
  · rw [hsplit, List.length_append]
    omega
  · rw [hsplit, List.take_left]
  · rw [hsplit, List.drop_left]

/-- Nothing can be read when nothing is on its way. -/
theorem sslRead_none_of_flatten {n : Nat} (hn : 0 < n) {records : List (List WireByte)}
    (h : records.flatten = []) : sslRead n records = none := by
  cases hread : sslRead n records with
  | none =>
      rfl
  | some r =>
      rcases r with ⟨bytes, rest⟩
      rcases sslRead_eq_of_flatten hn hread h with ⟨hne, _, hle, _, _⟩
      exact absurd (List.length_eq_zero_iff.1 (Nat.le_zero.1 hle)) hne

/-! ## The handler thread and `handle_upload_request` -/

section Handler

variable {lib : CryptoLib} {crypto : FileCryptoCtx} {after : Bytes} {c : Connection}
  {env : UploadEnv}

/-- The bytes on their way to the server, in the records they come in. -/
def Connection.incoming (c : Connection) : List Bytes :=
  c.toServer.map fun r => r.map WireByte.byte

theorem Connection.flatten_incoming (c : Connection) :
    c.incoming.flatten = c.toServer.flatten.map WireByte.byte := by
  rw [Connection.incoming, List.map_flatten]

/-- The reads of the receive loop, when the whole file is on its way. -/
theorem run_reads (crypto : FileCryptoCtx) {n : Nat} :
    ∀ {c : Connection}, c.up = true →
    c.server = .finishing ∧ n = 0 ∨
      (∃ remaining got, c.server = .receiving remaining got ∧ c.server.Expects n) →
    n ≤ c.toServer.flatten.length →
      ∃ es records, (connectionLts crypto).run c es =
          some { c with server := .finishing, toServer := records } ∧
        records.flatten = c.toServer.flatten.drop n := by
  induction n using Nat.strong_induction_on with
  | _ n ih =>
      rintro c hup (⟨hserver, rfl⟩ | ⟨remaining, got, hserver, hexpects⟩) hlen
      · refine ⟨[], c.toServer, ?_, rfl⟩
        rw [Lts.run_nil, ← hserver]
      · rw [hserver] at hexpects
        rcases hexpects with ⟨hpos, hgot, hn⟩
        rcases toRead_bounds hpos with ⟨_, hround⟩
        have hwant : 0 < toRead remaining - got := by omega
        cases hread : sslRead (toRead remaining - got) c.toServer with
        | none =>
            -- the stream cannot end here
            rw [sslRead_eq_none hread, List.length_nil] at hlen
            omega
        | some r =>
            rcases r with ⟨bytes, left⟩
            rcases sslRead_eq_of_flatten hwant hread rfl with ⟨hne, hmax, hle, _, hleft⟩
            have hbytes : 0 < bytes.length := List.length_pos_of_ne_nil hne
            -- induction on the bytes still to come: a read takes at least one of them
            let c₁ : Connection :=
              { c with
                  server := Connection.afterRead remaining (got + bytes.length)
                  toServer := left }
            have hstep : (connectionLts crypto).step c .read = some c₁ := by
              simp [connectionLts, connectionStep, hup, Connection.read, hserver, hread, c₁]
            have hnext : c₁.server.Expects (n - bytes.length) :=
              expects_afterRead ⟨hpos, hgot, hn⟩ hmax
            -- the read leaves the handler in the receive loop or behind it
            have hphase : c₁.server = .finishing ∧ n - bytes.length = 0 ∨
                (∃ remaining' got', c₁.server = .receiving remaining' got' ∧
                  c₁.server.Expects (n - bytes.length)) := by
              cases hserver₁ : c₁.server with
              | finishing =>
                  rw [hserver₁] at hnext
                  exact Or.inl ⟨rfl, hnext⟩
              | receiving remaining' got' =>
                  rw [hserver₁] at hnext
                  exact Or.inr ⟨remaining', got', rfl, hnext⟩
              | loop => exact absurd hserver₁ hnext.ne_loop
              | dispatch raw => exact absurd hserver₁ (hnext.ne_dispatch raw)
              | allocating filesize =>
                  simp only [c₁, Connection.afterRead] at hserver₁
                  split at hserver₁
                  · cases hserver₁
                  · split at hserver₁ <;> cases hserver₁
              | returning =>
                  rw [hserver₁] at hnext
                  exact hnext.elim
            have hleft₁ : n - bytes.length ≤ c₁.toServer.flatten.length := by
              have hlength := congrArg List.length hleft
              rw [List.length_drop] at hlength
              have hcount : c₁.toServer.flatten.length = left.flatten.length := rfl
              omega
            rcases ih (n - bytes.length) (by omega) (c := c₁) hup hphase hleft₁ with
              ⟨es, records, hrun, hrecords⟩
            refine ⟨.read :: es, records, (Lts.run_cons_eq_some _).2 ⟨c₁, hstep, hrun⟩, ?_⟩
            calc records.flatten = left.flatten.drop (n - bytes.length) := hrecords
              _ = (c.toServer.flatten.drop bytes.length).drop (n - bytes.length) := by rw [hleft]
              _ = c.toServer.flatten.drop n := by
                  rw [List.drop_drop]
                  congr 1
                  omega

/-- After the receive loop the prologue ends with an error, or it has a file to be stored, or the
process has died in the cipher. -/
theorem uploadPrologue_of_received (lib : CryptoLib) {req : RequestHeader}
    {incoming rest : List Bytes} {plaintext : Bytes} (href : uploadRefusal crypto req = none)
    (hready : env.readySent = true)
    (halloc : malloc env.plaintextAlloc (toSizeT req.filesize.toInt) = true)
    (hrecv : receiveFile req.filesize.toInt incoming = some (plaintext, rest)) :
    (∃ st, uploadPrologue lib crypto env req incoming =
        { sent := [.status .success, .status st], incoming := rest, file := none }) ∨
      (∃ file died, uploadPrologue lib crypto env req incoming =
        { sent := [.status .success], incoming := rest, file := file, died := died } ∧
          (file.isSome || died) = true) := by
  -- what can still fail is the hash, the nonce or the encryption
  by_cases hhash : lib.blake3 plaintext = req.fileHash
  swap
  · refine Or.inl ⟨.integrityError, ?_⟩
    simp [uploadPrologue, href, hready, halloc, hrecv, hhash]
  cases hiv : env.iv with
  | none =>
      refine Or.inl ⟨.error, ?_⟩
      simp [uploadPrologue, href, hready, halloc, hrecv, hhash, hiv]
  | some iv =>
      cases henc : enhancedAesGcmEncrypt lib env.evp plaintext (toInt req.filesize.toInt)
          crypto.key iv.val with
      | failed =>
          refine Or.inl ⟨.error, ?_⟩
          simp [uploadPrologue, href, hready, halloc, hrecv, hhash, hiv, henc]
      | died =>
          refine Or.inr ⟨none, true, ?_, rfl⟩
          simp [uploadPrologue, href, hready, halloc, hrecv, hhash, hiv, henc]
      | done sealed =>
          refine Or.inr
            ⟨some
              { ciphertext := sealed.1
                hasBuffer :=
                  malloc env.ciphertextAlloc (toSizeT (toInt64 (req.filesize.toInt + 16)))
                iv := iv
                tag := sealed.2 }, false, ?_, rfl⟩
          simp [uploadPrologue, href, hready, halloc, hrecv, hhash, hiv, henc]

/-- With the whole file on its way, the handler thread can go through the first part of
`handle_upload_request` as `uploadPrologue` says: it sends the same replies and leaves the same
bytes for what comes next.  When it dies there, it does so before it replies. -/
theorem run_uploadPrologue {raw : List WireByte} {req : RequestHeader} (hup : c.up = true)
    (hserver : c.server = .dispatch raw)
    (hreq : RequestHeader.ofBytes (raw.map WireByte.byte ++ after) = req)
    (hready : env.readySent = true) (hupload : req.command = .upload)
    (hwhole : req.filesize.toInt.toNat ≤ c.toServer.flatten.length) :
    let pro := uploadPrologue lib crypto env req c.incoming
    ∃ es c', (connectionLts crypto).run c es = some c' ∧
      c'.server = (if pro.file.isSome || pro.died then .finishing else .loop) ∧
      c'.toClient.map Message.status = c.toClient.map Message.status ++ pro.sent ∧
      c'.incoming.flatten = pro.incoming.flatten := by
  intro pro
  cases href : uploadRefusal crypto req with
  | some st =>
      -- refused before readiness: nothing is taken off the stream
      have hpro : pro = { sent := [.status st], incoming := c.incoming, file := none } := by
        simp [pro, uploadPrologue, href]
      refine ⟨[.dispatch after st], { c with server := .loop, toClient := c.toClient ++ [st] }, ?_⟩
      rw [hpro]
      refine ⟨?_, rfl, by simp, rfl⟩
      simp [Lts.run, connectionLts, connectionStep, hup, Connection.dispatch, hserver, hreq,
        hupload, href]
  | none =>
      let c₁ : Connection :=
        { c with
            server := .allocating req.filesize.toInt
            toClient := c.toClient ++ [.success] }
      have hfirst : (connectionLts crypto).step c (.dispatch after .success) = some c₁ := by
        simp [connectionLts, connectionStep, hup, Connection.dispatch, hserver, hreq, hupload,
          href, c₁]
      by_cases halloc : malloc env.plaintextAlloc (toSizeT req.filesize.toInt) = true
      -- no buffer: the handler returns with the whole file still on its way
      swap
      · have hpro : pro = { sent := [.status .success, .status .error]
                            incoming := c.incoming
                            file := none } := by
          simp [pro, uploadPrologue, href, hready, halloc]
        refine ⟨[.dispatch after .success, .allocate env.plaintextAlloc],
          { c₁ with server := .loop, toClient := c₁.toClient ++ [.error] }, ?_⟩
        rw [hpro]
        refine ⟨(Lts.run_cons_eq_some _).2 ⟨c₁, hfirst, ?_⟩, rfl, by simp [c₁], rfl⟩
        simp [Lts.run, connectionLts, connectionStep, hup, Connection.allocate, halloc, c₁]
      -- the buffer is there: the loop takes the file off the stream
      let c₂ : Connection :=
        { c₁ with
            server :=
              if req.filesize.toInt > 0 then .receiving req.filesize.toInt 0 else .finishing }
      have hsecond : (connectionLts crypto).step c₁ (.allocate env.plaintextAlloc) =
          some c₂ := by
        simp [connectionLts, connectionStep, hup, Connection.allocate, halloc, c₁, c₂]
      have hphase : c₂.server = .finishing ∧ req.filesize.toInt.toNat = 0 ∨
          (∃ remaining got, c₂.server = .receiving remaining got ∧
            c₂.server.Expects req.filesize.toInt.toNat) := by
        by_cases hpos : req.filesize.toInt > 0
        · refine Or.inr ⟨req.filesize.toInt, 0, by simp [c₂, hpos], ?_⟩
          simp only [c₂, hpos, if_true]
          exact ⟨hpos, (toRead_bounds hpos).1, by omega⟩
        · exact Or.inl ⟨by simp [c₂, hpos], by omega⟩
      rcases run_reads crypto (c := c₂) hup hphase hwhole with ⟨es, records, hreads, hrecords⟩
      let c₃ : Connection := { c₂ with server := .finishing, toServer := records }
      have hrun : (connectionLts crypto).run c
          (.dispatch after .success :: .allocate env.plaintextAlloc :: es) = some c₃ :=
        (Lts.run_cons_eq_some _).2 ⟨c₁, hfirst, (Lts.run_cons_eq_some _).2 ⟨c₂, hsecond, hreads⟩⟩
      have hlength : req.filesize.toInt.toNat ≤ c.incoming.flatten.length := by
        rw [Connection.flatten_incoming, List.length_map]
        exact hwhole
      rcases Option.isSome_iff_exists.1 (receiveFile_isSome_iff.2 hlength) with
        ⟨⟨plaintext, rest⟩, hrecv⟩
      have hrest : c₃.incoming.flatten = rest.flatten := by
        rw [(receiveFile_eq_some hrecv).2.1, Connection.flatten_incoming,
          Connection.flatten_incoming, List.map_drop.symm, ← hrecords]
      -- both have taken the same bytes off the stream; the handler replies or goes on to the disk
      rcases uploadPrologue_of_received lib href hready halloc hrecv with
        ⟨st, hpro⟩ | ⟨file, died, hpro, hends⟩
      · refine ⟨.dispatch after .success :: .allocate env.plaintextAlloc :: es ++ [.finish st],
          { c₃ with server := .loop, toClient := c₃.toClient ++ [st] }, ?_⟩
        rw [show pro = _ from hpro]
        refine ⟨?_, rfl, by simp [c₃, c₂, c₁], hrest⟩
        rw [Lts.run_append, hrun]
        simp [Lts.run, connectionLts, connectionStep, hup, Connection.finish, c₃, c₂, c₁]
      · refine ⟨_, c₃, hrun, ?_⟩
        rw [show pro = _ from hpro]
        exact ⟨(if_pos hends).symm, by simp [c₃, c₂, c₁], hrest⟩

end Handler

end FileExchange
