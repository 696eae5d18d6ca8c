import FileExchange.Connection

/-!
# Connection.Framing — requests stay apart

The server announces readiness before it allocates the buffer.  When the allocation fails it
goes back to the request loop, and the file that the client then sends is read as headers.

* `Framed`     : no byte of a file is taken for part of a header;
* `InStep`     : at each pair of places in the two programs, what is on its way;
* `framed_iff` : a connection stays framed if and only if no buffer is refused for a file that
  has bytes.
-/

namespace FileExchange

open Lib

/-! ## Framing -/

namespace Connection

/-- The bytes of a file that the client sends on the replies it has been sent so far. -/
def owed (c : Connection) : Bytes :=
  match c.client with
  | .idle => []
  | .request _ x => if x.isUpload && decide (c.toClient.head? = some .success) then x.file else []
  | .file rest => rest

/-- No byte of a file is in what the server takes for a header; and when it is back in the
request loop no byte of a file is on its way or still to be sent. -/
structure Framed (c : Connection) : Prop where
  parsed : ∀ raw, c.server = .dispatch raw → ∀ b ∈ raw, b.ofFile = false
  flight : c.server = .loop → ∀ b ∈ c.toServer.flatten, b.ofFile = false
  owed : c.server = .loop → c.owed = []

end Connection

/-- A buffer is granted, unless there is nothing to put into it. -/
def BufferGranted (c : Connection) (e : ConnectionEvent) : Prop :=
  ∀ granted filesize, e = .allocate granted → c.server = .allocating filesize →
    malloc granted (toSizeT filesize) = true ∨ filesize ≤ 0

/-! ## The header in front of other memory -/

section Header

variable {header after : Bytes}

/-- The command and the size of the file are within the header. -/
theorem ofBytes_append (after : Bytes) (h : header.length = requestHeaderSize) :
    (RequestHeader.ofBytes (header ++ after)).command = (RequestHeader.ofBytes header).command ∧
      (RequestHeader.ofBytes (header ++ after)).filesize =
        (RequestHeader.ofBytes header).filesize := by
  have hcommand : slice (header ++ after) 0 4 = slice header 0 4 :=
    slice_append (by rw [h]; decide)
  have hfilesize : slice (header ++ after) 264 8 = slice header 264 8 :=
    slice_append (by rw [h]; decide)
  simp [RequestHeader.ofBytes, hcommand, hfilesize]

end Header

theorem map_byte_headerBytes (bs : Bytes) : (headerBytes bs).map WireByte.byte = bs := by
  simp [headerBytes, Function.comp_def]

theorem ofFile_headerBytes {bs : Bytes} {b : WireByte} (h : b ∈ headerBytes bs) :
    b.ofFile = false := by
  rcases List.mem_map.1 h with ⟨_, _, rfl⟩
  rfl

theorem headerBytes_append (bs bs' : Bytes) :
    headerBytes (bs ++ bs') = headerBytes bs ++ headerBytes bs' :=
  List.map_append

theorem fileBytes_append (bs bs' : Bytes) :
    fileBytes (bs ++ bs') = fileBytes bs ++ fileBytes bs' :=
  List.map_append

/-- A refusal never reads as readiness. -/
theorem uploadRefusal_ne_success {crypto : FileCryptoCtx} {req : RequestHeader}
    {st : ResponseStatus} (h : uploadRefusal crypto req = some st) : st ≠ .success := by
  rintro rfl
  -- every refusal is `RESP_ERROR` or `RESP_PERMISSION_DENIED`
  unfold uploadRefusal at h
  split at h
  · cases h
  · split at h
    · cases h
    · split at h
      · cases h
      · split at h
        · cases h
        · split at h <;> cases h

/-! ## What is on its way -/

/-- The server is in the request loop or about to return to it. -/
def ServerPc.atRest (pc : ServerPc) : Prop :=
  pc = .loop ∨ pc = .returning

/-- The places of the two parties that occur together, and what is then on its way. -/
inductive InStep (c : Connection) : Prop
  -- between two requests
  | idle (client : c.client = .idle) (server : c.server.atRest)
      (flight : c.toServer.flatten = []) (replies : c.toClient = [])
  -- the header is on its way
  | requesting (x : Exchange) (sent rest : Bytes) (client : c.client = .request rest x)
      (server : c.server.atRest) (split : sent ++ rest = x.header)
      (flight : c.toServer.flatten = headerBytes sent) (replies : c.toClient = [])
  -- the server has read it
  | dispatching (x : Exchange) (client : c.client = .request [] x)
      (server : c.server = .dispatch (headerBytes x.header))
      (flight : c.toServer.flatten = []) (replies : c.toClient = [])
  -- it has been answered, and the client is going to send nothing
  | answered (x : Exchange) (st : ResponseStatus) (client : c.client = .request [] x)
      (server : c.server.atRest) (flight : c.toServer.flatten = [])
      (replies : c.toClient = [st]) (refused : x.isUpload = true → st ≠ .success)
  -- readiness is announced, and the client is going to send its file
  | ready (x : Exchange) (client : c.client = .request [] x) (upload : x.isUpload = true)
      (server : c.server.Expects x.file.length) (flight : c.toServer.flatten = [])
      (replies : c.toClient = [.success])
  -- an upload without bytes is over before the client has seen that it may send them
  | empty (x : Exchange) (st : ResponseStatus) (client : c.client = .request [] x)
      (upload : x.isUpload = true) (file : x.file = []) (server : c.server.atRest)
      (flight : c.toServer.flatten = []) (replies : c.toClient = [.success, st])
  -- the file is on its way
  | sending (sent rest : Bytes) (client : c.client = .file rest)
      (server : c.server.Expects (sent.length + rest.length))
      (flight : c.toServer.flatten = fileBytes sent) (replies : c.toClient = [])
  -- the upload is over
  | finished (st : ResponseStatus) (client : c.client = .file []) (server : c.server.atRest)
      (flight : c.toServer.flatten = []) (replies : c.toClient = [st])

theorem inStep_opened (script : List Exchange) : InStep (Connection.opened script) :=
  .idle rfl (Or.inl rfl) rfl rfl

section Steps

variable {crypto : FileCryptoCtx} {c c' : Connection}

theorem ServerPc.atRest.not_expects {pc : ServerPc} {n : Nat} (h : pc.atRest) :
    ¬ pc.Expects n := by
  rcases h with rfl | rfl <;> exact fun h => h

theorem ServerPc.atRest.ne_dispatch {pc : ServerPc} (h : pc.atRest) (raw : List WireByte) :
    pc ≠ .dispatch raw := by
  rcases h with rfl | rfl <;> simp

/-- In step means framed. -/
theorem InStep.framed (h : InStep c) : c.Framed := by
  cases h with
  | idle client server flight replies =>
      refine ⟨fun raw hraw => absurd hraw (server.ne_dispatch raw), fun _ => ?_, fun _ => ?_⟩
      · simp [flight]
      · simp [Connection.owed, client]
  | requesting x sent rest client server split flight replies =>
      refine ⟨fun raw hraw => absurd hraw (server.ne_dispatch raw), fun _ b hb => ?_, fun _ => ?_⟩
      · rw [flight] at hb
        exact ofFile_headerBytes hb
      · simp [Connection.owed, client, replies]
  | dispatching x client server flight replies =>
      refine ⟨fun raw hraw b hb => ?_, fun hloop => ?_, fun hloop => ?_⟩
      · cases server.symm.trans hraw
        exact ofFile_headerBytes hb
      · cases server.symm.trans hloop
      · cases server.symm.trans hloop
  | answered x st client server flight replies refused =>
      refine ⟨fun raw hraw => absurd hraw (server.ne_dispatch raw), fun _ => ?_, fun _ => ?_⟩
      · simp [flight]
      · simpa [Connection.owed, client, replies] using fun hup hst => absurd hst (refused hup)
  | ready x client upload server flight replies =>
      exact ⟨fun raw hraw => absurd hraw (server.ne_dispatch raw),
        fun hloop => absurd hloop server.ne_loop, fun hloop => absurd hloop server.ne_loop⟩
  | empty x st client upload file server flight replies =>
      refine ⟨fun raw hraw => absurd hraw (server.ne_dispatch raw), fun _ => ?_, fun _ => ?_⟩
      · simp [flight]
      · simp [Connection.owed, client, file]
  | sending sent rest client server flight replies =>
      exact ⟨fun raw hraw => absurd hraw (server.ne_dispatch raw),
        fun hloop => absurd hloop server.ne_loop, fun hloop => absurd hloop server.ne_loop⟩
  | finished st client server flight replies =>
      refine ⟨fun raw hraw => absurd hraw (server.ne_dispatch raw), fun _ => ?_, fun _ => ?_⟩
      · simp [flight]
      · simp [Connection.owed, client]

/-! ### The client -/

theorem InStep.next (h : InStep c) (hstep : c.next = some c') : InStep c' := by
  cases h with
  | idle client server flight replies =>
      cases hscript : c.script with
      | nil =>
          simp [Connection.next, client, hscript] at hstep
      | cons x script =>
          simp only [Connection.next, client, hscript, Option.some.injEq] at hstep
          subst hstep
          exact .requesting x [] x.header rfl server rfl flight replies
  -- elsewhere the client is not between two requests
  | requesting x sent rest client => simp [Connection.next, client] at hstep
  | dispatching x client => simp [Connection.next, client] at hstep
  | answered x st client => simp [Connection.next, client] at hstep
  | ready x client => simp [Connection.next, client] at hstep
  | empty x st client => simp [Connection.next, client] at hstep
  | sending sent rest client => simp [Connection.next, client] at hstep
  | finished st client => simp [Connection.next, client] at hstep

theorem InStep.write (h : InStep c) {k : Nat} (hstep : c.write k = some c') : InStep c' := by
  cases h with
  | requesting x sent rest client server split flight replies =>
      cases rest with
      | nil =>
          simp [Connection.write, client] at hstep
      | cons b rest =>
          simp only [Connection.write, client, Option.some.injEq] at hstep
          subst hstep
          refine .requesting x (sent ++ (b :: rest).take (k + 1)) _ rfl server ?_ ?_ replies
          · rw [List.append_assoc, List.take_append_drop, split]
          · rw [List.flatten_append, flight, headerBytes_append]
            simp
  | sending sent rest client server flight replies =>
      cases rest with
      | nil =>
          simp [Connection.write, client] at hstep
      | cons b rest =>
          simp only [Connection.write, client, Option.some.injEq] at hstep
          subst hstep
          refine .sending (sent ++ (b :: rest).take (k + 1)) _ rfl ?_ ?_ replies
          · have hsplit := congrArg List.length (List.take_append_drop (k + 1) (b :: rest))
            rw [List.length_append] at hsplit
            rw [List.length_append, Nat.add_assoc, hsplit]
            exact server
          · rw [List.flatten_append, flight, fileBytes_append]
            simp
  -- elsewhere the client has nothing to send
  | idle client => simp [Connection.write, client] at hstep
  | dispatching x client => simp [Connection.write, client] at hstep
  | answered x st client => simp [Connection.write, client] at hstep
  | ready x client => simp [Connection.write, client] at hstep
  | empty x st client => simp [Connection.write, client] at hstep
  | finished st client => simp [Connection.write, client] at hstep

theorem InStep.receive (h : InStep c) (hstep : c.receive = some c') : InStep c' := by
  cases h with
  | answered x st client server flight replies refused =>
      -- an upload is only answered so when it is refused, and other requests send no file
      have hsilent : (x.isUpload && decide (st = .success)) = false := by
        cases hup : x.isUpload with
        | false => rfl
        | true => simpa using refused hup
      simp only [Connection.receive, client, replies, hsilent, Bool.false_eq_true, if_false,
        Option.some.injEq] at hstep
      subst hstep
      exact .idle rfl server flight rfl
  | ready x client upload server flight replies =>
      simp only [Connection.receive, client, replies, upload, decide_true, Bool.and_self, if_true,
        Option.some.injEq] at hstep
      subst hstep
      exact .sending [] x.file rfl (by simpa using server) flight rfl
  | empty x st client upload file server flight replies =>
      simp only [Connection.receive, client, replies, upload, decide_true, Bool.and_self, if_true,
        Option.some.injEq] at hstep
      subst hstep
      exact .finished st (congrArg ClientPc.file file) server flight rfl
  | finished st client server flight replies =>
      simp only [Connection.receive, client, replies, Option.some.injEq] at hstep
      subst hstep
      exact .idle rfl server flight rfl
  -- elsewhere no reply is on its way
  | idle client server flight replies => simp [Connection.receive, client] at hstep
  | requesting x sent rest client server split flight replies =>
      cases rest <;> simp [Connection.receive, client, replies] at hstep
  | dispatching x client server flight replies =>
      simp [Connection.receive, client, replies] at hstep
  | sending sent rest client server flight replies =>
      cases rest <;> simp [Connection.receive, client, replies] at hstep

/-! ### The server -/

/-- At rest with nothing on its way the server does not read. -/
theorem read_of_atRest (hserver : c.server.atRest) (hflight : c.toServer.flatten = []) :
    c.read = none := by
  rcases hserver with hloop | hreturning
  · have hnone : sslRead requestHeaderSize c.toServer = none :=
      sslRead_none_of_flatten (by decide) hflight
    simp [Connection.read, hloop, hnone]
  · simp [Connection.read, hreturning]

theorem InStep.read (h : InStep c) (hstep : c.read = some c') : InStep c' := by
  cases h with
  | idle client server flight replies =>
      rw [read_of_atRest server flight] at hstep
      cases hstep
  | answered x st client server flight replies refused =>
      rw [read_of_atRest server flight] at hstep
      cases hstep
  | empty x st client upload file server flight replies =>
      rw [read_of_atRest server flight] at hstep
      cases hstep
  | finished st client server flight replies =>
      rw [read_of_atRest server flight] at hstep
      cases hstep
  | dispatching x client server flight replies =>
      simp [Connection.read, server] at hstep
  | requesting x sent rest client server split flight replies =>
      rcases server with hloop | hreturning
      swap
      · simp [Connection.read, hreturning] at hstep
      simp only [Connection.read, hloop] at hstep
      rcases Option.map_eq_some_iff.1 hstep with ⟨⟨bytes, left⟩, hread, hstep⟩
      rcases sslRead_eq_of_flatten (by decide) hread flight with ⟨_, _, hle, hbytes, hleft⟩
      dsimp only at hstep
      split at hstep
      · next hwhole =>
          -- a whole header: nothing of it is left to send
          subst hstep
          have hlen : (sent ++ rest).length = requestHeaderSize := by
            rw [split]
            exact x.headerSize
          rw [hwhole] at hle hbytes hleft
          simp only [headerBytes, List.length_map] at hle
          rw [List.length_append] at hlen
          have hrest : rest = [] := List.length_eq_zero_iff.1 (by omega)
          have hsent : sent = x.header := by
            rw [hrest, List.append_nil] at split
            exact split
          have hsize : (headerBytes x.header).length ≤ requestHeaderSize := by
            rw [headerBytes, List.length_map, x.headerSize]
          rw [hsent] at hbytes hleft
          rw [List.take_of_length_le hsize] at hbytes
          rw [List.drop_of_length_le hsize] at hleft
          subst hrest hbytes
          exact .dispatching x client rfl hleft replies
      · -- the loop ends
        subst hstep
        exact .requesting x sent rest client (Or.inl rfl) split flight replies
  | ready x client upload server flight replies =>
      cases hserver : c.server with
      | receiving remaining got =>
          rw [hserver] at server
          have hnone : sslRead (toRead remaining - got) c.toServer = none := by
            refine sslRead_none_of_flatten ?_ flight
            have hgot := server.2.1
            omega
          simp [Connection.read, hserver, hnone] at hstep
      | loop => exact absurd hserver server.ne_loop
      | dispatch raw => exact absurd hserver (server.ne_dispatch raw)
      | allocating filesize => simp [Connection.read, hserver] at hstep
      | finishing => simp [Connection.read, hserver] at hstep
      | returning => simp [Connection.read, hserver] at hstep
  | sending sent rest client server flight replies =>
      cases hserver : c.server with
      | receiving remaining got =>
          rw [hserver] at server
          have hgot := server.2.1
          simp only [Connection.read, hserver] at hstep
          rcases Option.map_eq_some_iff.1 hstep with ⟨⟨bytes, left⟩, hread, hstep⟩
          rcases sslRead_eq_of_flatten (by omega) hread flight with ⟨_, hmax, hle, _, hleft⟩
          subst hstep
          rw [fileBytes, List.length_map] at hle
          refine .sending (sent.drop bytes.length) rest client ?_ ?_ replies
          · have hcount : (sent.drop bytes.length).length + rest.length =
                sent.length + rest.length - bytes.length := by
              rw [List.length_drop]
              omega
            rw [hcount]
            exact expects_afterRead server hmax
          · rw [fileBytes, List.map_drop]
            exact hleft
      | loop => exact absurd hserver server.ne_loop
      | dispatch raw => exact absurd hserver (server.ne_dispatch raw)
      | allocating filesize => simp [Connection.read, hserver] at hstep
      | finishing => simp [Connection.read, hserver] at hstep
      | returning => simp [Connection.read, hserver] at hstep

theorem InStep.dispatch (h : InStep c) {after : Bytes} {st : ResponseStatus}
    (hstep : c.dispatch crypto after st = some c') : InStep c' := by
  -- the server has a header in only one of the phases
  have hphase : ∀ raw, c.server = .dispatch raw → ∃ x, c.client = .request [] x ∧
      raw = headerBytes x.header ∧ c.toServer.flatten = [] ∧ c.toClient = [] := by
    intro raw hraw
    cases h with
    | dispatching x client server flight replies =>
        cases server.symm.trans hraw
        exact ⟨x, client, rfl, flight, replies⟩
    | idle client server => exact absurd hraw (server.ne_dispatch raw)
    | requesting x sent rest client server => exact absurd hraw (server.ne_dispatch raw)
    | answered x st client server => exact absurd hraw (server.ne_dispatch raw)
    | ready x client upload server => exact absurd hraw (server.ne_dispatch raw)
    | sending sent rest client server => exact absurd hraw (server.ne_dispatch raw)
    | empty x st client upload file server => exact absurd hraw (server.ne_dispatch raw)
    | finished st client server => exact absurd hraw (server.ne_dispatch raw)
  cases hserver : c.server with
  | dispatch raw =>
      rcases hphase raw hserver with ⟨x, client, rfl, flight, replies⟩
      rcases ofBytes_append after x.headerSize with ⟨hcommand, hfilesize⟩
      simp only [Connection.dispatch, hserver, map_byte_headerBytes, hcommand, hfilesize] at hstep
      split at hstep
      · next hupload =>
          split at hstep
          · next refusal href =>
              cases hstep
              exact .answered x refusal client (Or.inl rfl) flight (by simp [replies])
                fun _ => uploadRefusal_ne_success href
          · cases hstep
            refine .ready x client (by simp [Exchange.isUpload, hupload]) ?_ flight
              (by simp [replies])
            exact x.fileSize hupload
      · next hother =>
          cases hstep
          refine .answered x st client (Or.inr rfl) flight (by simp [replies]) fun hup => ?_
          simp [Exchange.isUpload, hother] at hup
  | loop => simp [Connection.dispatch, hserver] at hstep
  | allocating filesize => simp [Connection.dispatch, hserver] at hstep
  | receiving remaining got => simp [Connection.dispatch, hserver] at hstep
  | finishing => simp [Connection.dispatch, hserver] at hstep
  | returning => simp [Connection.dispatch, hserver] at hstep

/-- While the server expects `n` bytes of a file, the client owes it those that are not on
their way. -/
theorem InStep.of_expects (h : InStep c) {n : Nat} (hserver : c.server.Expects n) :
    (∃ x, c.client = .request [] x ∧ x.isUpload = true ∧ n = x.file.length ∧
        c.toServer.flatten = [] ∧ c.toClient = [.success]) ∨
      (∃ sent rest, c.client = .file rest ∧ n = sent.length + rest.length ∧
        c.toServer.flatten = fileBytes sent ∧ c.toClient = []) := by
  have hunique : ∀ {m : Nat}, c.server.Expects m → n = m := by
    intro m hm
    cases hc : c.server with
    | allocating filesize =>
        rw [hc] at hserver hm
        exact hserver.trans hm.symm
    | receiving remaining got =>
        rw [hc] at hserver hm
        have hn := hserver.2.2
        have hm' := hm.2.2
        omega
    | finishing =>
        rw [hc] at hserver hm
        exact hserver.trans hm.symm
    | loop => exact absurd hc hserver.ne_loop
    | dispatch raw => exact absurd hc (hserver.ne_dispatch raw)
    | returning =>
        rw [hc] at hserver
        exact hserver.elim
  cases h with
  | ready x client upload server flight replies =>
      exact Or.inl ⟨x, client, upload, hunique server, flight, replies⟩
  | sending sent rest client server flight replies =>
      exact Or.inr ⟨sent, rest, client, hunique server, flight, replies⟩
  | dispatching x client server => exact absurd server (hserver.ne_dispatch _)
  | idle client server => exact absurd hserver server.not_expects
  | requesting x sent rest client server => exact absurd hserver server.not_expects
  | answered x st client server => exact absurd hserver server.not_expects
  | empty x st client upload file server => exact absurd hserver server.not_expects
  | finished st client server => exact absurd hserver server.not_expects

/-- A server that expects what it did before keeps step. -/
theorem InStep.of_expects_same (h : InStep c) {n : Nat} {pc : ServerPc}
    (hserver : c.server.Expects n) (hpc : pc.Expects n) : InStep { c with server := pc } := by
  rcases h.of_expects hserver with ⟨x, client, upload, rfl, flight, replies⟩ |
    ⟨sent, rest, client, rfl, flight, replies⟩
  · exact .ready x client upload hpc flight replies
  · exact .sending sent rest client hpc flight replies

/-- A server that expects nothing any more may reply and go back. -/
theorem InStep.of_expects_zero (h : InStep c) (hserver : c.server.Expects 0)
    (st : ResponseStatus) :
    InStep { c with server := .loop, toClient := c.toClient ++ [st] } := by
  -- the client owes nothing: its file is empty, or completely read
  rcases h.of_expects hserver with ⟨x, client, upload, hn, flight, replies⟩ |
    ⟨sent, rest, client, hn, flight, replies⟩
  · have hfile : x.file = [] := List.length_eq_zero_iff.1 hn.symm
    exact .empty x st client upload hfile (Or.inl rfl) flight (by simp [replies])
  · have hsent : sent = [] := List.length_eq_zero_iff.1 (by omega)
    have hrest : rest = [] := List.length_eq_zero_iff.1 (by omega)
    subst hsent hrest
    exact .finished st client (Or.inl rfl) flight (by simp [replies])

theorem InStep.allocate (h : InStep c) {granted : Bool}
    (hgranted : BufferGranted c (.allocate granted)) (hstep : c.allocate granted = some c') :
    InStep c' := by
  cases hserver : c.server with
  | allocating filesize =>
      have hexpects : c.server.Expects filesize.toNat := by
        rw [hserver]
        rfl
      simp only [Connection.allocate, hserver] at hstep
      split at hstep
      · -- the buffer is there
        cases hstep
        apply h.of_expects_same hexpects
        split
        · next hpos =>
            exact ⟨hpos, (toRead_bounds hpos).1, by omega⟩
        · next hpos =>
            have hzero : filesize.toNat = 0 := by omega
            exact hzero
      · next hnull =>
          -- no buffer, but no bytes either
          cases hstep
          have hzero : filesize.toNat = 0 := by
            rcases hgranted granted filesize rfl hserver with hmalloc | hneg
            · exact absurd hmalloc hnull
            · omega
          rw [hzero] at hexpects
          exact h.of_expects_zero hexpects .error
  | loop => simp [Connection.allocate, hserver] at hstep
  | dispatch raw => simp [Connection.allocate, hserver] at hstep
  | receiving remaining got => simp [Connection.allocate, hserver] at hstep
  | finishing => simp [Connection.allocate, hserver] at hstep
  | returning => simp [Connection.allocate, hserver] at hstep

theorem InStep.finish (h : InStep c) {st : ResponseStatus} (hstep : c.finish st = some c') :
    InStep c' := by
  cases hserver : c.server with
  | finishing =>
      -- the receive loop is over, so no byte of the file is left
      have hexpects : c.server.Expects 0 := by
        rw [hserver]
        rfl
      simp only [Connection.finish, hserver] at hstep
      cases hstep
      exact h.of_expects_zero hexpects st
  | loop => simp [Connection.finish, hserver] at hstep
  | dispatch raw => simp [Connection.finish, hserver] at hstep
  | allocating filesize => simp [Connection.finish, hserver] at hstep
  | receiving remaining got => simp [Connection.finish, hserver] at hstep
  | returning => simp [Connection.finish, hserver] at hstep

theorem InStep.back (h : InStep c) (hstep : c.back = some c') : InStep c' := by
  cases hserver : c.server with
  | returning =>
      simp only [Connection.back, hserver] at hstep
      cases hstep
      cases h with
      | idle client server flight replies => exact .idle client (Or.inl rfl) flight replies
      | requesting x sent rest client server split flight replies =>
          exact .requesting x sent rest client (Or.inl rfl) split flight replies
      | answered x st client server flight replies refused =>
          exact .answered x st client (Or.inl rfl) flight replies refused
      | empty x st client upload file server flight replies =>
          exact .empty x st client upload file (Or.inl rfl) flight replies
      | finished st client server flight replies =>
          exact .finished st client (Or.inl rfl) flight replies
      | dispatching x client server => cases hserver.symm.trans server
      | ready x client upload server =>
          rw [hserver] at server
          exact server.elim
      | sending sent rest client server =>
          rw [hserver] at server
          exact server.elim
  | loop => simp [Connection.back, hserver] at hstep
  | dispatch raw => simp [Connection.back, hserver] at hstep
  | allocating filesize => simp [Connection.back, hserver] at hstep
  | receiving remaining got => simp [Connection.back, hserver] at hstep
  | finishing => simp [Connection.back, hserver] at hstep

/-! ### Both -/

theorem connectionStep_of_up {e : ConnectionEvent}
    (hstep : connectionStep crypto c e = some c') : c.up = true := by
  by_contra hup
  simp [connectionStep, hup] at hstep

/-- Every step keeps the two parties in step, as long as buffers are granted. -/
theorem InStep.step (h : InStep c) {e : ConnectionEvent} (hgranted : BufferGranted c e)
    (hstep : connectionStep crypto c e = some c') : InStep c' := by
  have hup := connectionStep_of_up hstep
  simp only [connectionStep, hup, Bool.not_true, Bool.false_eq_true, if_false] at hstep
  cases e with
  | next => exact h.next hstep
  | write k => exact h.write hstep
  | receive => exact h.receive hstep
  | read => exact h.read hstep
  | dispatch after st => exact h.dispatch hstep
  | allocate granted => exact h.allocate hgranted hstep
  | finish st => exact h.finish hstep
  | back => exact h.back hstep
  | close =>
      cases hstep
      cases h with
      | idle client server flight replies => exact .idle client server flight replies
      | requesting x sent rest client server split flight replies =>
          exact .requesting x sent rest client server split flight replies
      | dispatching x client server flight replies =>
          exact .dispatching x client server flight replies
      | answered x st client server flight replies refused =>
          exact .answered x st client server flight replies refused
      | ready x client upload server flight replies =>
          exact .ready x client upload server flight replies
      | empty x st client upload file server flight replies =>
          exact .empty x st client upload file server flight replies
      | sending sent rest client server flight replies =>
          exact .sending sent rest client server flight replies
      | finished st client server flight replies => exact .finished st client server flight replies

/-- A refused buffer leaves the bytes of the file to the request loop. -/
theorem not_framed_of_refused (h : InStep c) {e : ConnectionEvent}
    (hrefused : ¬ BufferGranted c e) (hstep : connectionStep crypto c e = some c') :
    ¬ c'.Framed := by
  simp only [BufferGranted, not_forall, not_or] at hrefused
  rcases hrefused with ⟨granted, filesize, rfl, hserver, hnull, hpos⟩
  have hup := connectionStep_of_up hstep
  have hexpects : c.server.Expects filesize.toNat := by
    rw [hserver]
    rfl
  simp only [connectionStep, hup, Connection.allocate, hserver, hnull, Bool.not_true,
    Bool.false_eq_true, if_false] at hstep
  cases hstep
  intro hframed
  -- the file has bytes, and they are still with the client or on their way
  rcases h.of_expects hexpects with ⟨x, client, upload, hn, flight, replies⟩ |
    ⟨sent, rest, client, hn, flight, replies⟩
  · -- the client has not yet read that it may send the file
    have howed := hframed.owed rfl
    have hfile : x.file = [] := by
      simpa [Connection.owed, client, upload, replies] using howed
    rw [hfile, List.length_nil] at hn
    omega
  · -- it is sending it, or has sent it
    have howed := hframed.owed rfl
    have hrest : rest = [] := by
      simpa [Connection.owed, client] using howed
    have hsent : sent = [] := by
      by_contra hne
      rcases List.exists_mem_of_ne_nil sent hne with ⟨b, hb⟩
      have hflight := hframed.flight rfl { byte := b, ofFile := true }
      have hmem : { byte := b, ofFile := true } ∈ c.toServer.flatten := by
        rw [flight]
        exact List.mem_map.2 ⟨b, hb, rfl⟩
      exact absurd (hflight hmem) (by simp)
    rw [hsent, hrest, List.length_nil] at hn
    omega

end Steps

/-- In every run of a client and its handler thread, whatever the script, the headers and the
order of their steps, no byte of a file is taken for part of a header if and only if no buffer
is refused for a file that has bytes. -/
theorem framed_iff (crypto : FileCryptoCtx) (script : List Exchange)
    (es : List ConnectionEvent) :
    (connectionLts crypto).Always Connection.Framed (Connection.opened script) es ↔
      (connectionLts crypto).EachStep BufferGranted (Connection.opened script) es :=
  (connectionLts crypto).always_iff_eachStep InStep (fun _ h => h.framed)
    (fun _ _ _ h hgranted hstep => h.step hgranted hstep)
    (fun _ _ _ h hrefused hstep => not_framed_of_refused h hrefused hstep)
    (inStep_opened script)

/-- The header of an upload of 384 bytes as "a". -/
def sampleHeader : Bytes :=
  List.replicate 4 0 ++ ascii "a" ++ List.replicate 259 0 ++ [128, 1] ++ List.replicate 118 0

/-- An upload of 384 bytes as "a". -/
def sampleExchange : Exchange where
  header := sampleHeader
  file := List.replicate 384 65
  headerSize := by decide +kernel
  fileSize := fun _ => by decide +kernel

/-- The buffer is refused after readiness has been announced: the client sends its file, and
the server takes it for its next request. -/
theorem file_parsed_as_header :
    let crypto : FileCryptoCtx := { key := sampleKey, initialized := true }
    let es : List ConnectionEvent :=
      [.next, .write 383, .read, .dispatch [] .success, .allocate false, .receive, .write 383,
       .read]
    (((connectionLts crypto).run (Connection.opened [sampleExchange]) es).map fun c =>
        (c.up, c.server)) = some (true, .dispatch (fileBytes sampleExchange.file)) ∧
      ¬ (connectionLts crypto).Always Connection.Framed (Connection.opened [sampleExchange])
        es := by
  intro crypto es
  have hrun : (((connectionLts crypto).run (Connection.opened [sampleExchange]) es).map fun c =>
      (c.up, c.server)) = some (true, .dispatch (fileBytes sampleExchange.file)) := by
    decide +kernel
  refine ⟨hrun, fun halways => ?_⟩
  rcases Option.map_eq_some_iff.1 hrun with ⟨c, hc, hserver⟩
  have hframed := (connectionLts crypto).always_iff_forall_initial.1 halways es List.prefix_rfl c hc
  have hparsed := hframed.parsed _ (Prod.mk.inj hserver).2 { byte := 65, ofFile := true }
  have hmem : ({ byte := 65, ofFile := true } : WireByte) ∈ fileBytes sampleExchange.file := by
    decide +kernel
  exact absurd (hparsed hmem) (by simp)

end FileExchange
