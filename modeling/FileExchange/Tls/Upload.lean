import FileExchange.Tls
import FileExchange.Tls.Transfer

/-!
# Tls.Upload — a file sent by `upload_file_ssl` and received by `handle_upload_request`

The server reads chunks of up to `BUFFER_SIZE` bytes into `plaintext`, each with as many calls of
`SSL_read` as the records make necessary; the client sends the chunks that `fread` gives it.

* `Server.receiveUpload`   : the receive loop, with every store into the buffer;
* `Filled`                 : how much of the stream has arrived, the invariant of both its loops;
* `Client.sendFile`        : the send loop;
* `receiveUpload_delivers` : what has arrived when the receive loop ends.
-/

namespace FileExchange
namespace Transfer

open Lib

/-! ## The receive loop -/

/-- The memory at `plaintext`, the records still to come, and what `SSL_read` has put where. -/
structure Arrival where
  mem : Bytes
  records : List Bytes
  stores : List (Memory.Store UInt8)

namespace Server

/-- The bytes that `SSL_read` gets when it is given `len - total`, converted to `int`. -/
def readNext (len total : Nat) (s : Arrival) : Option (Bytes × List Bytes) :=
  sslRead (toInt (toSizeT (len - total))).toNat s.records

/-- `SSL_read(ssl, (char*)buffer + total, len - total)`. -/
def readResult (len total : Nat) (s : Arrival) : Int :=
  match readNext len total s with
  | none => -1
  | some r => r.1.length

/-- The memory after that call, where the buffer is at `ptr`. -/
def readStore (ptr len total : Nat) (s : Arrival) : Arrival :=
  match readNext len total s with
  | none => s
  | some r =>
      { mem := Memory.store s.mem { addr := ptr + total, data := r.1 }
        records := r.2
        stores := s.stores ++ [{ addr := ptr + total, data := r.1 }] }

/-- `ssl_recv_all(ssl, ptr, len)`. -/
def recvInto (ptr len : Nat) (s : Arrival) (fuel : Nat) : Option (Int × Arrival) :=
  (transferLoop (fun _ total s => readResult len total s)
    (fun total _ s => readStore ptr len total s) len fuel 0 0 s).map fun e =>
      (if e.completed then toInt e.done else -1, e.state)

/-- The variables of the receive loop: `ptr - plaintext`, `remaining`, and what has arrived. -/
structure ReceiveState where
  ptr : Nat
  remaining : Int
  arrival : Arrival

/-- `size_t to_read = (remaining < BUFFER_SIZE) ? remaining : BUFFER_SIZE`. -/
def ReceiveState.toRead (s : ReceiveState) : Nat :=
  toSizeT (if s.remaining < bufferSize then s.remaining else bufferSize)

/-- How the loop ended, its variables whenever the condition of the `while` was evaluated, and
what had arrived. -/
structure ReceiveEnd where
  completed : Bool
  heads : List ReceiveState
  arrival : Arrival

/-- `while (remaining > 0)`; the subtraction from `remaining` is one of unsigned numbers. -/
def receiveRounds : Nat → ReceiveState → Option ReceiveEnd
  | 0, _ => none
  | fuel + 1, s =>
      if s.remaining > 0 then
        (recvInto s.ptr s.toRead s.arrival fuel).bind fun r =>
          if r.1 ≠ toInt64 s.toRead then
            some { completed := false, heads := [s], arrival := r.2 }
          else
            (receiveRounds fuel
              { ptr := s.ptr + s.toRead
                remaining := toInt64 (toSizeT (toSizeT s.remaining - s.toRead))
                arrival := r.2 }).map fun e => { e with heads := s :: e.heads }
      else some { completed := true, heads := [s], arrival := s.arrival }

/-- The receive loop of `handle_upload_request`, with the block that `malloc` has returned. -/
def receiveUpload (filesize : Int64) (plaintext : Bytes) (records : List Bytes) (fuel : Nat) :
    Option ReceiveEnd :=
  receiveRounds fuel
    { ptr := 0, remaining := filesize.toInt
      arrival := { mem := plaintext, records := records, stores := [] } }

/-- The sizes that were asked for in its rounds. -/
def ReceiveEnd.chunks (e : ReceiveEnd) : List Nat :=
  (e.heads.filter fun s => s.remaining > 0).map ReceiveState.toRead

end Server

/-! ## The send loop -/

namespace Client

/-- How the send loop ended, the values of `bytes_read` in its rounds, `total_sent`, and what was
written to the connection. -/
structure FileSent where
  completed : Bool
  chunks : List Nat
  totalSent : Int
  stream : Bytes
  deriving DecidableEq

/-- `while ((bytes_read = fread(buffer, 1, BUFFER_SIZE, fp)) > 0)`, where `rest` of the file has
not been read and `k` rounds have been done. -/
def sendRounds (writes : Nat → Schedule) : Nat → Nat → Bytes → Int → Option FileSent
  | 0, _, _, _ => none
  | fuel + 1, k, rest, totalSent =>
      let buffer := rest.take bufferSize
      if 0 < buffer.length then
        (sslSendAll (writes k) buffer fuel).bind fun sent =>
          if sent.code = -1 then
            some { completed := false, chunks := [buffer.length], totalSent := totalSent
                   stream := sent.stream }
          else
            (sendRounds writes fuel (k + 1) (rest.drop bufferSize)
              (toInt64 (totalSent + buffer.length))).map fun e =>
                { e with chunks := buffer.length :: e.chunks, stream := sent.stream ++ e.stream }
      else some { completed := true, chunks := [], totalSent := totalSent, stream := [] }

/-- The send loop of `upload_file_ssl` over a file that can be read. -/
def sendFile (writes : Nat → Schedule) (file : Bytes) (fuel : Nat) : Option FileSent :=
  sendRounds writes fuel 0 file 0

end Client

/-! ## Chunks -/

/-- Full buffers, and a last one that is not full unless they come out even. -/
def chunkSizes (n : Nat) : List Nat :=
  List.replicate (n / bufferSize) bufferSize ++
    if n % bufferSize = 0 then [] else [n % bufferSize]

theorem chunkSizes_of_pos {n : Nat} (h : 0 < n) :
    chunkSizes n = min n bufferSize :: chunkSizes (n - min n bufferSize) := by
  unfold chunkSizes
  by_cases hlt : n < bufferSize
  · rw [min_eq_left hlt.le, Nat.sub_self, Nat.div_eq_of_lt hlt, Nat.mod_eq_of_lt hlt,
      if_neg (Nat.ne_of_gt h)]
    rfl
  · have hle : bufferSize ≤ n := Nat.le_of_not_lt hlt
    have hdiv : n / bufferSize = (n - bufferSize) / bufferSize + 1 :=
      Nat.div_eq_sub_div (by decide) hle
    rw [min_eq_right hle, hdiv, Nat.mod_eq_sub_mod hle, List.replicate_succ, List.cons_append]

/-! ## What has arrived -/

/-- Of the stream, `filled` bytes are in front in a block of `size` bytes, the others are still to
come, and all stores lay in the block. -/
structure Filled (size : Nat) (stream : Bytes) (filled : Nat) (s : Arrival) : Prop where
  le_size : filled ≤ size
  length_mem : s.mem.length = size
  content : Memory.load s.mem 0 filled ++ s.records.flatten = stream
  fit : Memory.Fit s.stores size

namespace Filled

variable {size filled : Nat} {stream : Bytes} {s : Arrival}

theorem length_load (h : Filled size stream filled s) :
    (Memory.load s.mem 0 filled).length = filled := by
  rw [Memory.load, List.drop_zero, List.length_take, h.length_mem]
  exact min_eq_left h.le_size

/-- What was read is stored behind what has arrived. -/
theorem store (h : Filled size stream filled s) {bytes : Bytes} {rest : List Bytes}
    (hrest : s.records.flatten = bytes ++ rest.flatten) (hroom : filled + bytes.length ≤ size) :
    Filled size stream (filled + bytes.length)
      { mem := Memory.store s.mem { addr := filled, data := bytes }
        records := rest
        stores := s.stores ++ [{ addr := filled, data := bytes }] } := by
  have hstop : (Memory.Store.mk filled bytes).stop ≤ s.mem.length := by
    rw [h.length_mem]
    exact hroom
  refine ⟨hroom, (Memory.length_store hstop).trans h.length_mem, ?_, ?_⟩
  · calc
      Memory.load (Memory.store s.mem { addr := filled, data := bytes }) 0
            (filled + bytes.length) ++ rest.flatten
          = Memory.load s.mem 0 filled ++ bytes ++ rest.flatten := by
            have hself := Memory.load_store_self hstop
            rw [Memory.load_add, Memory.load_store_of_disjoint hstop (Or.inl (by simp)),
              Nat.zero_add]
            exact congrArg (fun l => _ ++ l ++ _) hself
      _ = stream := by
            rw [List.append_assoc, ← hrest, h.content]
  · exact Memory.fit_append.2 ⟨h.fit, Memory.fit_cons.2 ⟨hroom, fun _ hs => by cases hs⟩⟩

/-- The whole block is filled with the front of the stream. -/
theorem mem_eq (h : Filled size stream size s) :
    s.mem = stream.take size ∧ s.records.flatten = stream.drop size ∧ size ≤ stream.length := by
  have hload : Memory.load s.mem 0 size = s.mem := by
    rw [Memory.load, List.drop_zero, ← h.length_mem, List.take_length]
  have hcontent := h.content
  rw [hload] at hcontent
  refine ⟨?_, ?_, ?_⟩
  · rw [← hcontent, List.take_left' h.length_mem]
  · rw [← hcontent, List.drop_left' h.length_mem]
  · rw [← hcontent, List.length_append, h.length_mem]
    exact Nat.le_add_right _ _

/-- Nothing is to come beyond what has arrived. -/
theorem length_stream (h : Filled size stream filled s) (hended : s.records.flatten = []) :
    stream.length = filled := by
  rw [← h.content, hended, List.append_nil, h.length_load]

end Filled

/-! ## One call of `ssl_recv_all` -/

namespace Server

section Call

variable {len total : Nat} {s : Arrival}

/-- A call that fails has met the end of the stream. -/
theorem flatten_of_readResult_nonpos (hlen : len < 2 ^ 31) (htotal : total < len)
    (h : readResult len total s ≤ 0) : s.records.flatten = [] := by
  unfold readResult at h
  split at h
  · next hnone => exact sslRead_eq_none hnone
  · next r hsome =>
      rw [readNext, toInt_left hlen htotal, Int.toNat_natCast] at hsome
      rcases sslRead_eq_some (Nat.sub_pos_of_lt htotal) hsome with ⟨_, hpos, _⟩
      omega

theorem readResult_le (hlen : len < 2 ^ 31) (htotal : total < len) :
    readResult len total s ≤ (len - total : Nat) := by
  unfold readResult
  split
  · omega
  · next r hsome =>
      rw [readNext, toInt_left hlen htotal, Int.toNat_natCast] at hsome
      rcases sslRead_eq_some (Nat.sub_pos_of_lt htotal) hsome with ⟨_, _, hle⟩
      exact Int.ofNat_le.2 hle

/-- A call that succeeds fills the block further. -/
theorem filled_readStore {size ptr : Nat} {stream : Bytes} (hlen : len < 2 ^ 31)
    (htotal : total < len) (hroom : ptr + len ≤ size)
    (h : Filled size stream (ptr + total) s) (hpos : 0 < readResult len total s) :
    Filled size stream (ptr + (total + (readResult len total s).toNat))
      (readStore ptr len total s) := by
  have hle := @readResult_le _ _ s hlen htotal
  unfold readResult readStore at *
  cases hnext : readNext len total s with
  | none =>
      rw [hnext] at hpos
      exact absurd hpos (by decide)
  | some r =>
      rw [hnext] at hle
      have hread := hnext
      rw [readNext, toInt_left hlen htotal, Int.toNat_natCast] at hread
      rcases sslRead_eq_some (Nat.sub_pos_of_lt htotal) hread with ⟨hrest, _, _⟩
      dsimp only at hle ⊢
      rw [Int.toNat_natCast, ← Nat.add_assoc]
      exact h.store hrest (by omega)

end Call

/-- `ssl_recv_all` ends; it fills the block further, by `len` bytes unless the stream ends. -/
theorem recvInto_spec {size ptr len : Nat} {stream : Bytes} {s : Arrival} (hlen : len < 2 ^ 31)
    (hroom : ptr + len ≤ size) (h : Filled size stream ptr s) :
    ∃ code s', (∀ fuel, len < fuel → recvInto ptr len s fuel = some (code, s')) ∧
      ((code = len ∧ Filled size stream (ptr + len) s') ∨
        (code = -1 ∧ ∃ done < len, Filled size stream (ptr + done) s' ∧
          s'.records.flatten = [])) := by
  rcases transferLoop_spec (fun _ total s => readResult len total s)
    (fun total _ s => readStore ptr len total s) hlen
    (fun total s => Filled size stream (ptr + total) s)
    (fun _ _ _ htotal => readResult_le hlen htotal)
    (fun _ _ _ htotal hfilled hpos => filled_readStore hlen htotal hroom hfilled hpos)
    len 0 0 s (Nat.zero_add _) h with ⟨e, hrun, hfilled, haccounts, hstop⟩
  refine ⟨_, e.state, fun fuel hfuel => by rw [recvInto, hrun fuel hfuel, Option.map_some], ?_⟩
  cases hcompleted : e.completed with
  | true =>
      have hdone := haccounts.done_eq hcompleted
      rw [hdone] at hfilled ⊢
      have hcode : toInt len = len := toInt_of_lt (by omega) (by omega)
      exact Or.inl ⟨by rw [if_pos rfl, hcode], hfilled⟩
  | false =>
      have hlt := haccounts.done_lt hcompleted
      rcases hstop hcompleted with ⟨_, hcall⟩
      exact Or.inr ⟨rfl, e.done, hlt, hfilled, flatten_of_readResult_nonpos hlen hlt hcall⟩

/-! ## The rounds -/

theorem toRead_eq {s : ReceiveState} (hpos : 0 < s.remaining) (hlt : s.remaining < 2 ^ 63) :
    0 < s.toRead ∧ s.toRead < 2 ^ 31 ∧ (s.toRead : Int) = min s.remaining bufferSize := by
  unfold ReceiveState.toRead bufferSize
  split
  · rw [toSizeT_of_lt hpos.le hlt]
    omega
  · rw [toSizeT_of_lt (by decide) (by decide)]
    omega

/-- The subtraction of the unsigned numbers is that of the signed ones. -/
theorem remaining_sub {remaining : Int} {k : Nat} (hle : (k : Int) ≤ remaining)
    (hlt : remaining < 2 ^ 63) :
    toInt64 (toSizeT (toSizeT remaining - k)) = remaining - k := by
  have hnat : ((toSizeT remaining : Nat) : Int) = remaining := by
    rw [toSizeT_of_lt (by omega) hlt]
    omega
  rw [hnat, toSizeT_of_lt (by omega) (by omega), Int.toNat_of_nonneg (by omega)]
  exact toInt64_of_lt (by omega) (by omega)

/-- Pointer and counter belong together, and what has arrived ends at the pointer. -/
structure InStep (filesize : Nat) (stream : Bytes) (s : ReceiveState) : Prop where
  sum : (s.ptr : Int) + s.remaining = filesize
  nonneg : 0 ≤ s.remaining
  filled : Filled filesize stream s.ptr s.arrival

/-- What the loop from `s` on has done when it ends. -/
structure Delivers (filesize : Nat) (stream : Bytes) (s : ReceiveState) (e : ReceiveEnd) :
    Prop where
  inStep : ∀ h ∈ e.heads, InStep filesize stream h
  le_first : ∀ h ∈ e.heads, h.remaining ≤ s.remaining
  decreasing : (e.heads.map ReceiveState.remaining).Pairwise (· > ·)
  outcome :
    (e.completed = true ∧ Filled filesize stream filesize e.arrival ∧
      (e.heads.map ReceiveState.remaining).getLast? = some 0 ∧
      e.chunks = chunkSizes s.remaining.toNat) ∨
    (e.completed = false ∧ ∃ done < filesize, Filled filesize stream done e.arrival ∧
      e.arrival.records.flatten = [])

section Rounds

variable {filesize : Nat} {stream : Bytes} {s s' : ReceiveState} {e : ReceiveEnd}

theorem InStep.next (h : InStep filesize stream s) {k : Nat} (hle : (k : Int) ≤ s.remaining)
    {arrival : Arrival} (harrival : Filled filesize stream (s.ptr + k) arrival) :
    InStep filesize stream
      { ptr := s.ptr + k, remaining := s.remaining - k, arrival := arrival } := by
  refine ⟨?_, Int.sub_nonneg.2 hle, harrival⟩
  have hsum := h.sum
  dsimp only
  omega

/-- The loop ends at once when nothing remains. -/
theorem delivers_of_zero (h : InStep filesize stream s) (hzero : s.remaining = 0) :
    Delivers filesize stream s { completed := true, heads := [s], arrival := s.arrival } := by
  have hptr : s.ptr = filesize := by
    have hsum := h.sum
    omega
  refine ⟨?_, ?_, List.pairwise_singleton _ _, Or.inl ⟨rfl, hptr ▸ h.filled, ?_, ?_⟩⟩
  · simpa using h
  · simp
  · simp [hzero]
  · rw [hzero]
    simp [ReceiveEnd.chunks, hzero, chunkSizes]

/-- A round is followed by the others. -/
theorem Delivers.cons (h : Delivers filesize stream s' e) (hs : InStep filesize stream s)
    (hpos : 0 < s.remaining) (hread : (s.toRead : Int) = min s.remaining bufferSize)
    (hnext : s'.remaining = s.remaining - s.toRead) (hone : 0 < s.toRead) :
    Delivers filesize stream s { e with heads := s :: e.heads } := by
  have hlt : s'.remaining < s.remaining := by omega
  refine ⟨List.forall_mem_cons.2 ⟨hs, h.inStep⟩, ?_, ?_, ?_⟩
  · exact List.forall_mem_cons.2 ⟨le_rfl, fun x hx => (h.le_first x hx).trans hlt.le⟩
  · refine List.pairwise_cons.2 ⟨?_, h.decreasing⟩
    intro r hr
    rcases List.mem_map.1 hr with ⟨x, hx, rfl⟩
    exact (h.le_first x hx).trans_lt hlt
  · refine h.outcome.imp ?_ id
    rintro ⟨hcompleted, hfilled, hlast, hchunks⟩
    refine ⟨hcompleted, hfilled, ?_, ?_⟩
    · rw [List.map_cons, List.getLast?_cons, hlast, Option.getD_some]
    · have hchunk : s.toRead = min s.remaining.toNat bufferSize := by omega
      have hrest : s.remaining.toNat - min s.remaining.toNat bufferSize = s'.remaining.toNat := by
        omega
      rw [chunkSizes_of_pos (by omega), hrest, ← hchunks, ← hchunk, ReceiveEnd.chunks,
        List.filter_cons_of_pos (by simpa using hpos), List.map_cons, ReceiveEnd.chunks]

/-- A round that aborts is the last one. -/
theorem delivers_of_abort (hs : InStep filesize stream s) {done : Nat} {arrival : Arrival}
    (hdone : done < filesize) (harrival : Filled filesize stream done arrival)
    (hended : arrival.records.flatten = []) :
    Delivers filesize stream s { completed := false, heads := [s], arrival := arrival } := by
  refine ⟨?_, ?_, List.pairwise_singleton _ _, Or.inr ⟨rfl, done, hdone, harrival, hended⟩⟩
  · simpa using hs
  · simp

/-- The loop ends, and every round of it is in step with what has arrived. -/
theorem receiveRounds_delivers (hsize : (filesize : Int) < 2 ^ 63) :
    ∀ {left : Nat} {s : ReceiveState}, s.remaining = left → InStep filesize stream s →
      ∃ e, (∀ fuel, left + 1 < fuel → receiveRounds fuel s = some e) ∧
        Delivers filesize stream s e := by
  intro left
  induction left using Nat.strong_induction_on with
  | _ left ih =>
      intro s hleft hs
      by_cases hpos : s.remaining > 0
      · have hsum := hs.sum
        rcases toRead_eq hpos (by omega) with ⟨hone, hint, hread⟩
        have hle : (s.toRead : Int) ≤ s.remaining := by omega
        have hsize_t : toInt64 s.toRead = s.toRead := toInt64_of_lt (by omega) (by omega)
        rcases recvInto_spec hint (by omega) hs.filled with ⟨code, arrival, hrecv, hend⟩
        rcases hend with ⟨hcode, harrival⟩ | ⟨hcode, done, hdone, harrival, hended⟩
        · -- the chunk has arrived, and less remains
          rcases ih (left - s.toRead) (by omega) (by dsimp only; omega)
            (hs.next hle harrival) with ⟨e, hrun, hdelivers⟩
          refine ⟨{ e with heads := s :: e.heads }, fun fuel hfuel => ?_,
            hdelivers.cons hs hpos hread rfl hone⟩
          cases fuel with
          | zero => omega
          | succ fuel =>
              rw [receiveRounds, if_pos hpos, hrecv fuel (by omega), Option.bind_some,
                if_neg (by rw [hsize_t, hcode]; simp), remaining_sub hle (by omega),
                hrun fuel (by omega), Option.map_some]
        · refine ⟨_, fun fuel hfuel => ?_, delivers_of_abort hs (by omega) harrival hended⟩
          cases fuel with
          | zero => omega
          | succ fuel =>
              rw [receiveRounds, if_pos hpos, hrecv fuel (by omega), Option.bind_some,
                if_pos (by rw [hsize_t, hcode]; omega)]
      · have hnonneg := hs.nonneg
        refine ⟨_, fun fuel hfuel => ?_, delivers_of_zero hs (by omega)⟩
        cases fuel with
        | zero => omega
        | succ fuel => rw [receiveRounds, if_neg hpos]

theorem Delivers.fit (h : Delivers filesize stream s e) :
    Memory.Fit e.arrival.stores filesize := by
  rcases h.outcome with ⟨_, hfilled, _⟩ | ⟨_, _, _, hfilled, _⟩
  · exact hfilled.fit
  · exact hfilled.fit

theorem Delivers.of_completed (h : Delivers filesize stream s e) (hcompleted : e.completed = true) :
    Filled filesize stream filesize e.arrival ∧
      (e.heads.map ReceiveState.remaining).getLast? = some 0 ∧
        e.chunks = chunkSizes s.remaining.toNat := by
  rcases h.outcome with ⟨_, hend⟩ | ⟨hfailed, _⟩
  · exact hend
  · simp [hcompleted] at hfailed

/-- The loop is aborted when the stream ends early. -/
theorem Delivers.of_failed (h : Delivers filesize stream s e) (hfailed : e.completed = false) :
    stream.length < filesize ∧ e.arrival.records.flatten = [] := by
  rcases h.outcome with ⟨hcompleted, _⟩ | ⟨_, done, hdone, hfilled, hended⟩
  · simp [hfailed] at hcompleted
  · exact ⟨(hfilled.length_stream hended).trans_lt hdone, hended⟩

theorem Delivers.completed_iff (h : Delivers filesize stream s e) :
    e.completed = true ↔ filesize ≤ stream.length := by
  constructor
  · intro hcompleted
    exact (h.of_completed hcompleted).1.mem_eq.2.2
  · intro hle
    by_contra hfailed
    exact Nat.not_le.2 (h.of_failed (by simpa using hfailed)).1 hle

end Rounds

section Upload

variable {filesize : Int64} {plaintext : Bytes} {records : List Bytes}

/-- The receive loop ends; it fills the block from the stream, or the stream ends before. -/
theorem receiveUpload_delivers (hsize : 0 ≤ filesize.toInt)
    (halloc : plaintext.length = toSizeT filesize.toInt) :
    ∃ e, (∀ fuel, filesize.toInt.toNat + 1 < fuel →
        receiveUpload filesize plaintext records fuel = some e) ∧
      Delivers filesize.toInt.toNat records.flatten
        { ptr := 0, remaining := filesize.toInt
          arrival := { mem := plaintext, records := records, stores := [] } } e := by
  have hnat : (filesize.toInt.toNat : Int) = filesize.toInt := Int.toNat_of_nonneg hsize
  have hmax : filesize.toInt < 2 ^ 63 := filesize.toInt_lt
  rw [toSizeT_of_lt hsize hmax] at halloc
  refine receiveRounds_delivers (by omega) hnat.symm ⟨?_, hsize, ?_⟩
  · rw [hnat]
    exact Int.zero_add _
  · exact ⟨Nat.zero_le _, halloc, by simp [Memory.load], fun _ hs => by cases hs⟩

/-- The bytes are those that `receiveFile` gets. -/
theorem map_fst_receiveFile (hsize : 0 ≤ filesize.toInt)
    (halloc : plaintext.length = toSizeT filesize.toInt) {fuel : Nat} {e : ReceiveEnd}
    (hfuel : filesize.toInt.toNat + 1 < fuel)
    (hrun : receiveUpload filesize plaintext records fuel = some e) :
    (receiveFile filesize.toInt records).map Prod.fst =
      if e.completed then some e.arrival.mem else none := by
  rcases @receiveUpload_delivers _ _ records hsize halloc with ⟨e', hrun', hdelivers⟩
  have he : e' = e := Option.some_inj.1 ((hrun' fuel hfuel).symm.trans hrun)
  subst he
  cases hcompleted : e'.completed with
  | true =>
      have hle := hdelivers.completed_iff.1 hcompleted
      rcases Option.isSome_iff_exists.1 (receiveFile_isSome_iff.2 hle) with ⟨⟨bytes, rest⟩, hr⟩
      rw [hr, Option.map_some, if_pos rfl, (hdelivers.of_completed hcompleted).1.mem_eq.1,
        (receiveFile_eq_some hr).1]
  | false =>
      have hlt := (hdelivers.of_failed hcompleted).1
      have hnone : receiveFile filesize.toInt records = none :=
        Option.not_isSome_iff_eq_none.1 fun hsome =>
          Nat.not_le.2 hlt (receiveFile_isSome_iff.1 hsome)
      rw [hnone]
      rfl

end Upload

end Server

/-! ## What is sent -/

namespace Client

/-- All of `rest` was sent after `totalSent` bytes, or a part of it. -/
inductive FileSent.Accounts (rest : Bytes) (totalSent : Int) (e : FileSent) : Prop where
  | whole (hcompleted : e.completed = true) (hstream : e.stream = rest)
      (hchunks : e.chunks = chunkSizes rest.length)
      (htotal : e.totalSent = totalSent + rest.length)
  | part (hfailed : e.completed = false) (hstream : e.stream <+: rest)
      (hlength : e.stream.length < rest.length)

theorem FileSent.Accounts.cons {rest : Bytes} {totalSent : Int} {e : FileSent}
    (hne : rest ≠ []) (h : e.Accounts (rest.drop bufferSize)
      (totalSent + (rest.take bufferSize).length)) :
    FileSent.Accounts rest totalSent
      { e with
        chunks := (rest.take bufferSize).length :: e.chunks
        stream := rest.take bufferSize ++ e.stream } := by
  have hsplit := congrArg List.length (List.take_append_drop bufferSize rest)
  rw [List.length_append] at hsplit
  cases h with
  | whole hcompleted hstream hchunks htotal =>
      refine .whole hcompleted ?_ ?_ ?_
      · rw [hstream, List.take_append_drop]
      · have hrest : rest.length - min rest.length bufferSize = rest.length - bufferSize := by
          omega
        rw [chunkSizes_of_pos (List.length_pos_of_ne_nil hne), hrest, hchunks, List.length_take,
          List.length_drop, min_comm]
      · rw [htotal]
        omega
  | part hfailed hstream hlength =>
      refine .part hfailed ?_ ?_
      · have hfront := (List.prefix_append_right_inj (rest.take bufferSize)).2 hstream
        rwa [List.take_append_drop] at hfront
      · rw [List.length_append]
        omega

/-- The send loop ends; it sends the file, or a call fails before that. -/
theorem sendRounds_spec (writes : Nat → Schedule) :
    ∀ {left k : Nat} {rest : Bytes} {totalSent : Int}, rest.length = left → 0 ≤ totalSent →
      totalSent + left < 2 ^ 63 →
        ∃ e : FileSent, (∀ fuel, left + 1 < fuel →
          sendRounds writes fuel k rest totalSent = some e) ∧ e.Accounts rest totalSent := by
  intro left
  induction left using Nat.strong_induction_on with
  | _ left ih =>
      intro k rest totalSent hleft htotal hmax
      have hbuffer : (rest.take bufferSize).length = min 4096 left := by
        rw [List.length_take, hleft]
        rfl
      by_cases hpos : 0 < (rest.take bufferSize).length
      · rcases sendAll_spec (writes k) (show (rest.take bufferSize).length < 2 ^ 31 by omega) with
          ⟨sent, hsend, hreport, hwhole, hpart⟩
        by_cases hcode : sent.code = -1
        · rcases hpart (by rw [hcode]; decide) with ⟨hfront, hlt⟩
          refine ⟨_, fun fuel hfuel => ?_,
            .part (e := { completed := false, chunks := [(rest.take bufferSize).length]
                          totalSent := totalSent, stream := sent.stream }) rfl
              (hfront.trans (List.take_prefix _ _))
              (hlt.trans_le (List.take_prefix _ _).length_le)⟩
          cases fuel with
          | zero => omega
          | succ fuel =>
              simp only [sendRounds, if_pos hpos, sslSendAll, hsend fuel (by omega),
                Option.bind_some, if_pos hcode]
        · have hzero : sent.code = 0 := hreport.elim And.left fun h => absurd h.1 hcode
          have hcount : toInt64 (totalSent + (rest.take bufferSize).length) =
              totalSent + (rest.take bufferSize).length := toInt64_of_lt (by omega) (by omega)
          rcases @ih (left - (rest.take bufferSize).length) (by omega) (k + 1)
            (rest.drop bufferSize) (totalSent + (rest.take bufferSize).length)
            (by rw [List.length_drop, hleft, hbuffer]; unfold bufferSize; omega) (by omega)
            (by omega) with ⟨e, hrun, haccounts⟩
          have hne : rest ≠ [] := by
            rintro rfl
            exact absurd hpos (by simp)
          refine ⟨_, fun fuel hfuel => ?_, haccounts.cons hne⟩
          cases fuel with
          | zero => omega
          | succ fuel =>
              simp only [sendRounds, if_pos hpos, sslSendAll, hsend fuel (by omega),
                Option.bind_some, if_neg hcode, hcount, hrun fuel (by omega), Option.map_some,
                hwhole hzero]
      · have hnil : rest = [] := List.length_eq_zero_iff.1 (by omega)
        subst hnil
        refine ⟨_, fun fuel hfuel => ?_,
          .whole (e := { completed := true, chunks := [], totalSent := totalSent, stream := [] })
            rfl rfl rfl (by simp)⟩
        cases fuel with
        | zero => omega
        | succ fuel => simp only [sendRounds, if_neg hpos]

/-- Of a file whose size is a `long long`, the send loop sends all or a part. -/
theorem sendFile_accounts (writes : Nat → Schedule) {file : Bytes}
    (hmax : (file.length : Int) < 2 ^ 63) :
    ∃ sent : FileSent, (∀ fuel, file.length + 1 < fuel →
      sendFile writes file fuel = some sent) ∧ sent.Accounts file 0 :=
  sendRounds_spec writes rfl le_rfl (by omega)

end Client

/-! ## One side sends a file, the other receives it -/

end Transfer
end FileExchange
