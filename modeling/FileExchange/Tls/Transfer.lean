import FileExchange.CLibrary
import FileExchange.Lib.Memory

/-!
# Tls.Transfer — `ssl_send_all` against `ssl_recv_all`

`SSL_write` and `SSL_read` may move fewer bytes than they are asked to, and each side has its own
schedule of how many.

* `transferLoop`      : the loop that all four functions share;
* `transferLoop_spec` : it ends, and an invariant of its rounds holds when it does;
* `sendAll`, `recvAll` : the loop over a buffer to be sent, and over one to be filled.
-/

namespace FileExchange
namespace Transfer

open Lib

/-- The results of the calls one after another: `result i bound` is that of the `i`-th call when it
can move at most `bound` bytes, and `≤ 0` when it fails. -/
structure Schedule where
  result : Nat → Int → Int
  result_le : ∀ i bound, result i bound ≤ bound

/-! ## The loop -/

/-- How a loop ended: whether it moved all bytes, what its calls returned, the counter. -/
structure Ending (σ : Type) where
  completed : Bool
  results : List Int
  done : Nat
  state : σ

section Loop

variable {σ : Type} (call : Nat → Nat → σ → Int) (move : Nat → Nat → σ → σ) (len : Nat)

/-- `while (done < len)` around one call; `size_t done` grows by its result. -/
def transferLoop : Nat → Nat → Nat → σ → Option (Ending σ)
  | 0, _, _, _ => none
  | fuel + 1, i, done, s =>
      if done < len then
        let n := call i done s
        if n ≤ 0 then some { completed := false, results := [n], done := done, state := s }
        else
          (transferLoop fuel (i + 1) (toSizeT (done + n)) (move done n.toNat s)).map fun e =>
            { e with results := n :: e.results }
      else some { completed := true, results := [], done := done, state := s }

/-- All calls moved something and together the rest, or the last one failed before that. -/
inductive Ending.Accounts (done : Nat) (e : Ending σ) : Prop where
  | completed (hcompleted : e.completed = true) (hpos : ∀ n ∈ e.results, 0 < n)
      (hsum : done + e.results.sum = len) (hdone : e.done = len)
  | failed (moved : List Int) (last : Int) (hcompleted : e.completed = false)
      (hresults : e.results = moved ++ [last]) (hlast : last ≤ 0) (hpos : ∀ n ∈ moved, 0 < n)
      (hsum : done + moved.sum = e.done) (hdone : e.done < len)

variable {len}

theorem Ending.Accounts.cons {done : Nat} {n : Int} {e : Ending σ} (hn : 0 < n)
    (h : e.Accounts len (done + n.toNat)) :
    Ending.Accounts len done { e with results := n :: e.results } := by
  have hnat : (n.toNat : Int) = n := Int.toNat_of_nonneg hn.le
  cases h with
  | completed hcompleted hpos hsum hdone =>
      refine .completed hcompleted ?_ ?_ hdone
      · simpa [hn] using hpos
      · rw [List.sum_cons, ← hsum]
        omega
  | failed moved last hcompleted hresults hlast hpos hsum hdone =>
      refine .failed (n :: moved) last hcompleted ?_ hlast ?_ ?_ hdone
      · rw [hresults, List.cons_append]
      · simpa [hn] using hpos
      · rw [List.sum_cons, ← hsum]
        omega

/-- The loop ends, whatever its calls return, and accounts for them; an invariant of its rounds
holds in the end, and if the loop failed, it stopped at a call that fails. -/
theorem transferLoop_spec (hlen : len < 2 ^ 31) (Inv : Nat → σ → Prop)
    (hcall : ∀ i done s, done < len → call i done s ≤ (len - done : Nat))
    (hmove : ∀ i done s, done < len → Inv done s → 0 < call i done s →
      Inv (done + (call i done s).toNat) (move done (call i done s).toNat s)) :
    ∀ (left i done : Nat) (s : σ), done + left = len → Inv done s →
      ∃ e : Ending σ, (∀ fuel, left < fuel → transferLoop call move len fuel i done s = some e) ∧
        Inv e.done e.state ∧ e.Accounts len done ∧
          (e.completed = false → ∃ j, call j e.done e.state ≤ 0) := by
  intro left
  induction left using Nat.strong_induction_on with
  | _ left ih =>
      intro i done s hleft hinv
      by_cases hlt : done < len
      · have hle := hcall i done s hlt
        by_cases hfail : call i done s ≤ 0
        · refine ⟨{ completed := false, results := [call i done s], done := done, state := s },
            fun fuel hfuel => ?_, hinv,
            .failed [] (call i done s) rfl rfl hfail (by simp) (by simp) hlt, fun _ => ⟨i, hfail⟩⟩
          cases fuel with
          | zero => omega
          | succ fuel => simp only [transferLoop, if_pos hlt, if_pos hfail]
        · have hpos : 0 < call i done s := by omega
          have hnat : ((call i done s).toNat : Int) = call i done s :=
            Int.toNat_of_nonneg hpos.le
          -- the counter does not wrap, since a call moves no more than there is left
          have hcount : toSizeT (done + call i done s) = done + (call i done s).toNat := by
            rw [toSizeT_of_lt (by omega) (by omega)]
            omega
          rcases ih (left - (call i done s).toNat) (by omega) (i + 1) _
            (move done (call i done s).toNat s) (by omega) (hmove i done s hlt hinv hpos) with
            ⟨e, hrun, hend, haccounts, hstop⟩
          refine ⟨{ e with results := call i done s :: e.results }, fun fuel hfuel => ?_, hend,
            haccounts.cons hpos, hstop⟩
          cases fuel with
          | zero => omega
          | succ fuel =>
              simp only [transferLoop, if_pos hlt, if_neg hfail, hcount,
                hrun fuel (by omega), Option.map_some]
      · have hdone : done = len := by omega
        refine ⟨{ completed := true, results := [], done := done, state := s },
          fun fuel hfuel => ?_, hinv, .completed rfl (by simp) (by simp; omega) hdone,
          fun hfailed => absurd hfailed (by simp)⟩
        cases fuel with
        | zero => omega
        | succ fuel => simp only [transferLoop, if_neg hlt]

end Loop

/-! ## Sending -/

/-- `ssl_send_all`: the value returned, what the calls returned, and the bytes written. -/
structure Sent where
  code : Int
  results : List Int
  stream : Bytes

def Ending.sent (e : Ending Bytes) : Sent :=
  { code := if e.completed then 0 else -1, results := e.results, stream := e.state }

/-- The loop of `ssl_send_all`, the same on both sides; `SSL_write` takes an `int`. -/
def sendAll (writes : Schedule) (buf : Bytes) (fuel : Nat) : Option Sent :=
  (transferLoop (fun i sent _ => writes.result i (toInt (toSizeT (buf.length - sent))))
    (fun sent n stream => stream ++ Memory.load buf sent n) buf.length fuel 0 0 []).map Ending.sent

namespace Server

/-- `ssl_send_all` of the server. -/
def sslSendAll (writes : Schedule) (buf : Bytes) (fuel : Nat) : Option Sent :=
  sendAll writes buf fuel

end Server

namespace Client

/-- `ssl_send_all` of the client. -/
def sslSendAll (writes : Schedule) (buf : Bytes) (fuel : Nat) : Option Sent :=
  sendAll writes buf fuel

end Client

/-! ## Receiving -/

/-- `ssl_recv_all`: the value returned, what the calls returned, the memory at the buffer and the
bytes that are left on the stream. -/
structure Received where
  code : Int
  results : List Int
  mem : Bytes
  rest : Bytes

/-- The memory at the buffer, and the bytes on the stream. -/
structure Incoming where
  mem : Bytes
  rest : Bytes

/-- With the value that a side returns for the counter of bytes. -/
def Ending.received (success : Nat → Int) (e : Ending Incoming) : Received :=
  { code := if e.completed then success e.done else -1, results := e.results
    mem := e.state.mem, rest := e.state.rest }

/-- The loop of `ssl_recv_all`, with the value that a side returns for the counter; `SSL_read`
takes an `int` and has no more to give than is on the stream. -/
def recvAll (success : Nat → Int) (reads : Schedule) (len : Nat) (mem stream : Bytes)
    (fuel : Nat) : Option Received :=
  (transferLoop
    (fun i total s => reads.result i (min (toInt (toSizeT (len - total))) s.rest.length))
    (fun total n s =>
      { mem := Memory.store s.mem { addr := total, data := s.rest.take n }
        rest := s.rest.drop n })
    len fuel 0 0 { mem := mem, rest := stream : Incoming }).map (Ending.received success)

namespace Server

/-- `ssl_recv_all` of the server returns `total`. -/
def sslRecvAll (reads : Schedule) (len : Nat) (mem stream : Bytes) (fuel : Nat) :
    Option Received :=
  recvAll (fun total => toInt total) reads len mem stream fuel

end Server

namespace Client

/-- `ssl_recv_all` of the client returns 0. -/
def sslRecvAll (reads : Schedule) (len : Nat) (mem stream : Bytes) (fuel : Nat) :
    Option Received :=
  recvAll (fun _ => 0) reads len mem stream fuel

end Client

/-! ## What each side has done when it returns -/

/-- The call fails exactly when one of its calls moved nothing before `len` bytes were moved. -/
def ReportsFailure (code success : Int) (results : List Int) (len : Int) : Prop :=
  (code = success ∧ (∀ n ∈ results, 0 < n) ∧ results.sum = len) ∨
    (code = -1 ∧ ∃ moved last, results = moved ++ [last] ∧ (∀ n ∈ moved, 0 < n) ∧ last ≤ 0 ∧
      moved.sum < len)

theorem Ending.Accounts.reportsFailure {σ : Type} {e : Ending σ} {len : Nat}
    (h : e.Accounts len 0) (success : Nat → Int) :
    ReportsFailure (if e.completed then success e.done else -1) (success len) e.results len := by
  cases h with
  | completed hcompleted hpos hsum hdone =>
      rw [hcompleted, hdone]
      exact Or.inl ⟨rfl, hpos, by simpa using hsum⟩
  | failed moved last hcompleted hresults hlast hpos hsum hdone =>
      rw [hcompleted]
      refine Or.inr ⟨rfl, moved, last, hresults, hpos, hlast, ?_⟩
      have hmoved : moved.sum = e.done := by simpa using hsum
      omega

/-- Asked for what is left, a call moves no more than that. -/
theorem toInt_left {len done : Nat} (hlen : len < 2 ^ 31) (hdone : done < len) :
    toInt (toSizeT (len - done)) = (len - done : Nat) := by
  have hsize : toSizeT (len - done) = len - done := by
    rw [toSizeT_of_lt (by omega) (by omega)]
    omega
  rw [hsize]
  exact toInt_of_lt (by omega) (by omega)

theorem Ending.Accounts.done_eq {σ : Type} {e : Ending σ} {len done : Nat}
    (h : e.Accounts len done) (hcompleted : e.completed = true) : e.done = len := by
  cases h with
  | completed _ _ _ hdone => exact hdone
  | failed _ _ hfailed => simp [hcompleted] at hfailed

theorem Ending.Accounts.done_lt {σ : Type} {e : Ending σ} {len done : Nat}
    (h : e.Accounts len done) (hfailed : e.completed = false) : e.done < len := by
  cases h with
  | completed hcompleted => simp [hfailed] at hcompleted
  | failed _ _ _ _ _ _ _ hdone => exact hdone

/-- `ssl_send_all` ends; it fails exactly when a call does, and then it has written less than the
buffer, otherwise all of it. -/
theorem sendAll_spec (writes : Schedule) {buf : Bytes} (hlen : buf.length < 2 ^ 31) :
    ∃ s : Sent, (∀ fuel, buf.length < fuel → sendAll writes buf fuel = some s) ∧
      ReportsFailure s.code 0 s.results buf.length ∧ (s.code = 0 → s.stream = buf) ∧
        (s.code ≠ 0 → s.stream <+: buf ∧ s.stream.length < buf.length) := by
  rcases transferLoop_spec (fun i sent _ => writes.result i (toInt (toSizeT (buf.length - sent))))
    (fun sent n stream => stream ++ Memory.load buf sent n) hlen
    (fun sent stream => stream = Memory.load buf 0 sent)
    (by
      intro i sent stream hlt
      rw [toInt_left hlen hlt]
      exact writes.result_le i _)
    (by
      rintro i sent stream hlt rfl _
      simp [Memory.load_add])
    buf.length 0 0 [] (Nat.zero_add _) (by simp [Memory.load]) with
    ⟨e, hrun, hend, haccounts, _⟩
  refine ⟨e.sent, fun fuel hfuel => ?_, haccounts.reportsFailure fun _ => 0, fun hcode => ?_,
    fun hcode => ?_⟩
  · rw [sendAll, hrun fuel hfuel, Option.map_some]
  · have hcompleted : e.completed = true := by
      by_contra hfailed
      simp [Ending.sent, hfailed] at hcode
    change e.state = buf
    rw [hend, haccounts.done_eq hcompleted]
    simp [Memory.load]
  · have hfailed : e.completed = false := by
      by_contra hcompleted
      exact hcode (if_pos (by simpa using hcompleted))
    have hlt := haccounts.done_lt hfailed
    change e.state <+: buf ∧ e.state.length < buf.length
    rw [hend, Memory.load, List.drop_zero, List.length_take]
    exact ⟨List.take_prefix _ _, (min_le_left _ _).trans_lt hlt⟩

/-- What the receive loop has taken off a stream is in front in its memory. -/
structure Incoming.Took (mem stream : Bytes) (total : Nat) (s : Incoming) : Prop where
  le_length : total ≤ stream.length
  length_mem : s.mem.length = mem.length
  load_mem : Memory.load s.mem 0 total = stream.take total
  rest_eq : s.rest = stream.drop total

theorem Incoming.Took.store {mem stream : Bytes} {total n : Nat} {s : Incoming}
    (h : s.Took mem stream total) (hn : n ≤ s.rest.length) (hroom : total + n ≤ mem.length) :
    Incoming.Took mem stream (total + n)
      { mem := Memory.store s.mem { addr := total, data := s.rest.take n }
        rest := s.rest.drop n } := by
  have hdata : (s.rest.take n).length = n := List.length_take_of_le hn
  have hstop : (Memory.Store.mk total (s.rest.take n)).stop ≤ s.mem.length := by
    rw [Memory.stop_mk, hdata, h.length_mem]
    exact hroom
  have hself := Memory.load_store_self hstop
  rw [hdata] at hself
  refine ⟨?_, ?_, ?_, ?_⟩
  · have hrest := h.rest_eq ▸ hn
    rw [List.length_drop] at hrest
    have := h.le_length
    omega
  · exact (Memory.length_store hstop).trans h.length_mem
  · calc
      Memory.load (Memory.store s.mem { addr := total, data := s.rest.take n }) 0 (total + n)
          = Memory.load s.mem 0 total ++ s.rest.take n := by
            rw [Memory.load_add, Memory.load_store_of_disjoint hstop (Or.inl (by simp)),
              Nat.zero_add, hself]
      _ = stream.take (total + n) := by
            rw [h.load_mem, h.rest_eq, List.take_add]
  · rw [h.rest_eq, List.drop_drop]

def allAtOnce : Schedule :=
  { result := fun _ bound => bound, result_le := fun _ _ => le_rfl }

end Transfer
end FileExchange
