import FileExchange.Blake3.Subtree
import FileExchange.Blake3.Output
import FileExchange.Lib.MergeStack

/-!
# Blake3.Hasher — the incremental hash of an input of any length

* `Hasher`, `hasherUpdate`, `hasherFinalizeSeek` : the functions of `blake3.c`;
* `rootNode` : the root of the tree over the chunks of the whole input;
* `Absorbed` : what holds of a hasher that has been given some bytes.

The stack of a hasher holds subtrees that are merged as late as possible.  However the input was
cut into updates and whatever the platform, the result is that of `rootNode`
(`hasherFinalizeSeek_eq`).
-/

namespace FileExchange
namespace Blake3

open Lib.LeftTree Lib.MergeStack

/-- `blake3_hasher`. -/
structure Hasher where
  key : CvWords
  chunk : ChunkState
  /-- The first `cv_stack_len` values of `cv_stack`, the last of them first. -/
  cvStack : List Cv

/-- `BLAKE3_MAX_DEPTH`: `cv_stack` has room for one value more. -/
def maxDepth : Nat := 54

/-- `__builtin_popcountll`. -/
def popcnt (x : UInt64) : Nat :=
  (List.range 64).countP fun i => x.toNat.testBit i

def hasherInitBase (key : CvWords) (flags : UInt8) : Hasher where
  key := key
  chunk := chunkStateInit key flags
  cvStack := []

def hasherInit : Hasher :=
  hasherInitBase iv 0

def hasherInitKeyed (key : Vector UInt8 32) : Hasher :=
  hasherInitBase (loadKeyWords key) keyedHash

/-- `self->chunk.chunk_counter += chunks`. -/
def Hasher.addChunks (self : Hasher) (chunks : UInt64) : Hasher :=
  { self with chunk := { self.chunk with chunkCounter := self.chunk.chunkCounter + chunks } }

/-- Halve the length until it divides the count. -/
def shrinkSubtree (subtreeLen : Nat) (countSoFar : UInt64) : Nat :=
  if (subtreeLen - 1) &&& countSoFar.toNat ≠ 0 then shrinkSubtree (subtreeLen / 2) countSoFar
  else subtreeLen
termination_by subtreeLen
decreasing_by
  rcases Nat.eq_zero_or_pos subtreeLen with rfl | hpos
  · simp at *
  · omega

theorem shrinkSubtree_pos {subtreeLen : Nat} (h : 0 < subtreeLen) (countSoFar : UInt64) :
    0 < shrinkSubtree subtreeLen countSoFar := by
  induction subtreeLen using Nat.strong_induction_on with
  | _ n ih =>
      rw [shrinkSubtree]
      split
      · next hbits =>
          have htwo : 2 ≤ n := by
            by_contra hone
            obtain rfl : n = 1 := by omega
            simp at hbits
          exact ih _ (by omega) (by omega)
      · exact h

theorem roundDownToPowerOf2_pos (x : Nat) : 0 < roundDownToPowerOf2 x := by
  rw [roundDownToPowerOf2, Nat.one_shiftLeft]
  exact Nat.two_pow_pos _

section Functions

variable (P : Platform)

/-- The loop of `hasher_merge_cv_stack`. -/
def mergeLoop (key : CvWords) (flags : UInt8) (postMergeStackLen : Nat) : List Cv → List Cv
  | [] => []
  | [cv] => [cv]
  | right :: left :: stack =>
      if stack.length + 2 > postMergeStackLen then
        mergeLoop key flags postMergeStackLen
          (outputChainingValue P (parentOutput (parentBlock left right) key flags) :: stack)
      else right :: left :: stack
termination_by stack => stack.length

def hasherMergeCvStack (self : Hasher) (totalLen : UInt64) : Hasher :=
  { self with cvStack := mergeLoop P self.key self.chunk.flags (popcnt totalLen) self.cvStack }

/-- Nothing, if the new value would be written behind the end of `cv_stack`. -/
def hasherPushCv (self : Hasher) (newCv : Cv) (chunkCounter : UInt64) : Option Hasher :=
  let self := hasherMergeCvStack P self chunkCounter
  if self.cvStack.length < maxDepth + 1 then
    some { self with cvStack := newCv :: self.cvStack }
  else none

/-- The bytes that a partial chunk takes first; it is finished only if there are more. -/
def hasherFinishChunk (self : Hasher) (input : Bytes) : Option (Hasher × Bytes) :=
  if chunkStateLen self.chunk > 0 then
    let take := chunkLen - chunkStateLen self.chunk
    let take := if take > input.length then input.length else take
    let self := { self with chunk := chunkStateUpdate P self.chunk (input.take take) }
    let input := input.drop take
    if input.length > 0 then
      let chunkCv := outputChainingValue P (chunkStateOutput self.chunk)
      (hasherPushCv P self chunkCv self.chunk.chunkCounter).map fun self =>
        ({ self with
            chunk := chunkStateReset self.chunk self.key (self.chunk.chunkCounter + 1) }, input)
    else some (self, input)
  else some (self, input)

/-- Hash a whole subtree, or one chunk by itself. -/
def hasherPushSubtree (self : Hasher) (input : Bytes) (subtreeLen : Nat) : Option Hasher :=
  let subtreeChunks := UInt64.ofNat (subtreeLen / chunkLen)
  let pushed :=
    if subtreeLen ≤ chunkLen then
      let chunkState := { chunkStateInit self.key self.chunk.flags with
        chunkCounter := self.chunk.chunkCounter }
      let chunkState := chunkStateUpdate P chunkState (input.take subtreeLen)
      hasherPushCv P self (outputChainingValue P (chunkStateOutput chunkState))
        chunkState.chunkCounter
    else
      let cvPair := compressSubtreeToParentNode P self.key self.chunk.flags
        (input.take subtreeLen) self.chunk.chunkCounter
      (hasherPushCv P self cvPair.1 self.chunk.chunkCounter).bind fun self =>
        hasherPushCv P self cvPair.2 (self.chunk.chunkCounter + subtreeChunks / 2)
  pushed.map fun self => self.addChunks subtreeChunks

/-- The loop over whole subtrees, and what it leaves of the input. -/
def hasherUpdateLoop (self : Hasher) (input : Bytes) : Option (Hasher × Bytes) :=
  if input.length > chunkLen then
    let countSoFar := self.chunk.chunkCounter * UInt64.ofNat chunkLen
    let subtreeLen := shrinkSubtree (roundDownToPowerOf2 input.length) countSoFar
    (hasherPushSubtree P self input subtreeLen).bind fun pushed =>
      hasherUpdateLoop pushed (input.drop subtreeLen)
  else some (self, input)
termination_by input.length
decreasing_by
  have hpos := shrinkSubtree_pos (roundDownToPowerOf2_pos input.length)
    (self.chunk.chunkCounter * UInt64.ofNat chunkLen)
  rw [List.length_drop]
  omega

/-- The loop, and the bytes behind it that the chunk state takes. -/
def hasherUpdateClear (self : Hasher) (input : Bytes) : Option Hasher :=
  (hasherUpdateLoop P self input).map fun looped =>
    if looped.2.length > 0 then
      let self := { looped.1 with chunk := chunkStateUpdate P looped.1.chunk looped.2 }
      hasherMergeCvStack P self self.chunk.chunkCounter
    else looped.1

def hasherUpdate (self : Hasher) (input : Bytes) : Option Hasher :=
  if input.length = 0 then some self
  else
    (hasherFinishChunk P self input).bind fun finished =>
      hasherUpdateClear P finished.1 finished.2

/-- The root node that `blake3_hasher_finalize_seek` arrives at. -/
def hasherRoot (self : Hasher) : Output :=
  let join := fun (output : Output) (cv : Cv) =>
    parentOutput (parentBlock cv (outputChainingValue P output)) self.key self.chunk.flags
  match self.cvStack with
  | [] => chunkStateOutput self.chunk
  | cv :: stack =>
      if chunkStateLen self.chunk > 0 then
        (cv :: stack).foldl join (chunkStateOutput self.chunk)
      else
        match stack with
        | left :: stack =>
            stack.foldl join (parentOutput (parentBlock left cv) self.key self.chunk.flags)
        -- there are always at least two values in the stack in this case
        | [] => chunkStateOutput self.chunk

def hasherFinalizeSeek (self : Hasher) (seek : UInt64) (outLen : Nat) : Bytes :=
  if outLen = 0 then [] else outputRootBytes P (hasherRoot P self) seek outLen

def hasherFinalize (self : Hasher) (outLen : Nat) : Bytes :=
  hasherFinalizeSeek P self 0 outLen

def hasherReset (self : Hasher) : Hasher :=
  { self with
    chunk := chunkStateReset self.chunk self.key 0
    cvStack := [] }

def hasherInitDeriveKeyRaw (context : Bytes) : Option Hasher :=
  let contextHasher := hasherInitBase iv deriveKeyContext
  (hasherUpdate P contextHasher context).map fun contextHasher =>
    let contextKey := hasherFinalize P contextHasher 32
    hasherInitBase (loadKeyWords (.ofFn fun i => contextKey.getD i.val 0)) deriveKeyMaterial

end Functions

/-! ## Bits of a count -/

/-- As many bits are set as the list of their positions is long. -/
theorem popcnt_ofNat {n : Nat} (h : n < 2 ^ 64) :
    popcnt (UInt64.ofNat n) = n.bitIndices.length := by
  have hsame : (List.range 64).filter (fun i => n.testBit i) = n.bitIndices := by
    refine List.SortedLT.eq_of_mem_iff ?_ Nat.bitIndices_sorted fun i => ?_
    · exact (List.pairwise_lt_range.filter _).sortedLT
    · rw [List.mem_filter, List.mem_range, Nat.mem_bitIndices]
      refine ⟨And.right, fun hbit => ⟨?_, hbit⟩⟩
      exact (Nat.pow_lt_pow_iff_right (by decide)).1
        ((Nat.two_pow_le_of_mem_bitIndices (Nat.mem_bitIndices.2 hbit)).trans_lt h)
  rw [popcnt, UInt64.toNat_ofNat_of_lt' h, List.countP_eq_length_filter, hsame]

/-- A power of two is halved until it divides the count, and not below one that does. -/
theorem shrinkSubtree_two_pow {a b : Nat} (count : UInt64) (hab : a ≤ b)
    (hdvd : 2 ^ a ∣ count.toNat) :
    ∃ j, a ≤ j ∧ j ≤ b ∧ 2 ^ j ∣ count.toNat ∧ shrinkSubtree (2 ^ b) count = 2 ^ j := by
  induction b with
  | zero =>
      refine ⟨0, hab, le_rfl, one_dvd _, ?_⟩
      rw [shrinkSubtree]
      simp
  | succ b ih =>
      have hmod : (2 ^ (b + 1) - 1) &&& count.toNat = count.toNat % 2 ^ (b + 1) := by
        rw [Nat.and_comm, Nat.and_two_pow_sub_one_eq_mod]
      rw [shrinkSubtree, hmod]
      by_cases hzero : count.toNat % 2 ^ (b + 1) = 0
      · rw [if_neg (not_not.2 hzero)]
        exact ⟨b + 1, hab, le_rfl, Nat.dvd_of_mod_eq_zero hzero, rfl⟩
      · have hle : a ≤ b := by
          by_contra hlt
          obtain rfl : a = b + 1 := by omega
          exact hzero (Nat.mod_eq_zero_of_dvd hdvd)
        have hhalf : 2 ^ (b + 1) / 2 = 2 ^ b := by
          rw [Nat.pow_succ, Nat.mul_div_cancel _ (by decide)]
        rcases ih hle with ⟨j, haj, hjb, hj, heq⟩
        rw [if_pos hzero, hhalf]
        exact ⟨j, haj, by omega, hj, heq⟩

/-! ## The root of an input -/

/-- The root of the tree over the chunks of an input, which is never compressed as another node. -/
def rootNode (key : CvWords) (flags : UInt8) (x : Bytes) : Output :=
  if x.length ≤ chunkLen then chunkNode 0 flags key chunkStart x
  else
    let below := children (joinCvs key flags) (chunkValues key flags 0 x)
    parentOutput (parentBlock below.1 below.2) key flags

/-! ## What a hasher has absorbed -/

section Absorbed

variable {P : Platform} {key : CvWords} {flags : UInt8} {hasher : Hasher}
  {x y done tail piece : Bytes} {counter : Nat}

theorem mergeLoop_cons (hP : P.Agrees) (post : Nat) (top : Cv) (stack : List Cv) :
    mergeLoop P key flags post (top :: stack) = merge (joinCvs key flags) post top stack := by
  induction stack generalizing top with
  | nil => rw [mergeLoop, merge]
  | cons v stack ih =>
      rw [mergeLoop, merge, outputChainingValue_eq hP]
      split
      · exact ih _
      · rfl

theorem mergeLoop_eq (hP : P.Agrees) (post : Nat) (stack : List Cv) :
    mergeLoop P key flags post stack = mergeAll (joinCvs key flags) post stack := by
  cases stack with
  | nil => rw [mergeLoop, mergeAll]
  | cons top stack => exact mergeLoop_cons hP post top stack

/-- The values of the whole chunks `done` are on the stack. -/
structure Stacked (key : CvWords) (flags : UInt8) (hasher : Hasher) (done : Bytes) : Prop where
  key_eq : hasher.key = key
  flags_eq : hasher.chunk.flags = flags
  whole : done.length % 1024 = 0
  lazy : Lazy (joinCvs key flags) (chunkValues key flags 0 done) hasher.cvStack

/-- The subtrees on the stack are merged. -/
def Merged (key : CvWords) (flags : UInt8) (done : Bytes) (stack : List Cv) : Prop :=
  Represents (joinCvs key flags) (chunkCount done.length).bitIndices
    (chunkValues key flags 0 done) stack

theorem Merged.ne_nil {stack : List Cv} (h : Merged key flags done stack) (hne : done ≠ []) :
    stack ≠ [] := by
  refine Represents.ne_nil h ?_
  rw [chunkValues_of_ne_nil 0 hne]
  exact List.cons_ne_nil _ _

/-- A merged stack has room for another value. -/
theorem Merged.length_lt {stack : List Cv} (h : Merged key flags done stack)
    (hwhole : done.length % 1024 = 0) (hbound : done.length < 2 ^ 64) :
    stack.length < maxDepth + 1 := by
  have hcount : chunkCount done.length < 2 ^ maxDepth := by
    unfold chunkCount maxDepth
    omega
  rw [Represents.length_stack h]
  exact Nat.lt_succ_of_le (length_bitIndices_le hcount)

namespace Stacked

theorem chunkCount_eq (h : Stacked key flags hasher done) :
    chunkCount done.length = done.length / 1024 := by
  have hwhole := h.whole
  unfold chunkCount
  omega

/-- Merging leaves one value for each bit of the number of chunks. -/
theorem merged (hP : P.Agrees) (h : Stacked key flags hasher done)
    (hbound : done.length < 2 ^ 64) :
    Merged key flags done
      (hasherMergeCvStack P hasher (UInt64.ofNat (done.length / 1024))).cvStack := by
  have hmerged := h.lazy.mergeAll
  have hlt : done.length / 1024 < 2 ^ 64 := (Nat.div_le_self _ _).trans_lt hbound
  rw [length_chunkValues] at hmerged
  rw [hasherMergeCvStack, h.key_eq, h.flags_eq]
  simp only
  rw [popcnt_ofNat hlt, mergeLoop_eq hP, ← h.chunkCount_eq]
  exact hmerged

/-- Push the value of a subtree whose size divides the number of chunks before it: there is room,
and it does not stay alone. -/
theorem push (hP : P.Agrees) {j : Nat} (h : Stacked key flags hasher done)
    (hbound : done.length < 2 ^ 64) (hpiece : piece.length = 1024 * 2 ^ j)
    (hdvd : 2 ^ j ∣ done.length / 1024) :
    ∃ next, hasherPushCv P hasher
        (fold (joinCvs key flags) (chunkValues key flags (done.length / 1024) piece))
        (UInt64.ofNat (done.length / 1024)) = some next ∧
      next.key = hasher.key ∧ next.chunk = hasher.chunk ∧
      Stacked key flags next (done ++ piece) ∧ (done ≠ [] → 2 ≤ next.cvStack.length) := by
  have hwhole := h.whole
  have hmerged := h.merged hP hbound
  have hvalues : chunkValues key flags 0 (done ++ piece) =
      chunkValues key flags 0 done ++ chunkValues key flags (done.length / 1024) piece := by
    rw [chunkValues_append (done.length / 1024) 0 piece (by omega), Nat.zero_add]
  have hseg : (chunkValues key flags (done.length / 1024) piece).length = 2 ^ j := by
    rw [length_chunkValues, chunkCount, hpiece]
    omega
  refine ⟨_, if_pos (hmerged.length_lt hwhole hbound), rfl, rfl,
    ⟨h.key_eq, h.flags_eq, by rw [List.length_append]; omega, ?_⟩, fun hne => ?_⟩
  · rw [hvalues]
    unfold Merged at hmerged
    rw [← @length_chunkValues key flags 0] at hmerged
    refine Lazy.push hmerged hseg ?_
    rwa [length_chunkValues, h.chunkCount_eq]
  · have hpos := List.length_pos_of_ne_nil (hmerged.ne_nil hne)
    rw [List.length_cons]
    omega

end Stacked

/-- The whole chunks `done` are on the stack, and `tail` is in the chunk state. -/
structure Progress (P : Platform) (key : CvWords) (flags : UInt8) (hasher : Hasher)
    (done tail : Bytes) : Prop extends Stacked key flags hasher done where
  chunk_eq : hasher.chunk = chunkAfter P key flags (UInt64.ofNat (done.length / 1024)) tail

namespace Progress

theorem counter_eq (h : Progress P key flags hasher done tail) :
    hasher.chunk.chunkCounter = UInt64.ofNat (done.length / 1024) := by
  rw [h.chunk_eq, chunkAfter, chunkCounter_foldl]

theorem len_eq (h : Progress P key flags hasher done tail) :
    chunkStateLen hasher.chunk = tail.length := by
  rw [h.chunk_eq, len_chunkAfter]

end Progress

/-- What the functions of the interface leave behind after the bytes `x`. -/
def Absorbed (P : Platform) (key : CvWords) (flags : UInt8) (hasher : Hasher) (x : Bytes) : Prop :=
  ∃ done tail, x = done ++ tail ∧ tail.length ≤ 1024 ∧ Progress P key flags hasher done tail ∧
    (tail ≠ [] → Merged key flags done hasher.cvStack) ∧
    (tail = [] → done ≠ [] → 2 ≤ hasher.cvStack.length)

/-- How long the next subtree is: a power of two of chunks that divides the chunks so far. -/
theorem subtreeLen_eq (h : Progress P key flags hasher done []) {n : Nat} (hn : 1024 < n)
    (hbound : done.length < 2 ^ 64) :
    ∃ j, shrinkSubtree (roundDownToPowerOf2 n)
        (hasher.chunk.chunkCounter * UInt64.ofNat chunkLen) = 1024 * 2 ^ j ∧
      1024 * 2 ^ j ≤ n ∧ 2 ^ j ∣ done.length / 1024 := by
  have hwhole := h.whole
  have hcount : (hasher.chunk.chunkCounter * UInt64.ofNat chunkLen).toNat = done.length := by
    have hmul : done.length / 1024 * chunkLen = done.length := by
      unfold chunkLen
      omega
    rw [h.counter_eq, ← UInt64.ofNat_mul, hmul, UInt64.toNat_ofNat_of_lt' hbound]
  have hdvd : 2 ^ 10 ∣ (hasher.chunk.chunkCounter * UInt64.ofNat chunkLen).toNat := by
    rw [hcount]
    exact Nat.dvd_of_mod_eq_zero hwhole
  have hlog : 10 ≤ n.log2 := (Nat.le_log2 (by omega)).2 (by omega)
  rw [roundDownToPowerOf2_of_pos (by omega)]
  rcases shrinkSubtree_two_pow _ hlog hdvd with ⟨j, hj, hjn, hcountDvd, heq⟩
  obtain ⟨i, rfl⟩ : ∃ i, j = 10 + i := ⟨j - 10, by omega⟩
  have hpow : 2 ^ (10 + i) = 1024 * 2 ^ i := Nat.pow_add 2 10 i
  have hle : 2 ^ (10 + i) ≤ n :=
    (Nat.pow_le_pow_right (by decide) hjn).trans (Nat.log2_self_le (by omega))
  rw [hcount, hpow] at hcountDvd
  exact ⟨i, heq.trans hpow, hpow ▸ hle, Nat.dvd_div_of_mul_dvd hcountDvd⟩

/-- Count the chunks of a piece that was pushed. -/
theorem Progress.advance {pushed : Hasher} {n : Nat} (h : Progress P key flags hasher done [])
    (hpushed : Stacked key flags pushed (done ++ piece)) (hchunk : pushed.chunk = hasher.chunk)
    (hpiece : piece.length = 1024 * n) :
    Progress P key flags (pushed.addChunks (UInt64.ofNat n)) (done ++ piece) [] := by
  have hwhole := h.whole
  have hcount : (done ++ piece).length / 1024 = done.length / 1024 + n := by
    rw [List.length_append]
    omega
  refine ⟨⟨hpushed.key_eq, hpushed.flags_eq, hpushed.whole, hpushed.lazy⟩, ?_⟩
  rw [Hasher.addChunks, hchunk, h.counter_eq, h.chunk_eq, hcount, UInt64.ofNat_add]
  rfl

/-- One chunk by itself. -/
theorem pushSubtree_chunk (hP : P.Agrees) (h : Progress P key flags hasher done [])
    (hbound : done.length < 2 ^ 64) (hlong : 1024 ≤ x.length) :
    ∃ next, hasherPushSubtree P hasher x 1024 = some next ∧
      Progress P key flags next (done ++ x.take 1024) [] := by
  have hlength : (x.take 1024).length = 1024 * 2 ^ 0 := by
    rw [List.length_take]
    omega
  have hne : x.take 1024 ≠ [] := List.ne_nil_of_length_pos (by omega)
  obtain ⟨pushed, hpush, -, hchunk, hstacked, -⟩ :=
    h.toStacked.push hP hbound hlength (one_dvd _)
  rw [chunkValues_of_le _ hne (by omega), fold_singleton] at hpush
  refine ⟨pushed.addChunks (UInt64.ofNat 1), ?_, h.advance hstacked hchunk hlength⟩
  rw [hasherPushSubtree]
  simp only [chunkLen, le_refl, if_true, h.key_eq, h.flags_eq, h.counter_eq]
  rw [outputChainingValue_update hP, chunkStateUpdate_eq_foldl (tidy_init key flags _),
    chunkCounter_foldl, hpush]
  rfl

/-- A subtree of more than one chunk goes on the stack in two halves. -/
theorem Stacked.push_pair (hP : P.Agrees) {j : Nat} (h : Stacked key flags hasher done)
    (hbound : (done ++ x).length < 2 ^ 64) (hx : x.length = 1024 * 2 ^ j)
    (hy : y.length = 1024 * 2 ^ j) (hdvd : 2 ^ j ∣ done.length / 1024) :
    let cvPair := compressSubtreeToParentNode P key flags (x ++ y)
      (UInt64.ofNat (done.length / 1024))
    ∃ first second,
      hasherPushCv P hasher cvPair.1 (UInt64.ofNat (done.length / 1024)) = some first ∧
      hasherPushCv P first cvPair.2 (UInt64.ofNat (done.length / 1024 + 2 ^ j)) = some second ∧
      first.chunk = hasher.chunk ∧ second.chunk = hasher.chunk ∧
      Stacked key flags second (done ++ (x ++ y)) ∧ 2 ≤ second.cvStack.length := by
  have hwhole := h.whole
  have hpos := Nat.two_pow_pos j
  have hlength : (done ++ x).length = done.length + 1024 * 2 ^ j := by
    rw [List.length_append, hx]
  have hhalf : (done ++ x).length / 1024 = done.length / 1024 + 2 ^ j := by omega
  have hdvd' : 2 ^ j ∣ (done ++ x).length / 1024 := by
    rw [hhalf]
    exact (Nat.dvd_add_right hdvd).2 dvd_rfl
  obtain ⟨first, hfirst, -, hchunk, hstacked, -⟩ := h.push hP (by omega) hx hdvd
  obtain ⟨second, hsecond, -, hchunk', hstacked', htwo⟩ := hstacked.push hP hbound hy hdvd'
  rw [hhalf] at hsecond
  rw [List.append_assoc] at hstacked'
  rw [compressSubtreeToParentNode_append hP _ hx hy]
  exact ⟨first, second, hfirst, hsecond, hchunk, hchunk'.trans hchunk, hstacked',
    htwo (List.ne_nil_of_length_pos (by omega))⟩

theorem pushSubtree_pair (hP : P.Agrees) {j : Nat} (h : Progress P key flags hasher done [])
    (hbound : (done ++ x).length < 2 ^ 64) (hlong : 1024 * 2 ^ (j + 1) ≤ x.length)
    (hdvd : 2 ^ (j + 1) ∣ done.length / 1024) :
    ∃ next, hasherPushSubtree P hasher x (1024 * 2 ^ (j + 1)) = some next ∧
      Progress P key flags next (done ++ x.take (1024 * 2 ^ (j + 1))) [] ∧
      2 ≤ next.cvStack.length := by
  have hpos := Nat.two_pow_pos j
  have hpow : 2 ^ (j + 1) = 2 * 2 ^ j := Nat.pow_succ'
  have hsize : 1024 * 2 ^ (j + 1) / 1024 = 2 ^ (j + 1) := Nat.mul_div_cancel_left _ (by decide)
  have hpiece : (x.take (1024 * 2 ^ (j + 1))).length = 1024 * 2 ^ (j + 1) := by
    rw [List.length_take]
    omega
  obtain ⟨left, right, hsplit, hleft, hright⟩ : ∃ left right,
      x.take (1024 * 2 ^ (j + 1)) = left ++ right ∧ left.length = 1024 * 2 ^ j ∧
        right.length = 1024 * 2 ^ j := by
    refine ⟨_, _, (List.take_append_drop (1024 * 2 ^ j) _).symm, ?_, ?_⟩
    · rw [List.length_take]
      omega
    · rw [List.length_drop]
      omega
  rw [List.length_append] at hbound
  have hcounter : UInt64.ofNat (done.length / 1024) + UInt64.ofNat (2 ^ (j + 1)) / 2 =
      UInt64.ofNat (done.length / 1024 + 2 ^ j) := by
    have hlt : 2 ^ (j + 1) < UInt64.size := by
      unfold UInt64.size
      omega
    have hdouble : UInt64.ofNat (2 ^ (j + 1)) / 2 = UInt64.ofNat (2 ^ j) := by
      refine UInt64.toNat_inj.1 ?_
      rw [UInt64.toNat_div, UInt64.toNat_ofNat_of_lt' hlt,
        UInt64.toNat_ofNat_of_lt' (by omega)]
      exact Nat.div_eq_of_eq_mul_right (by decide) hpow
    rw [hdouble, UInt64.ofNat_add]
  obtain ⟨first, second, hfirst, hsecond, hchunk, hchunk', hstacked, htwo⟩ :=
    h.toStacked.push_pair hP (x := left) (y := right) (by rw [List.length_append]; omega) hleft
      hright ((Nat.pow_dvd_pow 2 (Nat.le_succ j)).trans hdvd)
  rw [← hsplit] at hfirst hsecond hstacked
  have hmany : ¬ 1024 * 2 ^ (j + 1) ≤ chunkLen := by
    unfold chunkLen
    omega
  refine ⟨second.addChunks (UInt64.ofNat (2 ^ (j + 1))), ?_, h.advance hstacked hchunk' hpiece,
    htwo⟩
  rw [hasherPushSubtree, if_neg hmany]
  simp only [chunkLen, hsize, h.key_eq, h.flags_eq, h.counter_eq]
  rw [hfirst, Option.bind_some, hchunk, h.counter_eq, hcounter, hsecond]
  rfl

/-- One round of the loop: what it takes is whole, and a pair is pushed last. -/
theorem pushSubtree_step (hP : P.Agrees) (h : Progress P key flags hasher done [])
    (hbound : (done ++ x).length < 2 ^ 64) (hlong : 1024 < x.length) {n : Nat}
    (hn : shrinkSubtree (roundDownToPowerOf2 x.length)
      (hasher.chunk.chunkCounter * UInt64.ofNat chunkLen) = n) :
    0 < n ∧ n ≤ x.length ∧ ∃ next, hasherPushSubtree P hasher x n = some next ∧
      Progress P key flags next (done ++ x.take n) [] ∧
      (n = x.length → 2 ≤ next.cvStack.length) := by
  have hdone : done.length < 2 ^ 64 := by
    rw [List.length_append] at hbound
    omega
  rcases subtreeLen_eq h hlong hdone with ⟨j, hj, hle, hdvd⟩
  obtain rfl : n = 1024 * 2 ^ j := hn.symm.trans hj
  cases j with
  | zero =>
      obtain ⟨next, hnext, hprogress⟩ := pushSubtree_chunk hP h hdone hlong.le
      refine ⟨by decide, hle, next, hnext, hprogress, fun heq => ?_⟩
      omega
  | succ j =>
      have hpos := Nat.two_pow_pos (j + 1)
      obtain ⟨next, hnext, hprogress, htwo⟩ := pushSubtree_pair hP h hbound hle hdvd
      exact ⟨by omega, hle, next, hnext, hprogress, fun _ => htwo⟩

theorem updateLoop_of_le (self : Hasher) (h : x.length ≤ 1024) :
    hasherUpdateLoop P self x = some (self, x) := by
  rw [hasherUpdateLoop, if_neg (by unfold chunkLen; omega)]

/-- The loop takes whole chunks, and leaves one chunk at most. -/
theorem updateLoop_progress (hP : P.Agrees) (h : Progress P key flags hasher done [])
    (hbound : (done ++ x).length < 2 ^ 64) :
    ∃ taken rest next, hasherUpdateLoop P hasher x = some (next, rest) ∧ x = taken ++ rest ∧
      rest.length ≤ 1024 ∧ Progress P key flags next (done ++ taken) [] ∧
      (rest = [] → x ≠ [] → 2 ≤ next.cvStack.length) := by
  induction hm : x.length using Nat.strong_induction_on generalizing hasher done x with
  | _ m ih =>
      by_cases hlong : 1024 < x.length
      · obtain ⟨hpos, hle, pushed, hpushed, hstep, hlast⟩ := pushSubtree_step hP h hbound hlong rfl
        rw [hasherUpdateLoop, if_pos (by exact hlong)]
        simp only
        rw [hpushed, Option.bind_some]
        generalize shrinkSubtree (roundDownToPowerOf2 x.length)
          (hasher.chunk.chunkCounter * UInt64.ofNat chunkLen) = n at hpos hle hstep hlast ⊢
        have hsplit : done ++ x = (done ++ x.take n) ++ x.drop n := by
          rw [List.append_assoc, List.take_append_drop]
        have hdrop : (x.drop n).length = m - n := by rw [List.length_drop, hm]
        rw [hsplit] at hbound
        by_cases hend : n = x.length
        · have hnil : x.drop n = [] := List.drop_of_length_le hend.ge
          have htake : x.take n = x := List.take_of_length_le hend.ge
          rw [htake] at hstep
          rw [hnil, updateLoop_of_le _ (show ([] : Bytes).length ≤ 1024 by decide)]
          exact ⟨x, [], pushed, rfl, (List.append_nil x).symm, Nat.zero_le _, hstep,
            fun _ _ => hlast hend⟩
        · obtain ⟨taken, rest, next, hnext, htaken, hshort, hprogress, htwo⟩ :=
            ih _ (by omega) hstep hbound hdrop
          have hne : x.drop n ≠ [] := List.ne_nil_of_length_pos (by omega)
          refine ⟨x.take n ++ taken, rest, next, hnext, ?_, hshort, ?_,
            fun hnil _ => htwo hnil hne⟩
          · rw [List.append_assoc, ← htaken, List.take_append_drop]
          · rwa [← List.append_assoc]
      · rw [updateLoop_of_le _ (Nat.le_of_not_lt hlong)]
        refine ⟨[], x, hasher, rfl, rfl, Nat.le_of_not_lt hlong, ?_,
          fun hnil hne => absurd hnil hne⟩
        rwa [List.append_nil]

/-- The chunk state after more bytes. -/
theorem update_chunk_eq (h : Progress P key flags hasher done tail) (x : Bytes) :
    chunkStateUpdate P hasher.chunk x =
      chunkAfter P key flags (UInt64.ofNat (done.length / 1024)) (tail ++ x) := by
  rw [h.chunk_eq, update_chunkAfter]

/-- Fill the chunk that is not whole yet, as far as the bytes go. -/
theorem Progress.fill (h : Progress P key flags hasher done tail) (x : Bytes) :
    Progress P key flags { hasher with chunk := chunkStateUpdate P hasher.chunk x } done
      (tail ++ x) := by
  refine ⟨⟨h.key_eq, ?_, h.whole, h.lazy⟩, update_chunk_eq h x⟩
  simp only
  rw [update_chunk_eq h, chunkAfter, flags_foldl]
  rfl

/-- Finish a whole chunk, when more bytes follow. -/
theorem Progress.finish (hP : P.Agrees) (h : Progress P key flags hasher done tail)
    (hbound : done.length < 2 ^ 64) (htail : tail.length = 1024) :
    ∃ pushed, hasherPushCv P hasher (outputChainingValue P (chunkStateOutput hasher.chunk))
        hasher.chunk.chunkCounter = some pushed ∧
      Progress P key flags
        { pushed with
          chunk := chunkStateReset pushed.chunk pushed.key (pushed.chunk.chunkCounter + 1) }
        (done ++ tail) [] := by
  have hwhole := h.whole
  have hne : tail ≠ [] := List.ne_nil_of_length_pos (by omega)
  obtain ⟨pushed, hpush, hkey, hchunk, hstacked, -⟩ :=
    h.toStacked.push hP hbound (j := 0) (by omega) (one_dvd _)
  rw [chunkValues_of_le _ hne (by omega), fold_singleton] at hpush
  have hvalue : outputChainingValue P (chunkStateOutput hasher.chunk) =
      chunkValue key flags (done.length / 1024) tail := by
    rw [outputChainingValue_eq hP, h.chunk_eq, output_chunkAfter hP]
    rfl
  have hcount : (done ++ tail).length / 1024 = done.length / 1024 + 1 := by
    rw [List.length_append]
    omega
  have hflags := h.flags_eq
  rw [hvalue, h.counter_eq]
  refine ⟨pushed, hpush, ⟨hstacked.key_eq, hstacked.flags_eq, hstacked.whole, hstacked.lazy⟩, ?_⟩
  simp only [chunkStateReset, hchunk, hkey, h.key_eq, hflags, h.counter_eq, hcount,
    UInt64.ofNat_add]
  rfl

/-- A partial chunk takes the first bytes: either it takes them all, or it is finished. -/
theorem finishChunk_cases (hP : P.Agrees) (h : Absorbed P key flags hasher x) (hne : y ≠ [])
    (hbound : (x ++ y).length < 2 ^ 64) :
    (∃ next, hasherFinishChunk P hasher y = some (next, []) ∧
        Absorbed P key flags next (x ++ y)) ∨
      ∃ next done rest, hasherFinishChunk P hasher y = some (next, rest) ∧
        x ++ y = done ++ rest ∧ rest ≠ [] ∧ Progress P key flags next done [] := by
  rcases h with ⟨done, tail, rfl, htail, hprogress, hmerged, htwo⟩
  by_cases hnil : tail = []
  · subst hnil
    right
    rw [hasherFinishChunk, if_neg (by rw [hprogress.len_eq]; exact Nat.lt_irrefl 0)]
    exact ⟨hasher, done, y, rfl, by rw [List.append_nil], hne, hprogress⟩
  · have hpos := List.length_pos_of_ne_nil hnil
    have htake : (if chunkLen - tail.length > y.length then y.length else chunkLen - tail.length) =
        min (1024 - tail.length) y.length := by
      unfold chunkLen
      split <;> omega
    rw [hasherFinishChunk, if_pos (by rw [hprogress.len_eq]; exact hpos), hprogress.len_eq]
    simp only [htake]
    generalize hm : min (1024 - tail.length) y.length = m
    have hfill := hprogress.fill (y.take m)
    have hlength : (tail ++ y.take m).length = tail.length + m := by
      rw [List.length_append, List.length_take]
      omega
    by_cases hmore : (y.drop m).length > 0
    · right
      simp only [List.length_append] at hbound
      rw [if_pos hmore]
      rw [List.length_drop] at hmore
      obtain ⟨pushed, hpushed, hfinish⟩ := hfill.finish hP (by omega) (by omega)
      simp only at hpushed
      rw [hpushed, Option.map_some]
      refine ⟨_, done ++ (tail ++ y.take m), y.drop m, rfl, ?_,
        List.ne_nil_of_length_pos (by rw [List.length_drop]; exact hmore), hfinish⟩
      rw [List.append_assoc, List.append_assoc, List.append_assoc, List.take_append_drop]
    · left
      rw [if_neg hmore]
      rw [List.length_drop] at hmore
      have hall : y.take m = y := List.take_of_length_le (by omega)
      have hnone : y.drop m = [] := List.drop_of_length_le (by omega)
      rw [hall] at hfill hlength ⊢
      rw [hnone]
      exact ⟨_, rfl, done, tail ++ y, List.append_assoc _ _ _, by omega, hfill,
        fun _ => hmerged hnil, fun hempty => absurd (List.append_eq_nil_iff.1 hempty).2 hne⟩

theorem Progress.merge (hP : P.Agrees) (h : Progress P key flags hasher done tail)
    (hbound : done.length < 2 ^ 64) :
    Progress P key flags (hasherMergeCvStack P hasher hasher.chunk.chunkCounter) done tail ∧
      Merged key flags done (hasherMergeCvStack P hasher hasher.chunk.chunkCounter).cvStack := by
  have hmerged := h.toStacked.merged hP hbound
  rw [← h.counter_eq] at hmerged
  refine ⟨⟨⟨h.key_eq, h.flags_eq, h.whole, Represents.lazy ?_⟩, h.chunk_eq⟩, hmerged⟩
  rw [length_chunkValues]
  exact hmerged

/-- The rest of an update, when the chunk state holds nothing. -/
theorem Progress.updateClear (hP : P.Agrees) (h : Progress P key flags hasher done [])
    (hne : x ≠ []) (hbound : (done ++ x).length < 2 ^ 64) :
    ∃ next, hasherUpdateClear P hasher x = some next ∧
      Absorbed P key flags next (done ++ x) := by
  obtain ⟨taken, rest, looped, hlooped, rfl, hshort, hprogress, htwo⟩ :=
    updateLoop_progress hP h hbound
  rw [hasherUpdateClear, hlooped, Option.map_some]
  rw [← List.append_assoc] at hbound ⊢
  rw [List.length_append] at hbound
  refine ⟨_, rfl, done ++ taken, rest, rfl, hshort, ?_⟩
  by_cases hrest : rest = []
  · subst hrest
    exact ⟨hprogress, fun hnil => absurd rfl hnil, fun _ _ => htwo rfl hne⟩
  · have hmerge := (hprogress.fill rest).merge hP (by omega)
    rw [if_pos (List.length_pos_of_ne_nil hrest)]
    exact ⟨hmerge.1, fun _ => hmerge.2, fun hnil => absurd hnil hrest⟩

/-- An update appends its bytes to what has been absorbed. -/
theorem Absorbed.update (hP : P.Agrees) (h : Absorbed P key flags hasher x)
    (hbound : (x ++ y).length < 2 ^ 64) :
    ∃ next, hasherUpdate P hasher y = some next ∧ Absorbed P key flags next (x ++ y) := by
  rw [hasherUpdate]
  by_cases hnil : y = []
  · subst hnil
    rw [if_pos List.length_nil, List.append_nil]
    exact ⟨hasher, rfl, h⟩
  · have hpos := List.length_pos_of_ne_nil hnil
    rw [if_neg (by omega)]
    rcases finishChunk_cases hP h hnil hbound with
      ⟨next, hnext, hdone⟩ | ⟨next, done, rest, hnext, hsplit, hmore, hclear⟩
    · rw [hnext, Option.bind_some, hasherUpdateClear,
        updateLoop_of_le _ (show ([] : Bytes).length ≤ 1024 by decide)]
      exact ⟨next, rfl, hdone⟩
    · rw [hsplit] at hbound ⊢
      rw [hnext, Option.bind_some]
      exact hclear.updateClear hP hmore hbound

/-- A run of updates appends one piece after another. -/
theorem Absorbed.updates (hP : P.Agrees) {pieces : List Bytes}
    (h : Absorbed P key flags hasher x) (hbound : (x ++ pieces.flatten).length < 2 ^ 64) :
    ∃ next, pieces.foldlM (hasherUpdate P) hasher = some next ∧
      Absorbed P key flags next (x ++ pieces.flatten) := by
  induction pieces generalizing hasher x with
  | nil =>
      rw [List.flatten_nil, List.append_nil]
      exact ⟨hasher, rfl, h⟩
  | cons y pieces ih =>
      rw [List.flatten_cons, ← List.append_assoc] at hbound ⊢
      have hfirst : (x ++ y).length < 2 ^ 64 := by
        rw [List.length_append] at hbound
        omega
      obtain ⟨next, hnext, habsorbed⟩ := h.update hP hfirst
      obtain ⟨last, hlast, hall⟩ := ih habsorbed hbound
      refine ⟨last, ?_, hall⟩
      rw [List.foldlM_cons, hnext]
      exact hlast

theorem absorbed_initBase (P : Platform) (key : CvWords) (flags : UInt8) :
    Absorbed P key flags (hasherInitBase key flags) [] := by
  refine ⟨[], [], rfl, Nat.zero_le _, ⟨⟨rfl, rfl, rfl, ?_⟩, rfl⟩, fun hnil => absurd rfl hnil,
    fun _ hnil => absurd rfl hnil⟩
  rw [chunkValues_nil]
  exact .empty

/-- A hasher that is reset starts anew. -/
theorem Absorbed.reset (h : Absorbed P key flags hasher x) :
    hasherReset hasher = hasherInitBase key flags := by
  rcases h with ⟨done, tail, -, -, hprogress, -⟩
  simp only [hasherReset, hasherInitBase, chunkStateReset, chunkStateInit, hprogress.key_eq,
    hprogress.flags_eq]

/-- What a hasher arrives at is the root of the bytes that it has absorbed. -/
theorem Absorbed.root (hP : P.Agrees) (h : Absorbed P key flags hasher x) :
    hasherRoot P hasher = rootNode key flags x := by
  rcases h with ⟨done, tail, rfl, htail, hprogress, hmerged, htwo⟩
  have hwhole := hprogress.whole
  have hvalue : outputChainingValue P = outputChainingValue .portable :=
    funext (outputChainingValue_eq hP)
  have hlazy := hprogress.lazy
  rw [hasherRoot, rootNode, hvalue]
  unfold chunkLen
  cases hstack : hasher.cvStack with
  | nil =>
      -- everything is in the chunk state
      rw [hstack] at hlazy
      obtain rfl : done = [] := by
        have hcount := congrArg List.length hlazy.leaves_eq_nil
        rw [length_chunkValues, chunkCount, List.length_nil] at hcount
        exact List.length_eq_zero_iff.1 (by omega)
      rw [List.nil_append, if_pos htail, hprogress.chunk_eq, output_chunkAfter hP]
      rfl
  | cons cv stack =>
      rw [hstack] at hlazy hmerged htwo
      have hcount := hlazy.length_le_leaves
      rw [length_chunkValues, List.length_cons] at hcount
      unfold chunkCount at hcount
      have hdone : done ≠ [] := List.ne_nil_of_length_pos (by omega)
      simp only [hprogress.len_eq, hprogress.key_eq, hprogress.flags_eq]
      by_cases hnil : tail = []
      · -- the top of the stack is the right subtree of some node
        subst hnil
        cases stack with
        | nil => simpa using htwo rfl hdone
        | cons left stack =>
            rw [List.length_cons] at hcount
            rw [List.append_nil, if_neg (by simp), if_neg (by omega)]
            exact Lazy.rollUp (fun a b => parentOutput (parentBlock a b) key flags)
              (outputChainingValue .portable) hlazy
      · -- the partial chunk is the rightmost leaf
        have hpos := List.length_pos_of_ne_nil hnil
        have hout : outputChainingValue .portable (chunkStateOutput hasher.chunk) =
            fold (joinCvs key flags) (chunkValues key flags (done.length / 1024) tail) := by
          rw [chunkValues_of_le _ hnil htail, fold_singleton, hprogress.chunk_eq,
            output_chunkAfter hP]
          rfl
        have hone : (chunkValues key flags (done.length / 1024) tail).length = 1 := by
          rw [chunkValues_of_le _ hnil htail, List.length_singleton]
        rw [if_pos hpos, if_neg (by rw [List.length_append]; omega),
          chunkValues_append (done.length / 1024) 0 tail (by omega), Nat.zero_add]
        exact rollUp (fun a b => parentOutput (parentBlock a b) key flags)
          (outputChainingValue .portable) (hmerged hnil) (bitIndices_pairwise _)
          (List.ne_nil_of_length_pos (by omega)) (fun e _ => hone.le.trans Nat.one_le_two_pow)
          (List.cons_ne_nil _ _) hout

/-- What a hasher writes is a window of the stream of the root. -/
theorem Absorbed.finalizeSeek (hP : P.Agrees) (h : Absorbed P key flags hasher x) (seek : UInt64)
    (n : Nat) :
    hasherFinalizeSeek P hasher seek n =
      ((rootStream (rootNode key flags x)).drop seek.toNat).take n := by
  rw [hasherFinalizeSeek, h.root hP]
  split
  · next hzero => rw [hzero, Stream'.take_zero]
  · exact outputRootBytes_eq hP seek n

/-- However the input is cut into updates and whatever the platform, no value is pushed beyond the
end of `cv_stack`, and every window of the output is that of the tree over the whole input. -/
theorem hasherUpdates_finalizeSeek (hP : P.Agrees) (key : CvWords) (flags : UInt8)
    (pieces : List Bytes) (hbound : pieces.flatten.length < 2 ^ 64) :
    ∃ hasher, pieces.foldlM (hasherUpdate P) (hasherInitBase key flags) = some hasher ∧
      ∀ seek n, hasherFinalizeSeek P hasher seek n =
        ((rootStream (rootNode key flags pieces.flatten)).drop seek.toNat).take n := by
  obtain ⟨hasher, hrun, habsorbed⟩ := (absorbed_initBase P key flags).updates hP hbound
  exact ⟨hasher, hrun, habsorbed.finalizeSeek hP⟩

/-- Two updates of one byte each. -/
theorem hasherUpdates_finalizeSeek_hi :
    ∃ hasher, [[104], [105]].foldlM (hasherUpdate .portable) hasherInit = some hasher ∧
      ∀ n, hasherFinalize .portable hasher n = (rootStream (rootNode iv 0 [104, 105])).take n := by
  obtain ⟨hasher, hrun, hout⟩ :=
    hasherUpdates_finalizeSeek Platform.portable_agrees iv 0 [[104], [105]] (by decide)
  exact ⟨hasher, hrun, hout 0⟩

end Absorbed

end Blake3
end FileExchange
