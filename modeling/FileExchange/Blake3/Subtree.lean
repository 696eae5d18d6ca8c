import FileExchange.Blake3.ChunkState
import FileExchange.Lib.LeftTree

/-!
# Blake3.Subtree — hashing a subtree of chunks with SIMD parallelism

* `compressChunksParallel`, `compressParentsParallel` : one layer of the tree;
* `compressSubtreeWide`         : the chaining values of a layer with about as many nodes as the
  SIMD degree;
* `compressSubtreeToParentNode` : the two chaining values below the root of a subtree;
* `chunkValues`                 : the chaining values of the chunks of an input.

Whatever the SIMD degree, the two values are those of a tree over the chunks that is complete from
the left (`compressSubtreeToParentNode_eq`).
-/

namespace FileExchange
namespace Blake3

open Lib.LeftTree

instance : Inhabited Cv :=
  ⟨.replicate 32 0⟩

/-- The block of a parent: the chaining values of its children. -/
def parentBlock (left right : Cv) : Block :=
  left ++ right

/-- Largest power of two less than or equal to `x`, and 1 for 0: the highest bit of `x | 1`. -/
def roundDownToPowerOf2 (x : Nat) : Nat :=
  1 <<< (x ||| 1).log2

theorem roundDownToPowerOf2_of_pos {x : Nat} (h : 0 < x) : roundDownToPowerOf2 x = 2 ^ x.log2 := by
  have hlog : (x ||| 1).log2 = x.log2 := by
    have hle : 2 ^ x.log2 ≤ x := Nat.log2_self_le (by omega)
    have hlt : x < 2 ^ (x.log2 + 1) := Nat.lt_log2_self
    have hge : x ≤ x ||| 1 := Nat.left_le_or
    have hone : 1 < 2 ^ (x.log2 + 1) := Nat.one_lt_two_pow (Nat.succ_ne_zero _)
    exact (Nat.log2_eq_iff (by omega)).2 ⟨hle.trans hge, Nat.or_lt_two_pow hlt hone⟩
  rw [roundDownToPowerOf2, hlog, Nat.one_shiftLeft]

def leftSubtreeLen (inputLen : Nat) : Nat :=
  let fullChunks := (inputLen - 1) / chunkLen
  roundDownToPowerOf2 fullChunks * chunkLen

/-- The number of chunks of an input that is not empty. -/
def chunkCount (inputLen : Nat) : Nat :=
  (inputLen + 1023) / 1024

theorem leftSubtreeLen_eq {n : Nat} (h : 1024 < n) :
    leftSubtreeLen n = 1024 * leftSize (chunkCount n) := by
  have hcount : chunkCount n - 1 = (n - 1) / 1024 := by
    unfold chunkCount
    omega
  simp only [leftSubtreeLen, chunkLen]
  rw [roundDownToPowerOf2_of_pos (by omega), leftSize, hcount, Nat.mul_comm]

/-- The left subtree is whole, and the right one is not empty. -/
theorem leftSubtreeLen_lt {n : Nat} (h : 1024 < n) : leftSubtreeLen n < n := by
  have hlt := leftSize_lt (show 2 ≤ chunkCount n by unfold chunkCount; omega)
  rw [leftSubtreeLen_eq h]
  unfold chunkCount at hlt ⊢
  omega

theorem leftSubtreeLen_pos {n : Nat} (h : 1024 < n) : 0 < leftSubtreeLen n := by
  have hpos := leftSize_pos (chunkCount n)
  rw [leftSubtreeLen_eq h]
  omega

/-- The whole chunks of an input, and what remains behind them. -/
def chunksArray (input : Bytes) : List Bytes × Bytes :=
  if chunkLen ≤ input.length then
    let rest := chunksArray (input.drop chunkLen)
    (input.take chunkLen :: rest.1, rest.2)
  else ([], input)
termination_by input.length
decreasing_by
  unfold chunkLen at *
  rw [List.length_drop]
  omega

/-- The blocks of the parents of neighbouring chaining values, and a last one left over. -/
def parentsArray : List Cv → List Bytes × List Cv
  | [] => ([], [])
  | [v] => ([], [v])
  | v :: w :: cvs => ((parentBlock v w).toList :: (parentsArray cvs).1, (parentsArray cvs).2)

section Functions

variable (P : Platform) (key : CvWords) (flags : UInt8)

def compressChunksParallel (input : Bytes) (chunkCounter : UInt64) : List Cv :=
  let chunks := chunksArray input
  let out := P.hashMany (chunkLen / blockLen) key true flags chunkStart chunkEnd chunks.1
    chunkCounter
  -- the remaining partial chunk
  if chunks.2.length > 0 then
    let counter := chunkCounter + UInt64.ofNat chunks.1.length
    let chunkState := { chunkStateInit key flags with chunkCounter := counter }
    let chunkState := chunkStateUpdate P chunkState chunks.2
    out ++ [outputChainingValue P (chunkStateOutput chunkState)]
  else out

def compressParentsParallel (childChainingValues : List Cv) : List Cv :=
  let parents := parentsArray childChainingValues
  P.hashMany 1 key false (flags ||| parentFlag) 0 0 parents.1 0 ++ parents.2

/-- `cv_array`, with room for `degree` values in front of those of the right subtree. -/
def cvArray (degree : Nat) (left right : List Cv) : List Cv :=
  left ++ List.replicate (degree - left.length) default ++ right

/-- `blake3_compress_subtree_wide`, without TBB. -/
def compressSubtreeWide (input : Bytes) (chunkCounter : UInt64) : List Cv :=
  if h : input.length ≤ P.simdDegree.lanes * chunkLen then
    compressChunksParallel P key flags input chunkCounter
  else
    have hlong : 1024 < input.length := by
      have hpos := P.simdDegree.lanes_pos
      unfold chunkLen at h
      omega
    have hlt := leftSubtreeLen_lt hlong
    have hpos := leftSubtreeLen_pos hlong
    let leftInputLen := leftSubtreeLen input.length
    let rightChunkCounter := chunkCounter + UInt64.ofNat (leftInputLen / chunkLen)
    -- at least two outputs, except at the chunk level
    let degree :=
      if leftInputLen > chunkLen ∧ P.simdDegree.lanes = 1 then 2 else P.simdDegree.lanes
    let left := compressSubtreeWide (input.take leftInputLen) chunkCounter
    let right := compressSubtreeWide (input.drop leftInputLen) rightChunkCounter
    let cvs := cvArray degree left right
    if left.length = 1 then cvs.take 2
    else compressParentsParallel P key flags (cvs.take (left.length + right.length))
termination_by input.length
decreasing_by
  all_goals simp only [List.length_take, List.length_drop]; omega

/-- The loop that condenses the values to two, with a bound on its rounds. -/
def condense : Nat → List Cv → List Cv
  | 0, cvs => cvs
  | fuel + 1, cvs =>
      if cvs.length > 2 then condense fuel (compressParentsParallel P key flags cvs) else cvs

/-- The chaining values of the two children that a subtree of more than one chunk has. -/
def compressSubtreeToParentNode (input : Bytes) (chunkCounter : UInt64) : Cv × Cv :=
  let cvs := compressSubtreeWide P key flags input chunkCounter
  let cvs := condense P key flags cvs.length cvs
  (cvs.getD 0 default, cvs.getD 1 default)

end Functions

/-! ## The chaining values of the chunks -/

section Chunks

variable {P : Platform} {key : CvWords} {flags : UInt8}

/-- The chaining value of chunk `i`. -/
def chunkValue (key : CvWords) (flags : UInt8) (i : Nat) (x : Bytes) : Cv :=
  outputChainingValue .portable (chunkNode (UInt64.ofNat i) flags key chunkStart x)

/-- The chaining values of the chunks of an input, from chunk `i` on. -/
def chunkValues (key : CvWords) (flags : UInt8) (i : Nat) (x : Bytes) : List Cv :=
  if h : x = [] then []
  else
    have hpos := List.length_pos_of_ne_nil h
    chunkValue key flags i (x.take 1024) :: chunkValues key flags (i + 1) (x.drop 1024)
termination_by x.length
decreasing_by
  rw [List.length_drop]
  omega

@[simp] theorem chunkValues_nil (key : CvWords) (flags : UInt8) (i : Nat) :
    chunkValues key flags i [] = [] := by
  rw [chunkValues, dif_pos rfl]

theorem chunkValues_of_ne_nil {x : Bytes} (i : Nat) (h : x ≠ []) :
    chunkValues key flags i x =
      chunkValue key flags i (x.take 1024) :: chunkValues key flags (i + 1) (x.drop 1024) := by
  rw [chunkValues, dif_neg h]

theorem length_chunkValues (i : Nat) (x : Bytes) :
    (chunkValues key flags i x).length = chunkCount x.length := by
  induction hn : x.length using Nat.strong_induction_on generalizing i x with
  | _ n ih =>
      by_cases h : x = []
      · subst h
        rw [chunkValues_nil, ← hn]
        rfl
      · have hpos := List.length_pos_of_ne_nil h
        have hdrop : (x.drop 1024).length = n - 1024 := by
          rw [List.length_drop, hn]
        rw [chunkValues_of_ne_nil i h, List.length_cons, ih _ (by omega) _ _ hdrop]
        unfold chunkCount
        omega

/-- Whole chunks in front of more input. -/
theorem chunkValues_append : ∀ (m i : Nat) {x : Bytes} (y : Bytes), x.length = 1024 * m →
    chunkValues key flags i (x ++ y) =
      chunkValues key flags i x ++ chunkValues key flags (i + m) y
  | 0, i, x, y, h => by
      obtain rfl : x = [] := List.length_eq_zero_iff.1 h
      rw [List.nil_append, chunkValues_nil, List.nil_append, Nat.add_zero]
  | m + 1, i, x, y, h => by
      have hx : x ≠ [] := List.ne_nil_of_length_pos (by omega)
      have hdrop : (x.drop 1024).length = 1024 * m := by
        rw [List.length_drop]
        omega
      have hle : 1024 ≤ x.length := by omega
      rw [chunkValues_of_ne_nil i (by simp [hx]), chunkValues_of_ne_nil i hx,
        List.take_append_of_le_length hle, List.drop_append_of_le_length hle,
        chunkValues_append m (i + 1) y hdrop, List.cons_append, Nat.add_right_comm, Nat.add_assoc]

theorem chunkValues_of_le {x : Bytes} (i : Nat) (hne : x ≠ []) (h : x.length ≤ 1024) :
    chunkValues key flags i x = [chunkValue key flags i x] := by
  rw [chunkValues_of_ne_nil i hne, List.take_of_length_le h, List.drop_of_length_le h,
    chunkValues_nil]

/-- The chaining value of the parent of two nodes. -/
def joinCvs (key : CvWords) (flags : UInt8) (left right : Cv) : Cv :=
  outputChainingValue .portable (parentOutput (parentBlock left right) key flags)

theorem outputChainingValue_eq (hP : P.Agrees) (out : Output) :
    outputChainingValue P out = outputChainingValue .portable out := by
  rw [outputChainingValue, hP.compressInPlace]
  rfl

/-- The value of one chunk, as it is computed for a partial chunk. -/
theorem outputChainingValue_update (hP : P.Agrees) (i : Nat) (x : Bytes) :
    outputChainingValue P (chunkStateOutput (chunkStateUpdate P
      { chunkStateInit key flags with chunkCounter := UInt64.ofNat i } x)) =
      chunkValue key flags i x := by
  rw [chunkStateUpdate_eq_foldl (tidy_init key flags _), outputChainingValue_eq hP]
  exact congrArg _ (output_chunkAfter hP x)

/-- The chunks in parallel and the partial chunk behind them. -/
theorem hashMany_chunks (hP : P.Agrees) (i : Nat) (x : Bytes) :
    P.hashMany (chunkLen / blockLen) key true flags chunkStart chunkEnd (chunksArray x).1
        (UInt64.ofNat i) ++
      (if (chunksArray x).2.length > 0 then
        [chunkValue key flags (i + (chunksArray x).1.length) (chunksArray x).2]
      else []) = chunkValues key flags i x := by
  rw [hP.hashMany]
  induction hn : x.length using Nat.strong_induction_on generalizing i x with
  | _ n ih =>
      rw [chunksArray]
      by_cases hchunk : 1024 ≤ x.length
      · have hne : x ≠ [] := List.ne_nil_of_length_pos (by omega)
        have hdrop : (x.drop 1024).length = n - 1024 := by
          rw [List.length_drop, hn]
        have htake : (x.take 1024).length = 1024 := by
          rw [List.length_take]
          omega
        have hrest := ih _ (by omega) (i + 1) _ hdrop
        have hcounter : UInt64.ofNat i + 1 = UInt64.ofNat (i + 1) := by
          rw [UInt64.ofNat_add]
          rfl
        have hindex : i + ((chunksArray (x.drop 1024)).1.length + 1) =
            i + 1 + (chunksArray (x.drop 1024)).1.length := by omega
        rw [if_pos (by exact hchunk), chunkValues_of_ne_nil i hne, ← hrest]
        simp only [hashManyPortable, hashEach, if_true, List.length_cons, List.cons_append,
          hcounter, chunkLen, hindex]
        exact congrArg (· :: _) (hashOnePortable_chunk htake)
      · rw [if_neg (by exact hchunk)]
        by_cases hne : x = []
        · subst hne
          simp [hashManyPortable, hashEach]
        · have hpos := List.length_pos_of_ne_nil hne
          have hshort : x.length ≤ 1024 := by omega
          simp [hashManyPortable, hashEach, hpos, chunkValues_of_le i hne hshort]

theorem compressChunksParallel_eq (hP : P.Agrees) (i : Nat) (x : Bytes) :
    compressChunksParallel P key flags x (UInt64.ofNat i) = chunkValues key flags i x := by
  rw [← hashMany_chunks hP, compressChunksParallel, ← outputChainingValue_update hP,
    UInt64.ofNat_add]
  simp only
  split
  · rfl
  · rw [List.append_nil]

theorem hashMany_parents : ∀ cvs : List Cv,
    hashManyPortable 1 key false (flags ||| parentFlag) 0 0 (parentsArray cvs).1 0 ++
      (parentsArray cvs).2 = pairUp (joinCvs key flags) cvs
  | [] => rfl
  | [_] => rfl
  | v :: w :: cvs => by
      have hrest := hashMany_parents cvs
      have hparent := @hashOnePortable_parent key flags (parentBlock v w)
      rw [hashManyPortable] at hrest ⊢
      rw [hashOnePortable] at hparent
      simp only [parentsArray, hashEach, Bool.false_eq_true, if_false, List.cons_append, pairUp]
      rw [hrest, hparent]
      rfl

theorem compressParentsParallel_eq (hP : P.Agrees) (cvs : List Cv) :
    compressParentsParallel P key flags cvs = pairUp (joinCvs key flags) cvs := by
  rw [← hashMany_parents, compressParentsParallel, hP.hashMany]

theorem cvArray_eq {degree : Nat} {left : List Cv} (right : List Cv) (h : left.length = degree) :
    cvArray degree left right = left ++ right := by
  rw [cvArray, h, Nat.sub_self, List.replicate_zero, List.append_nil]

/-- A long input is split where the tree over its chunks is. -/
theorem exists_split {x : Bytes} (h : 1024 < x.length) :
    ∃ a y z, x = y ++ z ∧ leftSubtreeLen x.length = y.length ∧ y.length = 1024 * 2 ^ a ∧
      0 < z.length ∧ z.length ≤ 1024 * 2 ^ a := by
  rcases exists_leftSize_eq (show 2 ≤ chunkCount x.length by unfold chunkCount; omega) with
    ⟨a, r, hcount, hleft, hr, hle⟩
  have hlen : leftSubtreeLen x.length = 1024 * 2 ^ a := by
    rw [leftSubtreeLen_eq h, hleft]
  have htake : (x.take (1024 * 2 ^ a)).length = 1024 * 2 ^ a := by
    unfold chunkCount at hcount
    rw [List.length_take]
    omega
  have hdrop : (x.drop (1024 * 2 ^ a)).length = x.length - 1024 * 2 ^ a := List.length_drop
  unfold chunkCount at hcount
  exact ⟨a, x.take (1024 * 2 ^ a), x.drop (1024 * 2 ^ a), (List.take_append_drop _ _).symm,
    hlen.trans htake.symm, htake, by omega, by omega⟩

theorem compressSubtreeWide_append {y z : Bytes} (chunkCounter : UInt64)
    (hwide : ¬(y ++ z).length ≤ P.simdDegree.lanes * chunkLen)
    (hleft : leftSubtreeLen (y ++ z).length = y.length) :
    compressSubtreeWide P key flags (y ++ z) chunkCounter =
      let degree := if y.length > chunkLen ∧ P.simdDegree.lanes = 1 then 2
        else P.simdDegree.lanes
      let left := compressSubtreeWide P key flags y chunkCounter
      let right := compressSubtreeWide P key flags z
        (chunkCounter + UInt64.ofNat (y.length / chunkLen))
      if left.length = 1 then (cvArray degree left right).take 2
      else compressParentsParallel P key flags
        ((cvArray degree left right).take (left.length + right.length)) := by
  rw [compressSubtreeWide, dif_neg hwide]
  simp only [hleft, List.take_left, List.drop_left]

/-- The values of the wide helper are a layer of the tree over the chunks. -/
theorem compressSubtreeWide_isLayer (hP : P.Agrees) (i : Nat) (x : Bytes) (hne : x ≠ []) :
    IsLayer (joinCvs key flags) P.simdDegree.lanes (chunkValues key flags i x)
      (compressSubtreeWide P key flags x (UInt64.ofNat i)) := by
  induction hn : x.length using Nat.strong_induction_on generalizing i x with
  | _ n ih =>
      have hpos := List.length_pos_of_ne_nil hne
      by_cases hfits : x.length ≤ P.simdDegree.lanes * chunkLen
      · rw [compressSubtreeWide, dif_pos hfits, compressChunksParallel_eq hP]
        refine isLayer_leaves ?_
        unfold chunkLen at hfits
        rw [length_chunkValues]
        unfold chunkCount
        omega
      · rcases P.simdDegree.exists_lanes_eq with ⟨b, hlanes, -⟩
        have hlong : 1024 < x.length := by
          have hlanesPos := P.simdDegree.lanes_pos
          unfold chunkLen at hfits
          omega
        rcases exists_split hlong with ⟨a, y, z, rfl, hleft, hy, hz, hzle⟩
        have hlt := leftSubtreeLen_lt hlong
        have hpow := Nat.two_pow_pos a
        have hpow' := Nat.two_pow_pos b
        have hyne : y ≠ [] := List.ne_nil_of_length_pos (by omega)
        have hzne : z ≠ [] := List.ne_nil_of_length_pos hz
        rw [List.length_append] at hn
        have ihLeft := ih y.length (by omega) i y hyne rfl
        have ihRight := ih z.length (by omega) (i + 2 ^ a) z hzne rfl
        have hcounter : UInt64.ofNat i + UInt64.ofNat (y.length / chunkLen) =
            UInt64.ofNat (i + 2 ^ a) := by
          rw [UInt64.ofNat_add, hy, chunkLen, Nat.mul_div_cancel_left _ (by decide)]
        have hcs : (chunkValues key flags i y).length = 2 ^ a := by
          rw [length_chunkValues, chunkCount, hy]
          omega
        have hds : (chunkValues key flags (i + 2 ^ a) z).length = chunkCount z.length :=
          length_chunkValues _ _
        rw [compressSubtreeWide_append _ hfits hleft, hcounter, chunkValues_append _ _ _ hy]
        unfold chunkLen at hfits ⊢
        unfold chunkCount at hds
        rw [List.length_append] at hfits
        rw [hlanes] at ihLeft ihRight hfits ⊢
        by_cases hone : 2 ^ a = 1
        · -- two chunks on a platform without SIMD: their parent is left to the caller
          have hleaf : (compressSubtreeWide P key flags y (UInt64.ofNat i)).length = 1 := by
            rw [ihLeft.leaves (by omega), hcs, hone]
          have hleaf' : (compressSubtreeWide P key flags z (UInt64.ofNat (i + 2 ^ a))).length =
              1 := by
            rw [ihRight.leaves (by omega), hds]
            omega
          have hdegree : 2 ^ b = 1 := by omega
          have hpair := ihLeft.pair ihRight (by omega) (by omega) (by omega)
          simp only
          rw [if_pos hleaf, if_neg (by omega), hdegree, cvArray_eq _ hleaf,
            List.take_of_length_le (by rw [List.length_append]; omega)]
          rwa [hdegree] at hpair
        · have hwide : 2 ^ b ≤ 2 ^ a := width_le_left (r := chunkCount z.length)
            (by unfold chunkCount; omega) (by unfold chunkCount; omega)
          have hfull := ihLeft.full a hcs (by omega) (by omega)
          have hdegree : (if y.length > 1024 ∧ 2 ^ b = 1 then 2 else 2 ^ b) = max (2 ^ b) 2 := by
            split
            · omega
            · omega
          simp only
          rw [if_neg (by omega), hdegree, cvArray_eq _ hfull, ← List.length_append,
            List.take_length, compressParentsParallel_eq hP]
          exact ihLeft.parents ihRight hcs (by omega) (List.ne_nil_of_length_pos (by omega))
            (by omega) (by omega)

theorem condense_eq (hP : P.Agrees) : ∀ (fuel : Nat) {cvs : List Cv}, 2 ≤ cvs.length →
    cvs.length ≤ fuel + 2 →
    condense P key flags fuel cvs =
      [(children (joinCvs key flags) cvs).1, (children (joinCvs key flags) cvs).2]
  | fuel, [v, w], _, _ => by
      rw [children_pair]
      cases fuel <;> rfl
  | 0, v :: w :: x :: cvs, _, h => by simp at h
  | fuel + 1, v :: w :: x :: cvs, _, h => by
      have hlong : 3 ≤ (v :: w :: x :: cvs).length := by simp
      have hlength : (pairUp (joinCvs key flags) (v :: w :: x :: cvs)).length = _ :=
        length_pairUp _
      rw [condense, if_pos (by omega), compressParentsParallel_eq hP,
        condense_eq hP fuel (by omega) (by omega), children_pairUp hlong]

/-- Whatever the platform, the pair is that of the tree over the chunks. -/
theorem compressSubtreeToParentNode_eq (hP : P.Agrees) (i : Nat) {x : Bytes}
    (h : 1024 < x.length) :
    compressSubtreeToParentNode P key flags x (UInt64.ofNat i) =
      children (joinCvs key flags) (chunkValues key flags i x) := by
  have hlayer : IsLayer (joinCvs key flags) _ (chunkValues key flags i x) _ :=
    compressSubtreeWide_isLayer hP i x (List.ne_nil_of_length_pos (by omega))
  have htwo : 2 ≤ (chunkValues key flags i x).length := by
    rw [length_chunkValues]
    unfold chunkCount
    omega
  rw [compressSubtreeToParentNode, condense_eq hP _ (hlayer.two_le htwo) (by omega),
    ← hlayer.children htwo]
  rfl

/-- The pair of two neighbouring subtrees of the same size. -/
theorem compressSubtreeToParentNode_append (hP : P.Agrees) {j : Nat} (i : Nat) {x y : Bytes}
    (hx : x.length = 1024 * 2 ^ j) (hy : y.length = 1024 * 2 ^ j) :
    compressSubtreeToParentNode P key flags (x ++ y) (UInt64.ofNat i) =
      (fold (joinCvs key flags) (chunkValues key flags i x),
        fold (joinCvs key flags) (chunkValues key flags (i + 2 ^ j) y)) := by
  have hpos := Nat.two_pow_pos j
  have hleft : (chunkValues key flags i x).length = 2 ^ j := by
    rw [length_chunkValues, chunkCount, hx]
    omega
  have hright : (chunkValues key flags (i + 2 ^ j) y).length = 2 ^ j := by
    rw [length_chunkValues, chunkCount, hy]
    omega
  rw [compressSubtreeToParentNode_eq hP _ (by rw [List.length_append]; omega),
    chunkValues_append _ _ _ hx,
    children_append hleft (List.ne_nil_of_length_pos (by omega)) hright.le]

/-- The assertion of `compress_subtree_to_parent_node`, with `MAX_SIMD_DEGREE_OR_2` for x86. -/
theorem length_compressSubtreeWide_le (hP : P.Agrees) (i : Nat) {x : Bytes} (h : x ≠ []) :
    (compressSubtreeWide P key flags x (UInt64.ofNat i)).length ≤ 16 := by
  rcases P.simdDegree.exists_lanes_eq with ⟨b, hlanes, hb⟩
  have hlayer : IsLayer (joinCvs key flags) _ (chunkValues key flags i x) _ :=
    compressSubtreeWide_isLayer hP i x h
  have hle : 2 ^ b ≤ 2 ^ 4 := Nat.pow_le_pow_right (by decide) hb
  have hlength := hlayer.length_le
  omega

end Chunks

end Blake3
end FileExchange
