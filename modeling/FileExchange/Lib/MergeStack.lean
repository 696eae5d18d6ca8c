import FileExchange.Lib.LeftTree
import Mathlib.Data.Nat.BitIndices

/-!
# Lib.MergeStack — a stack of trees that are merged late

A tree that is complete from the left is built while its leaves arrive, full subtrees of them at
a time.  The stack holds the values of full subtrees, top first; the number of leaves below it has
one bit set for each of them, except that the topmost one may still have to be merged.  Merging
goes on only until as many values are left as the number of leaves has bits, and it is put off
until the next subtree arrives.

* `Represents` : the values on a stack are those of full subtrees over its leaves;
* `carry`      : the exponents after a power of two is added;
* `merge`      : merge from the top down to a given number of values;
* `Lazy`       : a stack whose topmost value may still have to be merged;
* `rollUp`     : what lies on the stack becomes the left siblings of a last subtree.
-/

namespace FileExchange
namespace Lib
namespace MergeStack

open LeftTree

universe u

/-! ## Binary numbers as lists of exponents -/

/-- Add `2 ^ j` to the number with these exponents, the smallest first. -/
def carry : Nat → List Nat → List Nat
  | j, [] => [j]
  | j, e :: es => if e = j then carry (j + 1) es else j :: e :: es

section Carry

variable {j n : Nat} {es : List Nat}

theorem length_carry_le : ∀ (j : Nat) (es : List Nat), (carry j es).length ≤ es.length + 1
  | _, [] => le_rfl
  | j, e :: es => by
      unfold carry
      split
      · exact (length_carry_le (j + 1) es).trans (Nat.le_succ _)
      · exact le_rfl

theorem sum_carry : ∀ (j : Nat) (es : List Nat),
    ((carry j es).map fun i => 2 ^ i).sum = 2 ^ j + (es.map fun i => 2 ^ i).sum
  | _, [] => rfl
  | j, e :: es => by
      unfold carry
      split
      · next heq =>
          rw [sum_carry (j + 1) es, heq, List.map_cons, List.sum_cons, Nat.pow_succ]
          omega
      · rfl

/-- What is left is in order, if no exponent was smaller than the one that was added. -/
theorem carry_ordered : ∀ {j : Nat} {es : List Nat}, es.Pairwise (· < ·) → (∀ e ∈ es, j ≤ e) →
    (carry j es).Pairwise (· < ·) ∧ ∀ e ∈ carry j es, j ≤ e
  | j, [], _, _ => by simp [carry]
  | j, e :: es, hsorted, hle => by
      rcases List.pairwise_cons.1 hsorted with ⟨hlt, hrest⟩
      have hje := hle e List.mem_cons_self
      unfold carry
      split
      · next heq =>
          have hnext : ∀ e' ∈ es, j + 1 ≤ e' := fun e' he' => by
            have := hlt e' he'
            omega
          rcases carry_ordered hrest hnext with ⟨hordered, hbound⟩
          exact ⟨hordered, fun e' he' => Nat.le_of_succ_le (hbound e' he')⟩
      · next hne =>
          have hfirst : ∀ e' ∈ e :: es, j < e' := by
            intro e' he'
            rcases List.mem_cons.1 he' with rfl | he'
            · omega
            · have := hlt e' he'
              omega
          refine ⟨List.pairwise_cons.2 ⟨hfirst, hsorted⟩, fun e' he' => ?_⟩
          rcases List.mem_cons.1 he' with rfl | he'
          · exact le_rfl
          · exact (hfirst e' he').le

theorem bitIndices_pairwise (n : Nat) : n.bitIndices.Pairwise (· < ·) :=
  Nat.bitIndices_sorted.pairwise

theorem bitIndices_two_pow_add (h : ∀ e ∈ n.bitIndices, j ≤ e) :
    (2 ^ j + n).bitIndices = carry j n.bitIndices := by
  have hordered := (carry_ordered (bitIndices_pairwise n) h).1
  have hsum := sum_carry j n.bitIndices
  rw [Nat.sum_map_two_pow_bitIndices] at hsum
  rw [← hsum, Nat.bitIndices_sum_map_two_pow hordered.sortedLT]

theorem le_of_mem_bitIndices_of_dvd (h : 2 ^ j ∣ n) : ∀ e ∈ n.bitIndices, j ≤ e := by
  rcases h with ⟨k, rfl⟩
  intro e he
  rw [Nat.bitIndices_two_pow_mul] at he
  rcases List.mem_map.1 he with ⟨i, _, rfl⟩
  exact Nat.le_add_left _ _

/-- A number below `2 ^ k` has at most `k` bits set. -/
theorem length_bitIndices_le {k : Nat} (h : n < 2 ^ k) : n.bitIndices.length ≤ k := by
  have hsub : n.bitIndices ⊆ List.range k := fun i hi =>
    List.mem_range.2 ((Nat.pow_lt_pow_iff_right (by decide)).1
      ((Nat.two_pow_le_of_mem_bitIndices hi).trans_lt h))
  have hle := (List.subperm_of_subset Nat.bitIndices_nodup hsub).length_le
  rwa [List.length_range] at hle

end Carry

/-! ## Stacks of full subtrees -/

variable {κ ν : Type u} [Inhabited κ] {op : κ → κ → κ} {es : List Nat}
  {leaves ys seg stack : List κ} {v : κ} {e j n : Nat}

/-- The values of `stack`, top first, are those of full subtrees over consecutive pieces of
`leaves`, the last piece for the top; `es` has the heights of the subtrees. -/
inductive Represents (op : κ → κ → κ) : List Nat → List κ → List κ → Prop where
  | nil : Represents op [] [] []
  | push {e : Nat} {es : List Nat} {leaves stack seg : List κ} :
      Represents op es leaves stack → seg.length = 2 ^ e →
        Represents op (e :: es) (leaves ++ seg) (fold op seg :: stack)

namespace Represents

theorem length_stack (h : Represents op es leaves stack) : stack.length = es.length := by
  induction h with
  | nil => rfl
  | push _ _ ih => rw [List.length_cons, List.length_cons, ih]

theorem length_leaves (h : Represents op es leaves stack) :
    leaves.length = (es.map fun i => 2 ^ i).sum := by
  induction h with
  | nil => rfl
  | push _ hseg ih => rw [List.length_append, ih, hseg, List.map_cons, List.sum_cons, Nat.add_comm]

theorem ne_nil (h : Represents op es leaves stack) (hne : leaves ≠ []) : stack ≠ [] := by
  cases h with
  | nil => exact absurd rfl hne
  | push => exact List.cons_ne_nil _ _

/-- Every subtree has a leaf. -/
theorem length_le (h : Represents op es leaves stack) : stack.length ≤ leaves.length := by
  induction h with
  | nil => exact le_rfl
  | @push e _ _ _ _ _ hseg ih =>
      have hpos := Nat.two_pow_pos e
      rw [List.length_cons, List.length_append]
      omega

/-- Two subtrees of one height at the top become one. -/
theorem join (h : Represents op (e :: e :: es) leaves (v :: ys)) :
    ∃ w stack, ys = w :: stack ∧ Represents op ((e + 1) :: es) leaves (op w v :: stack) := by
  rcases h with _ | ⟨h, hseg⟩
  rcases h with _ | ⟨h, hseg'⟩
  next seg leaves stack seg' =>
    refine ⟨fold op seg', stack, rfl, ?_⟩
    have hne : seg ≠ [] := List.ne_nil_of_length_pos (hseg ▸ Nat.two_pow_pos e)
    have hlength : (seg' ++ seg).length = 2 ^ (e + 1) := by
      rw [List.length_append, hseg, hseg', Nat.pow_succ]
      omega
    have hfold : fold op (seg' ++ seg) = op (fold op seg') (fold op seg) :=
      fold_append hseg' hne hseg.le
    rw [← hfold, List.append_assoc]
    exact h.push hlength

end Represents

/-- Merge the two values at the top until at most `target` are left. -/
def merge (op : κ → κ → κ) (target : Nat) (top : κ) : List κ → List κ
  | [] => [top]
  | v :: stack =>
      if target < stack.length + 2 then merge op target (op v top) stack else top :: v :: stack

/-- A value that was pushed without merging is merged as far as the new number of leaves asks. -/
theorem merge_represents : ∀ {es : List Nat} {stack : List κ} {j : Nat} {top : κ},
    Represents op (j :: es) leaves (top :: stack) → es.Pairwise (· < ·) → (∀ e ∈ es, j ≤ e) →
      Represents op (carry j es) leaves (merge op (carry j es).length top stack)
  | [], stack, j, top, h, _, _ => by
      have hlength := h.length_stack
      obtain rfl : stack = [] := List.length_eq_zero_iff.1 (by simpa using hlength)
      exact h
  | e :: es, stack, j, top, h, hsorted, hle => by
      rcases List.pairwise_cons.1 hsorted with ⟨hlt, hrest⟩
      by_cases heq : e = j
      · subst heq
        rcases h.join with ⟨v, stack, rfl, hjoin⟩
        have hlength := hjoin.length_stack
        simp only [List.length_cons, Nat.add_right_cancel_iff] at hlength
        have hfewer := length_carry_le (e + 1) es
        have hcarry : carry e (e :: es) = carry (e + 1) es := by simp [carry]
        rw [hcarry, merge, if_pos (by omega)]
        exact merge_represents hjoin hrest hlt
      · -- the exponents are in order already
        have hcarry : carry j (e :: es) = j :: e :: es := by simp [carry, heq]
        rcases stack with _ | ⟨v, stack⟩
        · simpa using h.length_stack
        · have hlength := h.length_stack
          simp only [List.length_cons, Nat.add_right_cancel_iff] at hlength
          rw [hcarry, merge, if_neg (by simp [hlength])]
          exact h

/-! ## Lazy stacks -/

/-- The subtrees on the stack are those of a binary number and one more, not higher than them. -/
inductive Lazy (op : κ → κ → κ) : List κ → List κ → Prop where
  | empty : Lazy op [] []
  | top {j n : Nat} {leaves stack : List κ} {v : κ} :
      Represents op (j :: n.bitIndices) leaves (v :: stack) → (∀ e ∈ n.bitIndices, j ≤ e) →
        Lazy op leaves (v :: stack)

/-- `merge` on a stack that may be empty. -/
def mergeAll (op : κ → κ → κ) (target : Nat) : List κ → List κ
  | [] => []
  | v :: stack => merge op target v stack

theorem Lazy.mergeAll (h : Lazy op leaves stack) :
    Represents op leaves.length.bitIndices leaves
      (MergeStack.mergeAll op leaves.length.bitIndices.length stack) := by
  cases h with
  | empty =>
      rw [List.length_nil, Nat.bitIndices_zero]
      exact .nil
  | @top j n _ stack v h hle =>
      have hlength := h.length_leaves
      rw [List.map_cons, List.sum_cons, Nat.sum_map_two_pow_bitIndices] at hlength
      rw [hlength, bitIndices_two_pow_add hle]
      exact merge_represents h (bitIndices_pairwise n) hle

theorem Lazy.length_le_leaves (h : Lazy op leaves stack) : stack.length ≤ leaves.length := by
  cases h with
  | empty => exact le_rfl
  | top h _ => exact h.length_le

theorem Lazy.leaves_eq_nil (h : Lazy op leaves []) : leaves = [] := by
  cases h
  rfl

/-- Push a subtree on a stack that is merged. -/
theorem Lazy.push (h : Represents op leaves.length.bitIndices leaves stack)
    (hseg : seg.length = 2 ^ j) (hdvd : 2 ^ j ∣ leaves.length) :
    Lazy op (leaves ++ seg) (fold op seg :: stack) :=
  .top (h.push hseg) (le_of_mem_bitIndices_of_dvd hdvd)

/-- A merged stack is a lazy one on which nothing is left to do. -/
theorem Represents.lazy (h : Represents op leaves.length.bitIndices leaves stack) :
    Lazy op leaves stack := by
  generalize hes : leaves.length.bitIndices = es at h
  have hordered := bitIndices_pairwise leaves.length
  rw [hes] at hordered
  cases h with
  | nil => exact .empty
  | @push e es _ stack seg h hseg =>
      rcases List.pairwise_cons.1 hordered with ⟨hlt, hrest⟩
      have hbits : (es.map fun i => 2 ^ i).sum.bitIndices = es :=
        Nat.bitIndices_sum_map_two_pow hrest.sortedLT
      refine .top (j := e) (n := (es.map fun i => 2 ^ i).sum) ?_ fun e' he' => ?_
      · rw [hbits]
        exact h.push hseg
      · rw [hbits] at he'
        exact (hlt e' he').le

/-! ## Rolling up -/

variable {parent : κ → κ → ν} {value : ν → κ}

/-- The top of the stack becomes the left sibling of a last subtree, the next value that of their
parent, and so on; what comes out is the node over the children of the whole tree. -/
theorem rollUp_value
    (h : Represents (fun a b => value (parent a b)) es leaves (v :: stack))
    (hsorted : es.Pairwise (· < ·)) (hne : ys ≠ []) (hle : ∀ e ∈ es, ys.length ≤ 2 ^ e) :
    stack.foldl (fun node w => parent w (value node))
        (parent v (fold (fun a b => value (parent a b)) ys)) =
      parent (children (fun a b => value (parent a b)) (leaves ++ ys)).1
        (children (fun a b => value (parent a b)) (leaves ++ ys)).2 := by
  generalize hs : v :: stack = all at h
  induction h generalizing ys v stack with
  | nil => cases hs
  | @push e es leaves stack seg h hseg ih =>
      cases hs
      rcases List.pairwise_cons.1 hsorted with ⟨hlt, hrest⟩
      have hys := hle e List.mem_cons_self
      rw [List.append_assoc]
      rcases stack with _ | ⟨w, stack⟩
      · -- the subtree at the bottom is the left one below the root
        obtain rfl : es = [] := List.length_eq_zero_iff.1 h.length_stack.symm
        obtain rfl : leaves = [] := List.length_eq_zero_iff.1 h.length_leaves
        rw [List.foldl_nil, List.nil_append, children_append hseg hne hys]
      · have hfold : fold (fun a b => value (parent a b)) (seg ++ ys) =
            value (parent (fold _ seg) (fold _ ys)) := fold_append hseg hne hys
        rw [List.foldl_cons, ← hfold]
        refine ih hrest (by simp [hne]) (fun e' he' => ?_) rfl
        have hpow : 2 ^ (e + 1) ≤ 2 ^ e' := Nat.pow_le_pow_right (by decide) (hlt e' he')
        rw [Nat.pow_succ] at hpow
        rw [List.length_append, hseg]
        omega

variable (parent value)

/-- Rolling up from a node instead of its value. -/
theorem rollUp {out : ν} (h : Represents (fun a b => value (parent a b)) es leaves stack)
    (hsorted : es.Pairwise (· < ·)) (hne : ys ≠ []) (hle : ∀ e ∈ es, ys.length ≤ 2 ^ e)
    (hstack : stack ≠ []) (hout : value out = fold (fun a b => value (parent a b)) ys) :
    stack.foldl (fun node w => parent w (value node)) out =
      parent (children (fun a b => value (parent a b)) (leaves ++ ys)).1
        (children (fun a b => value (parent a b)) (leaves ++ ys)).2 := by
  cases stack with
  | nil => exact absurd rfl hstack
  | cons v stack =>
      rw [List.foldl_cons, hout]
      exact rollUp_value h hsorted hne hle

/-- Rolling up a lazy stack, whose top is the last subtree. -/
theorem Lazy.rollUp {w : κ} (h : Lazy (fun a b => value (parent a b)) leaves (v :: w :: stack)) :
    stack.foldl (fun node u => parent u (value node)) (parent w v) =
      parent (children (fun a b => value (parent a b)) leaves).1
        (children (fun a b => value (parent a b)) leaves).2 := by
  rcases h with _ | ⟨h, hle⟩
  rcases h with _ | ⟨h, hseg⟩
  next j n leaves seg =>
    have hne : seg ≠ [] := List.ne_nil_of_length_pos (hseg ▸ Nat.two_pow_pos _)
    refine rollUp_value h (bitIndices_pairwise _) hne fun e he => ?_
    rw [hseg]
    exact Nat.pow_le_pow_right (by decide) (hle e he)

end MergeStack
end Lib
end FileExchange
