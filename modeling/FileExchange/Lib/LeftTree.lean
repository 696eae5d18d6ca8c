import Mathlib.Algebra.Group.Nat.Defs
import Mathlib.Data.List.Basic
import Mathlib.Data.Nat.Log

/-!
# Lib.LeftTree — trees that are complete from the left

The values of a list are the leaves of a binary tree whose left subtree has the largest power of
two of leaves that leaves at least one leaf for the right subtree, and so on further down.  This
module provides:

* `fold`     : the value of such a tree, with `op` at its inner nodes;
* `children` : the values of the two subtrees below the root;
* `pairUp`   : one layer of inner nodes, from left to right;
* `IsLayer`  : the values of a layer that is as wide as it may be;

and the rules by which an algorithm computes `fold` piece by piece: two neighbouring pieces
(`fold_append`), or one layer at a time (`fold_pairUp`).
-/

namespace FileExchange
namespace Lib
namespace LeftTree

universe u

/-- The leaves of the left subtree of a tree with `n` leaves. -/
def leftSize (n : Nat) : Nat :=
  2 ^ (n - 1).log2

theorem leftSize_pos (n : Nat) : 0 < leftSize n :=
  Nat.two_pow_pos _

theorem leftSize_lt {n : Nat} (h : 2 ≤ n) : leftSize n < n := by
  have hle : 2 ^ (n - 1).log2 ≤ n - 1 := Nat.log2_self_le (by omega)
  unfold leftSize
  omega

/-- The right subtree is not larger than the left one. -/
theorem leftSize_add {a r : Nat} (hpos : 0 < r) (hle : r ≤ 2 ^ a) :
    leftSize (2 ^ a + r) = 2 ^ a := by
  have hlog : (2 ^ a + r - 1).log2 = a := by
    have hpow := Nat.two_pow_pos a
    refine (Nat.log2_eq_iff (by omega)).2 ⟨by omega, ?_⟩
    rw [Nat.pow_succ]
    omega
  rw [leftSize, hlog]

/-- Every tree with at least two leaves is of this form. -/
theorem exists_leftSize_eq {n : Nat} (h : 2 ≤ n) :
    ∃ a r, n = 2 ^ a + r ∧ leftSize n = 2 ^ a ∧ 0 < r ∧ r ≤ 2 ^ a := by
  have hlt : n - 1 < 2 ^ ((n - 1).log2 + 1) := Nat.lt_log2_self
  have hleft := leftSize_lt h
  rw [Nat.pow_succ] at hlt
  unfold leftSize at hleft
  exact ⟨(n - 1).log2, n - 2 ^ (n - 1).log2, by omega, rfl, by omega, by omega⟩

variable {κ : Type u} [Inhabited κ] {op : κ → κ → κ} {vs xs ys : List κ}

/-- The value of the tree over `vs`. -/
def fold (op : κ → κ → κ) (vs : List κ) : κ :=
  if h : vs.length ≤ 1 then vs.headD default
  else
    have hlt := leftSize_lt (show 2 ≤ vs.length by omega)
    have hpos := leftSize_pos vs.length
    op (fold op (vs.take (leftSize vs.length))) (fold op (vs.drop (leftSize vs.length)))
termination_by vs.length
decreasing_by
  all_goals simp only [List.length_take, List.length_drop]; omega

/-- The values below the root of a tree with at least two leaves. -/
def children (op : κ → κ → κ) (vs : List κ) : κ × κ :=
  (fold op (vs.take (leftSize vs.length)), fold op (vs.drop (leftSize vs.length)))

@[simp] theorem fold_singleton (v : κ) : fold op [v] = v := by
  rw [fold]
  simp

theorem fold_eq_children (h : 2 ≤ vs.length) :
    fold op vs = op (children op vs).1 (children op vs).2 := by
  rw [fold, dif_neg (by omega), children]

/-- Two neighbouring pieces, of which the left one is a full left subtree. -/
theorem children_append {a : Nat} (hxs : xs.length = 2 ^ a) (hne : ys ≠ [])
    (hys : ys.length ≤ 2 ^ a) : children op (xs ++ ys) = (fold op xs, fold op ys) := by
  have hpos := List.length_pos_of_ne_nil hne
  have hleft : leftSize (xs ++ ys).length = xs.length := by
    rw [List.length_append, hxs, leftSize_add hpos hys]
  rw [children, hleft, List.take_left, List.drop_left]

theorem fold_append {a : Nat} (hxs : xs.length = 2 ^ a) (hne : ys ≠ [])
    (hys : ys.length ≤ 2 ^ a) : fold op (xs ++ ys) = op (fold op xs) (fold op ys) := by
  have hpos := List.length_pos_of_ne_nil hne
  have hpow := Nat.two_pow_pos a
  rw [fold_eq_children (by rw [List.length_append]; omega), children_append hxs hne hys]

@[simp] theorem children_pair (v w : κ) : children op [v, w] = (v, w) := by
  have h := @children_append _ _ op [v] [w] 0 rfl (by simp) (by simp)
  simpa using h

@[simp] theorem fold_pair (v w : κ) : fold op [v, w] = op v w := by
  rw [fold_eq_children (by simp), children_pair]

/-! ## One layer at a time -/

/-- The parents of the first and the second value, of the third and the fourth, and so on; a last
value without a partner is kept. -/
def pairUp (op : κ → κ → κ) : List κ → List κ
  | [] => []
  | [v] => [v]
  | v :: w :: vs => op v w :: pairUp op vs

omit [Inhabited κ] in
theorem length_pairUp : ∀ vs : List κ, (pairUp op vs).length = (vs.length + 1) / 2
  | [] => by simp [pairUp]
  | [_] => by simp [pairUp]
  | v :: w :: vs => by
      rw [pairUp, List.length_cons, length_pairUp vs, List.length_cons, List.length_cons]
      omega

omit [Inhabited κ] in
theorem pairUp_append : ∀ {xs : List κ} (ys : List κ), xs.length % 2 = 0 →
    pairUp op (xs ++ ys) = pairUp op xs ++ pairUp op ys
  | [], _, _ => rfl
  | [_], _, h => by simp at h
  | v :: w :: xs, ys, h => by
      have hxs : xs.length % 2 = 0 := by
        rw [List.length_cons, List.length_cons] at h
        omega
      rw [List.cons_append, List.cons_append, pairUp, pairUp_append ys hxs, pairUp,
        List.cons_append]

/-- The two subtrees of a tree with at least three leaves get their layers separately. -/
theorem children_pairUp_of_smaller (h : 3 ≤ vs.length)
    (hsmaller : ∀ ws : List κ, ws ≠ [] → ws.length < vs.length →
      fold op (pairUp op ws) = fold op ws) : children op (pairUp op vs) = children op vs := by
  rcases exists_leftSize_eq (show 2 ≤ vs.length by omega) with ⟨a, r, hsplit, hleft, hr, hle⟩
  -- the left subtree has at least two leaves, so no pair straddles the two subtrees
  obtain ⟨b, rfl⟩ : ∃ b, a = b + 1 := by
    cases a with
    | zero => omega
    | succ b => exact ⟨b, rfl⟩
  have hpow : 2 ^ (b + 1) = 2 * 2 ^ b := Nat.pow_succ'
  have htake : (vs.take (2 ^ (b + 1))).length = 2 ^ (b + 1) := by
    rw [List.length_take]
    omega
  have hdrop : (vs.drop (2 ^ (b + 1))).length = r := by
    rw [List.length_drop]
    omega
  have hfront : (pairUp op (vs.take (2 ^ (b + 1)))).length = 2 ^ b := by
    rw [length_pairUp, htake]
    omega
  have hback : (pairUp op (vs.drop (2 ^ (b + 1)))).length = (r + 1) / 2 := by
    rw [length_pairUp, hdrop]
  have hlayer : pairUp op vs =
      pairUp op (vs.take (2 ^ (b + 1))) ++ pairUp op (vs.drop (2 ^ (b + 1))) := by
    rw [← pairUp_append _ (by omega), List.take_append_drop]
  rw [hlayer, children_append hfront (List.ne_nil_of_length_pos (by omega)) (by omega),
    hsmaller _ (List.ne_nil_of_length_pos (by omega)) (by omega),
    hsmaller _ (List.ne_nil_of_length_pos (by omega)) (by omega), children, hleft]

/-- A layer of parents leaves the value of the tree as it is. -/
theorem fold_pairUp (h : vs ≠ []) : fold op (pairUp op vs) = fold op vs := by
  induction hn : vs.length using Nat.strong_induction_on generalizing vs with
  | _ n ih =>
      match vs, h with
      | [_], _ => rfl
      | [v, w], _ => rw [fold_pair, pairUp, pairUp, fold_singleton]
      | v :: w :: x :: vs, _ =>
          have hthree : 3 ≤ (v :: w :: x :: vs).length := by simp
          have hchildren := children_pairUp_of_smaller hthree fun ws hne hlt =>
            ih _ (hn ▸ hlt) hne rfl
          rw [fold_eq_children (by rw [length_pairUp]; omega), hchildren,
            fold_eq_children (by omega)]

theorem children_pairUp (h : 3 ≤ vs.length) : children op (pairUp op vs) = children op vs :=
  children_pairUp_of_smaller h fun _ hne _ => fold_pairUp hne

/-! ## Layers of a bounded width -/

/-- `vs` stands for the tree over the leaves `cs`, with at most `width` values or with two. -/
structure IsLayer (op : κ → κ → κ) (width : Nat) (cs vs : List κ) : Prop where
  /-- A tree that fits has its leaves as a layer. -/
  leaves : cs.length ≤ width → vs = cs
  length_le : vs.length ≤ max width 2
  /-- The root itself is never among the values of a layer. -/
  two_le : 2 ≤ cs.length → 2 ≤ vs.length
  fold : fold op vs = fold op cs
  children : 2 ≤ cs.length → children op vs = children op cs
  full : ∀ a, cs.length = 2 ^ a → width ≤ cs.length → 2 ≤ cs.length → vs.length = max width 2

theorem isLayer_leaves {width : Nat} {cs : List κ} (h : cs.length ≤ width) :
    IsLayer op width cs cs where
  leaves _ := rfl
  length_le := h.trans (Nat.le_max_left _ _)
  two_le := id
  fold := rfl
  children _ := rfl
  full _ _ hge htwo := by omega

/-- The wide side of a tree that does not fit: a power of two does not exceed its left subtree. -/
theorem width_le_left {a b r : Nat} (hle : r ≤ 2 ^ a) (hwide : 2 ^ b < 2 ^ a + r) :
    2 ^ b ≤ 2 ^ a := by
  by_contra hlt
  have hab : a < b := (Nat.pow_lt_pow_iff_right (by decide)).1 (Nat.lt_of_not_le hlt)
  have hpow : 2 ^ (a + 1) ≤ 2 ^ b := Nat.pow_le_pow_right (by decide) hab
  rw [Nat.pow_succ] at hpow
  omega

namespace IsLayer

variable {a b : Nat} {cs ds : List κ}

theorem ne_nil (h : IsLayer op (2 ^ b) cs vs) (hne : cs ≠ []) : vs ≠ [] := by
  have hpos := List.length_pos_of_ne_nil hne
  have hpow := Nat.two_pow_pos b
  by_cases hone : cs.length = 1
  · rwa [h.leaves (by omega)]
  · have htwo := h.two_le (by omega)
    exact List.ne_nil_of_length_pos (by omega)

/-- Two single leaves are a layer of their own: their parent would be the root. -/
theorem pair (hvs : IsLayer op (2 ^ b) cs vs) (hws : IsLayer op (2 ^ b) ds ys)
    (hcs : cs.length = 1) (hds : ds.length = 1) (hwide : 2 ^ b < 2) :
    IsLayer op (2 ^ b) (cs ++ ds) (vs ++ ys) := by
  have hpow := Nat.two_pow_pos b
  obtain rfl := hvs.leaves (by omega)
  obtain rfl := hws.leaves (by omega)
  have hlength : (vs ++ ys).length = 2 := by
    rw [List.length_append]
    omega
  exact
    { leaves := fun _ => rfl
      length_le := by omega
      two_le := id
      fold := rfl
      children := fun _ => rfl
      full := fun _ _ _ _ => by omega }

/-- The parents over the layers of a full left subtree and of the rest are a layer again. -/
theorem parents (hvs : IsLayer op (2 ^ b) cs vs) (hws : IsLayer op (2 ^ b) ds ys)
    (hcs : cs.length = 2 ^ a) (htwo : 2 ≤ cs.length) (hne : ds ≠ [])
    (hds : ds.length ≤ 2 ^ a) (hwide : 2 ^ b < cs.length + ds.length) :
    IsLayer op (2 ^ b) (cs ++ ds) (pairUp op (vs ++ ys)) := by
  have hleft : 2 ^ b ≤ 2 ^ a := width_le_left hds (by omega)
  have hfull : vs.length = max (2 ^ b) 2 := hvs.full a hcs (by omega) htwo
  obtain ⟨c, hc⟩ : ∃ c, max (2 ^ b) 2 = 2 ^ c := by
    rcases Nat.le_total (2 ^ b) 2 with hb | hb
    · exact ⟨1, Nat.max_eq_right hb⟩
    · exact ⟨b, Nat.max_eq_left hb⟩
  have hright := hws.length_le
  have hys := hws.ne_nil hne
  have hpos := List.length_pos_of_ne_nil hys
  have hlayer : (vs ++ ys).length = vs.length + ys.length := List.length_append
  have hparents : (pairUp op (vs ++ ys)).length = _ := length_pairUp _
  have htop : LeftTree.children op (pairUp op (vs ++ ys)) = LeftTree.children op (cs ++ ds) := by
    rw [children_pairUp (by omega), children_append (hfull.trans hc) hys (by omega),
      children_append hcs hne hds, hvs.fold, hws.fold]
  have hleaves : 2 ≤ (cs ++ ds).length := by
    rw [List.length_append]
    omega
  exact
    { leaves := fun hle => by
        rw [List.length_append] at hle
        omega
      length_le := by omega
      two_le := fun _ => by omega
      fold := by rw [fold_eq_children (by omega), htop, fold_eq_children hleaves]
      children := fun _ => htop
      full := fun e he _ _ => by
        -- the right subtree of a full tree is full as well
        rw [List.length_append, hcs] at he
        have hds' : ds.length = 2 ^ a := by
          have hpos' := List.length_pos_of_ne_nil hne
          have hae : a < e := (Nat.pow_lt_pow_iff_right (show 1 < 2 by decide)).1 (by omega)
          have hpow : 2 ^ (a + 1) ≤ 2 ^ e := Nat.pow_le_pow_right (by decide) hae
          rw [Nat.pow_succ] at hpow
          omega
        have hfull' : ys.length = max (2 ^ b) 2 := hws.full a hds' (by omega) (by omega)
        omega }

end IsLayer

end LeftTree
end Lib
end FileExchange
