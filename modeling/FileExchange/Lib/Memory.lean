import Mathlib.Data.List.Basic

/-!
# Lib.Memory — memory that is filled piece by piece

A block of memory is a list of cells; a store puts a list of values at an address of it.  After a
series of stores a cell holds what the last store that covers it put there, or what it held
before, so the block depends on its earlier contents in the uncovered cells and nowhere else.

* `storeAll`        : a series of stores, first one first;
* `Covered`         : the cells that a series sets;
* `storeAll_eq_iff` : two blocks become equal if and only if they agree in the other cells;
* `load`            : some cells from an address on, with its values after a store.
-/

namespace FileExchange
namespace Lib
namespace Memory

universe u

/-- The values that are put at an address. -/
structure Store (α : Type u) where
  addr : Nat
  data : List α
  deriving DecidableEq, Repr

variable {α : Type u} {mem mem' : List α} {s : Store α} {ss : List (Store α)} {i : Nat}

/-- The first address behind the store. -/
def Store.stop (s : Store α) : Nat :=
  s.addr + s.data.length

@[simp] theorem stop_mk (addr : Nat) (data : List α) :
    (Store.mk addr data).stop = addr + data.length := rfl

def store (mem : List α) (s : Store α) : List α :=
  mem.take s.addr ++ s.data ++ mem.drop s.stop

def storeAll (mem : List α) (ss : List (Store α)) : List α :=
  ss.foldl store mem

/-- Every store lies in a block of `size` cells. -/
def Fit (ss : List (Store α)) (size : Nat) : Prop :=
  ∀ s ∈ ss, s.stop ≤ size

/-- Some store of the series sets cell `i`. -/
def Covered (ss : List (Store α)) (i : Nat) : Prop :=
  ∃ s ∈ ss, s.addr ≤ i ∧ i < s.stop

instance (ss : List (Store α)) (i : Nat) : Decidable (Covered ss i) := by
  unfold Covered
  infer_instance

@[simp] theorem covered_nil : ¬ Covered ([] : List (Store α)) i := by
  simp [Covered]

@[simp] theorem covered_cons :
    Covered (s :: ss) i ↔ (s.addr ≤ i ∧ i < s.stop) ∨ Covered ss i := by
  simp [Covered]

@[simp] theorem covered_append {ss' : List (Store α)} :
    Covered (ss ++ ss') i ↔ Covered ss i ∨ Covered ss' i := by
  simp [Covered, or_and_right, exists_or]

/-! ## One store -/

theorem length_store (h : s.stop ≤ mem.length) : (store mem s).length = mem.length := by
  unfold Store.stop at h
  rw [store, List.length_append, List.length_append, List.length_take, List.length_drop,
    Store.stop]
  omega

theorem getElem?_store_of_lt (h : s.stop ≤ mem.length) (hi : i < s.addr) :
    (store mem s)[i]? = mem[i]? := by
  have htake : i < (mem.take s.addr).length := by
    unfold Store.stop at h
    rw [List.length_take]
    omega
  rw [store, List.append_assoc, List.getElem?_append_left htake, List.getElem?_take_of_lt hi]

theorem getElem?_store_of_covered (h : s.stop ≤ mem.length) (hi : s.addr ≤ i) (hstop : i < s.stop) :
    (store mem s)[i]? = s.data[i - s.addr]? := by
  have htake : (mem.take s.addr).length = s.addr := by
    unfold Store.stop at h
    rw [List.length_take]
    omega
  have hlt : i - s.addr < s.data.length := by
    unfold Store.stop at hstop
    omega
  rw [store, List.append_assoc, List.getElem?_append_right (by omega), htake,
    List.getElem?_append_left hlt]

theorem getElem?_store_of_stop_le (h : s.stop ≤ mem.length) (hi : s.stop ≤ i) :
    (store mem s)[i]? = mem[i]? := by
  have hfront : (mem.take s.addr ++ s.data).length = s.stop := by
    unfold Store.stop at h ⊢
    rw [List.length_append, List.length_take]
    omega
  rw [store, List.getElem?_append_right (by omega), hfront, List.getElem?_drop]
  congr 1
  omega

/-- A store changes no other cell. -/
theorem getElem?_store_of_not_covered (h : s.stop ≤ mem.length)
    (hi : ¬ (s.addr ≤ i ∧ i < s.stop)) : (store mem s)[i]? = mem[i]? := by
  by_cases hlt : i < s.addr
  · exact getElem?_store_of_lt h hlt
  · exact getElem?_store_of_stop_le h (by omega)

/-! ## A series of stores -/

@[simp] theorem storeAll_nil : storeAll mem [] = mem := rfl

@[simp] theorem storeAll_cons : storeAll mem (s :: ss) = storeAll (store mem s) ss := rfl

theorem storeAll_append (mem : List α) (ss ss' : List (Store α)) :
    storeAll mem (ss ++ ss') = storeAll (storeAll mem ss) ss' :=
  List.foldl_append

theorem fit_cons {size : Nat} : Fit (s :: ss) size ↔ s.stop ≤ size ∧ Fit ss size := by
  simp [Fit]

theorem fit_append {ss' : List (Store α)} {size : Nat} :
    Fit (ss ++ ss') size ↔ Fit ss size ∧ Fit ss' size := by
  simp [Fit, or_imp, forall_and]

theorem length_storeAll (h : Fit ss mem.length) : (storeAll mem ss).length = mem.length := by
  induction ss generalizing mem with
  | nil =>
      rfl
  | cons s ss ih =>
      rcases fit_cons.1 h with ⟨hs, hss⟩
      have hlength := @length_store _ mem s hs
      rw [storeAll_cons, ih (hlength ▸ hss), hlength]

/-- An uncovered cell keeps its value. -/
theorem getElem?_storeAll_of_not_covered (h : Fit ss mem.length) (hi : ¬ Covered ss i) :
    (storeAll mem ss)[i]? = mem[i]? := by
  induction ss generalizing mem with
  | nil =>
      rfl
  | cons s ss ih =>
      rcases fit_cons.1 h with ⟨hs, hss⟩
      rw [covered_cons, not_or] at hi
      rw [storeAll_cons, ih ((length_store hs).symm ▸ hss) hi.2,
        getElem?_store_of_not_covered hs hi.1]

/-- A covered cell does not depend on what was there. -/
theorem getElem?_storeAll_of_covered (hlen : mem.length = mem'.length) (h : Fit ss mem.length)
    (hi : Covered ss i) : (storeAll mem ss)[i]? = (storeAll mem' ss)[i]? := by
  induction ss generalizing mem mem' with
  | nil =>
      exact absurd hi covered_nil
  | cons s ss ih =>
      rcases fit_cons.1 h with ⟨hs, hss⟩
      have hs' : s.stop ≤ mem'.length := hlen ▸ hs
      have hlength := length_store hs
      have hlength' := length_store hs'
      by_cases hrest : Covered ss i
      · exact ih (by rw [hlength, hlength', hlen]) (hlength.symm ▸ hss) hrest
      · -- this store is the last one that sets the cell
        have hcover := (covered_cons.1 hi).resolve_right hrest
        rw [storeAll_cons, storeAll_cons,
          getElem?_storeAll_of_not_covered (hlength.symm ▸ hss) hrest,
          getElem?_storeAll_of_not_covered (hlength'.symm ▸ hlen ▸ hss) hrest,
          getElem?_store_of_covered hs hcover.1 hcover.2,
          getElem?_store_of_covered hs' hcover.1 hcover.2]

/-- The block is settled by the stores and by the cells that they leave out. -/
theorem storeAll_eq_iff (hlen : mem.length = mem'.length) (h : Fit ss mem.length) :
    storeAll mem ss = storeAll mem' ss ↔ ∀ i, ¬ Covered ss i → mem[i]? = mem'[i]? := by
  constructor
  · intro heq i hi
    rw [← getElem?_storeAll_of_not_covered h hi, heq,
      getElem?_storeAll_of_not_covered (hlen ▸ h) hi]
  · intro hrest
    refine List.ext_getElem? fun i => ?_
    by_cases hi : Covered ss i
    · exact getElem?_storeAll_of_covered hlen h hi
    · rw [getElem?_storeAll_of_not_covered h hi, getElem?_storeAll_of_not_covered (hlen ▸ h) hi,
        hrest i hi]

/-! ## Loads -/

/-- `size` cells from `addr` on. -/
def load (mem : List α) (addr size : Nat) : List α :=
  (mem.drop addr).take size

theorem getElem?_load {addr size : Nat} :
    (load mem addr size)[i]? = if i < size then mem[addr + i]? else none := by
  rw [load, List.getElem?_take, List.getElem?_drop]

theorem load_add (mem : List α) (addr m n : Nat) :
    load mem addr (m + n) = load mem addr m ++ load mem (addr + m) n := by
  rw [load, List.take_add, List.drop_drop, load, load]

/-- What was stored is loaded. -/
theorem load_store_self (h : s.stop ≤ mem.length) :
    load (store mem s) s.addr s.data.length = s.data := by
  refine List.ext_getElem? fun i => ?_
  rw [getElem?_load]
  split
  · next hi =>
      rw [getElem?_store_of_covered h (Nat.le_add_right _ _) (Nat.add_lt_add_left hi _),
        Nat.add_sub_cancel_left]
  · next hi =>
      rw [List.getElem?_eq_none (Nat.le_of_not_lt hi)]

/-- A store elsewhere does not matter. -/
theorem load_store_of_disjoint {addr size : Nat} (h : s.stop ≤ mem.length)
    (hdisjoint : addr + size ≤ s.addr ∨ s.stop ≤ addr) :
    load (store mem s) addr size = load mem addr size := by
  refine List.ext_getElem? fun i => ?_
  rw [getElem?_load, getElem?_load]
  split
  · exact getElem?_store_of_not_covered h (by omega)
  · rfl

/-- Nor does a series that leaves these cells out. -/
theorem load_storeAll_of_not_covered {addr size : Nat} (h : Fit ss mem.length)
    (hout : ∀ i, addr ≤ i → i < addr + size → ¬ Covered ss i) :
    load (storeAll mem ss) addr size = load mem addr size := by
  refine List.ext_getElem? fun i => ?_
  rw [getElem?_load, getElem?_load]
  split
  · next hi =>
      exact getElem?_storeAll_of_not_covered h
        (hout _ (Nat.le_add_right _ _) (Nat.add_lt_add_left hi _))
  · rfl

/-- A store is loaded if none of the later ones touches it. -/
theorem load_storeAll_of_last {pre post : List (Store α)}
    (h : Fit (pre ++ s :: post) mem.length)
    (hout : ∀ i, s.addr ≤ i → i < s.stop → ¬ Covered post i) :
    load (storeAll mem (pre ++ s :: post)) s.addr s.data.length = s.data := by
  rcases fit_append.1 h with ⟨hpre, hsuf⟩
  rcases fit_cons.1 hsuf with ⟨hs, hpost⟩
  have hlen : (storeAll mem pre).length = mem.length := length_storeAll hpre
  have hstop : s.stop ≤ (storeAll mem pre).length := hlen.symm ▸ hs
  have hlength : (store (storeAll mem pre) s).length = mem.length :=
    (length_store hstop).trans hlen
  rw [storeAll_append, storeAll_cons, load_storeAll_of_not_covered (hlength.symm ▸ hpost) hout,
    load_store_self hstop]

end Memory
end Lib
end FileExchange
