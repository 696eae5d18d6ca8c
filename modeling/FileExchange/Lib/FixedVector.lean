import Mathlib

/-!
# Lib.FixedVector — arrays of a fixed size

Code on arrays of a fixed size reads and writes them at literal places.  Here a place is an element
of `Fin n`, so that no bound has to be proved where an array is used.

* `put`          : writing one place;
* `ext_get`      : arrays are equal if they are at each place;
* `toList_ofFn`, `toList_map` : the elements in their order.
-/

namespace FileExchange
namespace Lib
namespace FixedVector

universe u v

variable {α : Type u} {β : Type v} {n : Nat}

/-! ## The sizes that occur

These instances have names, so that a literal place is the same term wherever it is written. -/

scoped instance neZero_two : NeZero 2 := ⟨by decide⟩
scoped instance neZero_four : NeZero 4 := ⟨by decide⟩
scoped instance neZero_seven : NeZero 7 := ⟨by decide⟩
scoped instance neZero_eight : NeZero 8 := ⟨by decide⟩
scoped instance neZero_sixteen : NeZero 16 := ⟨by decide⟩

/-! ## Reading and writing -/

def put (v : Vector α n) (i : Fin n) (x : α) : Vector α n :=
  v.set i.val x i.isLt

theorem ext_get {v w : Vector α n} (h : ∀ i, v.get i = w.get i) : v = w :=
  Vector.ext fun i hi => h ⟨i, hi⟩

@[simp] theorem get_put (v : Vector α n) (i j : Fin n) (x : α) :
    (put v i x).get j = if i = j then x else v.get j := by
  simp [put, Vector.get_eq_getElem, Vector.getElem_set, Fin.ext_iff]

@[simp] theorem put_put (v : Vector α n) (i : Fin n) (x y : α) :
    put (put v i x) i y = put v i y := by
  simp [put]

@[simp] theorem zipWith_get (f : α → α → α) (v w : Vector α n) (i : Fin n) :
    (Vector.zipWith f v w).get i = f (v.get i) (w.get i) := by
  simp [Vector.get_eq_getElem]

@[simp] theorem map_put (f : α → β) (v : Vector α n) (i : Fin n) (x : α) :
    (put v i x).map f = put (v.map f) i (f x) := by
  simp [put, Vector.map_set]

theorem toList_ofFn (v : Vector α n) : (List.ofFn fun i => v.get i) = v.toList := by
  rw [← Vector.toList_ofFn]
  exact congrArg Vector.toList (ext_get fun i => Vector.get_ofFn _ i)

theorem toList_map (f : α → β) (v : Vector α n) :
    (List.ofFn fun i => f (v.get i)) = (v.map f).toList := by
  rw [← toList_ofFn]
  simp

end FixedVector
end Lib
end FileExchange
