import Mathlib.Data.List.Basic

/-!
# Lib.Path — resolving paths by their components

A place in a directory tree is the list of names that leads to it from the root.  A path is a
string over any alphabet with a separator and a dot; its components are followed one by one.

* `Path.resolve`        : where a path leads, from a current directory;
* `Path.resolve_join`   : a name behind a directory is one more step;
* `Path.follow_eq_concat_iff` : the step goes to an entry of that name unless the name is empty,
  one dot or two dots.
-/

namespace FileExchange
namespace Lib
namespace Path

variable {α : Type} [DecidableEq α]

/-- The names from the root on. -/
abbrev Place (α : Type) := List (List α)

/-- One component: an empty one and a dot stay, two dots go up, and any other name goes down. -/
def follow (dot : α) (place : Place α) (name : List α) : Place α :=
  if name = [] ∨ name = [dot] then place
  else if name = [dot, dot] then place.dropLast
  else place ++ [name]

/-- A path that begins with the separator starts at the root. -/
def resolve (sep dot : α) (cwd : Place α) (path : List α) : Place α :=
  (path.splitOn sep).foldl (follow dot) (if path.head? = some sep then [] else cwd)

/-- `name` is the name of an entry, not a way to stay or to go up. -/
def IsEntryName (dot : α) (name : List α) : Prop :=
  name ≠ [] ∧ name ≠ [dot] ∧ name ≠ [dot, dot]

variable {sep dot : α} {cwd place : Place α} {name dir : List α}

theorem follow_of_isEntryName (h : IsEntryName dot name) :
    follow dot place name = place ++ [name] := by
  simp [follow, h.1, h.2.1, h.2.2]

theorem follow_eq_concat_iff : follow dot place name = place ++ [name] ↔ IsEntryName dot name := by
  refine ⟨fun h => ?_, follow_of_isEntryName⟩
  -- otherwise the place does not get longer
  have hlength := congrArg List.length h
  rw [List.length_append, List.length_singleton] at hlength
  refine ⟨?_, ?_, ?_⟩
  · rintro rfl
    simp [follow] at hlength
  · rintro rfl
    simp [follow] at hlength
  · rintro rfl
    simp [follow] at hlength

/-- A name without a separator, behind a directory. -/
theorem resolve_join (hdir : dir ≠ []) (hname : sep ∉ name) :
    resolve sep dot cwd (dir ++ sep :: name) = follow dot (resolve sep dot cwd dir) name := by
  have hhead : (dir ++ sep :: name).head? = dir.head? := by
    cases dir with
    | nil => exact absurd rfl hdir
    | cons c dir => rfl
  rw [resolve, resolve, hhead, List.splitOn_append_cons_self, List.splitOn_eq_singleton hname,
    List.foldl_append, List.foldl_cons, List.foldl_nil]

end Path
end Lib
end FileExchange
