import Mathlib.Data.List.Infix

/-!
# Lib.Blocks — cutting a list into blocks from left to right

Some elements open a block and some close one.  This module provides:

* `IsBlock` : an opening element only at the front, a closing one only at the end;
* `Cutting` : what a scan has seen is its closed blocks followed by its open one;

and a rule for each step of such a scan.
-/

namespace FileExchange
namespace Lib

universe u

variable {α : Type u} {opens closes : α → Prop}

structure IsBlock (opens closes : α → Prop) (b : List α) : Prop where
  ne_nil : b ≠ []
  not_opens : ∀ x ∈ b.tail, ¬ opens x
  not_closes : ∀ x ∈ b.dropLast, ¬ closes x

/-- The blocks closed so far and the open one, after the elements `seen`. -/
structure Cutting (opens closes : α → Prop) (seen : List α) (closed : List (List α))
    (current : List α) : Prop where
  flatten_append : closed.flatten ++ current = seen
  isBlock : ∀ b ∈ closed, IsBlock opens closes b
  not_opens : ∀ x ∈ current.tail, ¬ opens x
  not_closes : ∀ x ∈ current, ¬ closes x

namespace Cutting

variable {seen current : List α} {closed : List (List α)} {x : α}

theorem init : Cutting opens closes [] [] [] :=
  ⟨rfl, by simp, by simp, by simp⟩

/-- The open block is a block once it has an element. -/
theorem isBlock_current (h : Cutting opens closes seen closed current) (hne : current ≠ []) :
    IsBlock opens closes current :=
  ⟨hne, h.not_opens, fun x hx => h.not_closes x (List.mem_of_mem_dropLast hx)⟩

theorem not_opens_concat (h : Cutting opens closes seen closed current)
    (hx : current ≠ [] → ¬ opens x) : ∀ y ∈ (current ++ [x]).tail, ¬ opens y := by
  intro y hy
  cases current with
  | nil =>
      simp at hy
  | cons z current =>
      rcases List.mem_append.1 hy with hy | hy
      · exact h.not_opens y hy
      · rw [List.mem_singleton.1 hy]
        exact hx (by simp)

/-- Close the open block. -/
theorem flush (h : Cutting opens closes seen closed current) (hne : current ≠ []) :
    Cutting opens closes seen (closed ++ [current]) [] := by
  refine ⟨?_, ?_, by simp, by simp⟩
  · simpa using h.flatten_append
  · intro b hb
    rcases List.mem_append.1 hb with hb | hb
    · exact h.isBlock b hb
    · rw [List.mem_singleton.1 hb]
      exact h.isBlock_current hne

/-- Take an element into the open block. -/
theorem push (h : Cutting opens closes seen closed current) (hx : current ≠ [] → ¬ opens x)
    (hclose : ¬ closes x) : Cutting opens closes (seen ++ [x]) closed (current ++ [x]) := by
  refine ⟨?_, h.isBlock, h.not_opens_concat hx, ?_⟩
  · rw [← List.append_assoc, h.flatten_append]
  · intro y hy
    rcases List.mem_append.1 hy with hy | hy
    · exact h.not_closes y hy
    · rw [List.mem_singleton.1 hy]
      exact hclose

/-- Take a last element into the open block and close it. -/
theorem pushFlush (h : Cutting opens closes seen closed current)
    (hx : current ≠ [] → ¬ opens x) :
    Cutting opens closes (seen ++ [x]) (closed ++ [current ++ [x]]) [] := by
  refine ⟨?_, ?_, by simp, by simp⟩
  · simp [← h.flatten_append]
  · intro b hb
    rcases List.mem_append.1 hb with hb | hb
    · exact h.isBlock b hb
    · rw [List.mem_singleton.1 hb]
      refine ⟨by simp, h.not_opens_concat hx, ?_⟩
      rw [List.dropLast_concat]
      exact h.not_closes

end Cutting

end Lib
end FileExchange
