import Mathlib.Algebra.GroupWithZero.Nat
import Mathlib.Data.List.Basic

/-!
# Lib.Printf — formats with conversion specifications

* `parts`  : the text between the conversion specifications of a format;
* `fill`   : the parts with the converted arguments between them;
* `sprintf` : both together, where each argument is given as it is printed.
-/

namespace FileExchange
namespace Lib
namespace Printf

/-- A character in front of the first part. -/
def consHead (c : UInt8) : List (List UInt8) → List (List UInt8)
  | [] => [[c]]
  | p :: ps => (c :: p) :: ps

/-- The text between the specifications: `%`, a possible `l`, and a letter; `%%` is a character. -/
def parts : Bool → List UInt8 → List (List UInt8)
  | _, [] => [[]]
  | false, c :: s => if c = 37 then parts true s else consHead c (parts false s)
  | true, c :: s =>
      if c = 37 then consHead 37 (parts false s)
      else if c = 108 then parts true s
      else [] :: parts false s

/-- The arguments between the parts; what is left over of them is ignored. -/
def fill : List (List UInt8) → List (List UInt8) → List UInt8
  | [], _ => []
  | [p], _ => p
  | p :: q :: ps, [] => p ++ fill (q :: ps) []
  | p :: q :: ps, a :: as => p ++ (a ++ fill (q :: ps) as)

/-- `sprintf(format, args)`. -/
def sprintf (format : List UInt8) (args : List (List UInt8)) : List UInt8 :=
  fill (parts false format) args

/-- The characters of the format that are no specifications. -/
def fixedLength (format : List UInt8) : Nat :=
  ((parts false format).map List.length).sum

theorem length_fill {ps as : List (List UInt8)} (h : ps.length = as.length + 1) :
    (fill ps as).length = (ps.map List.length).sum + (as.map List.length).sum := by
  induction as generalizing ps with
  | nil =>
      rcases List.length_eq_one_iff.1 h with ⟨p, rfl⟩
      simp [fill]
  | cons a as ih =>
      match ps, h with
      | p :: q :: ps, h =>
          have hrest : (q :: ps).length = as.length + 1 := Nat.succ_inj.1 h
          rw [fill, List.length_append, List.length_append, ih hrest]
          simp only [List.map_cons, List.sum_cons]
          omega

/-- With one argument for each specification, the lengths add up. -/
theorem length_sprintf {format : List UInt8} {args : List (List UInt8)}
    (h : (parts false format).length = args.length + 1) :
    (sprintf format args).length = fixedLength format + (args.map List.length).sum :=
  length_fill h

theorem sum_map_length_le {args : List (List UInt8)} {k : Nat} (h : ∀ a ∈ args, a.length ≤ k) :
    (args.map List.length).sum ≤ args.length * k := by
  induction args with
  | nil => simp
  | cons a args ih =>
      have hfirst := h a List.mem_cons_self
      have hrest := ih fun b hb => h b (List.mem_cons_of_mem a hb)
      rw [List.map_cons, List.sum_cons, List.length_cons, Nat.succ_mul]
      omega

/-- Arguments that are not too long give a text that is not too long. -/
theorem length_sprintf_le {format : List UInt8} {args : List (List UInt8)} {k : Nat}
    (h : (parts false format).length = args.length + 1) (hargs : ∀ a ∈ args, a.length ≤ k) :
    (sprintf format args).length ≤ fixedLength format + args.length * k := by
  rw [length_sprintf h]
  exact Nat.add_le_add_left (sum_map_length_le hargs) _

/-! ## Characters -/

theorem mem_consHead {b c : UInt8} {p : List UInt8} {ps : List (List UInt8)}
    (hp : p ∈ consHead c ps) (hb : b ∈ p) : b = c ∨ ∃ q ∈ ps, b ∈ q := by
  cases ps with
  | nil =>
      rw [consHead, List.mem_singleton] at hp
      subst hp
      exact Or.inl (List.mem_singleton.1 hb)
  | cons q ps =>
      rcases List.mem_cons.1 hp with rfl | hp
      · exact (List.mem_cons.1 hb).imp_right fun hb => ⟨q, List.mem_cons_self, hb⟩
      · exact Or.inr ⟨p, List.mem_cons_of_mem q hp, hb⟩

theorem mem_parts {b : UInt8} {s : List UInt8} : ∀ {inside : Bool} {p : List UInt8},
    p ∈ parts inside s → b ∈ p → b ∈ s := by
  induction s with
  | nil =>
      intro inside p hp hb
      rw [parts, List.mem_singleton] at hp
      subst hp
      exact hb
  | cons c s ih =>
      intro inside p hp hb
      cases inside with
      | false =>
          rw [parts] at hp
          split at hp
          · exact List.mem_cons_of_mem c (ih hp hb)
          · rcases mem_consHead hp hb with rfl | ⟨q, hq, hb⟩
            · exact List.mem_cons_self
            · exact List.mem_cons_of_mem c (ih hq hb)
      | true =>
          rw [parts] at hp
          split at hp
          · next hc =>
              rcases mem_consHead hp hb with rfl | ⟨q, hq, hb⟩
              · rw [hc]
                exact List.mem_cons_self
              · exact List.mem_cons_of_mem c (ih hq hb)
          · split at hp
            · exact List.mem_cons_of_mem c (ih hp hb)
            · rcases List.mem_cons.1 hp with rfl | hp
              · cases hb
              · exact List.mem_cons_of_mem c (ih hp hb)

theorem mem_fill {b : UInt8} {ps : List (List UInt8)} : ∀ {as : List (List UInt8)},
    b ∈ fill ps as → (∃ p ∈ ps, b ∈ p) ∨ ∃ a ∈ as, b ∈ a := by
  induction ps with
  | nil =>
      intro as hb
      cases hb
  | cons p ps ih =>
      intro as hb
      have hlater : ∀ {as' : List (List UInt8)}, as' ⊆ as → b ∈ fill ps as' →
          (∃ q ∈ p :: ps, b ∈ q) ∨ ∃ a ∈ as, b ∈ a := by
        intro as' hsub hb
        rcases ih hb with ⟨q, hq, hb⟩ | ⟨a, ha, hb⟩
        · exact Or.inl ⟨q, List.mem_cons_of_mem p hq, hb⟩
        · exact Or.inr ⟨a, hsub ha, hb⟩
      cases ps with
      | nil => exact Or.inl ⟨p, List.mem_cons_self, hb⟩
      | cons q ps =>
          cases as with
          | nil =>
              rw [fill] at hb
              rcases List.mem_append.1 hb with hb | hb
              · exact Or.inl ⟨p, List.mem_cons_self, hb⟩
              · exact hlater (List.Subset.refl _) hb
          | cons a as =>
              rw [fill] at hb
              rcases List.mem_append.1 hb with hb | hb
              · exact Or.inl ⟨p, List.mem_cons_self, hb⟩
              · rcases List.mem_append.1 hb with hb | hb
                · exact Or.inr ⟨a, List.mem_cons_self, hb⟩
                · exact hlater (List.subset_cons_self a as) hb

/-- Every character comes from the format or from an argument. -/
theorem mem_sprintf {b : UInt8} {format : List UInt8} {args : List (List UInt8)}
    (hb : b ∈ sprintf format args) : b ∈ format ∨ ∃ a ∈ args, b ∈ a :=
  (mem_fill hb).imp_left fun ⟨_, hp, hb⟩ => mem_parts hp hb

end Printf
end Lib
end FileExchange
