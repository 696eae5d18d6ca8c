import Mathlib.Data.List.Basic

/-!
# Lib.TransitionSystem — labelled transition systems and their runs

A system is a partial step function; a run is a list of labels.  This module provides:

* `Lts.run`      : the state a run ends in, when every label can happen;
* `Lts.Always`   : a property of every state a run passes through;
* `Lts.EachStep` : a condition that every step of a run meets in the state before it;

and the rules that connect them with an invariant.
-/

namespace FileExchange
namespace Lib

universe u v

/-- `step s l` is the state after `l`, when `l` can happen in `s`. -/
structure Lts (σ : Type u) (ℓ : Type v) where
  step : σ → ℓ → Option σ

namespace Lts

variable {σ : Type u} {ℓ : Type v} (M : Lts σ ℓ)

/-! ## Runs -/

/-- The state after the labels of a run, from left to right. -/
def run : σ → List ℓ → Option σ
  | s, [] => some s
  | s, l :: ls => (M.step s l).bind fun s' => run s' ls

@[simp] theorem run_nil (s : σ) : M.run s [] = some s := rfl

theorem run_cons_eq_some {s s'' : σ} {l : ℓ} {ls : List ℓ} :
    M.run s (l :: ls) = some s'' ↔ ∃ s', M.step s l = some s' ∧ M.run s' ls = some s'' := by
  simp [run, Option.bind_eq_some_iff]

theorem run_append (s : σ) (ls ls' : List ℓ) :
    M.run s (ls ++ ls') = (M.run s ls).bind fun s' => M.run s' ls' := by
  induction ls generalizing s with
  | nil =>
      simp
  | cons l ls ih =>
      cases hstep : M.step s l with
      | none =>
          simp [run, hstep]
      | some s' =>
          simp [run, hstep, ih s']

theorem run_append_eq_some {s s'' : σ} {ls ls' : List ℓ} :
    M.run s (ls ++ ls') = some s'' ↔ ∃ s', M.run s ls = some s' ∧ M.run s' ls' = some s'' := by
  rw [run_append, Option.bind_eq_some_iff]

/-! ## Invariants -/

/-- An invariant that every step keeps, for the labels that occur in the run. -/
theorem run_invariant (Inv : σ → Prop) (Ok : ℓ → Prop)
    (hstep : ∀ s l s', Inv s → Ok l → M.step s l = some s' → Inv s') :
    ∀ {ls : List ℓ} {s s' : σ}, Inv s → (∀ l ∈ ls, Ok l) → M.run s ls = some s' → Inv s' := by
  intro ls
  induction ls with
  | nil =>
      intro s s' hs _ hrun
      cases hrun
      exact hs
  | cons l ls ih =>
      intro s s'' hs hok hrun
      rcases (M.run_cons_eq_some).1 hrun with ⟨s', hl, hrest⟩
      have hs' : Inv s' := hstep s l s' hs (hok l (by simp)) hl
      exact ih hs' (fun l' hl' => hok l' (by simp [hl'])) hrest

/-- `P` holds in every state that the run passes through. -/
def Always (P : σ → Prop) : σ → List ℓ → Prop
  | s, [] => P s
  | s, l :: ls => P s ∧ ∀ s', M.step s l = some s' → Always P s' ls

/-- `Q` holds of every label of the run in the state in which it happens. -/
def EachStep (Q : σ → ℓ → Prop) : σ → List ℓ → Prop
  | _, [] => True
  | s, l :: ls => ∀ s', M.step s l = some s' → Q s l ∧ EachStep Q s' ls

instance decidableAlways (P : σ → Prop) [DecidablePred P] :
    ∀ (s : σ) (ls : List ℓ), Decidable (M.Always P s ls)
  | s, [] => inferInstanceAs (Decidable (P s))
  | s, l :: ls =>
      match hl : M.step s l with
      | none => decidable_of_iff (P s) (by simp [Always, hl])
      | some s' =>
          haveI := decidableAlways P s' ls
          decidable_of_iff (P s ∧ M.Always P s' ls) (by simp [Always, hl])

instance decidableEachStep (Q : σ → ℓ → Prop) [∀ s l, Decidable (Q s l)] :
    ∀ (s : σ) (ls : List ℓ), Decidable (M.EachStep Q s ls)
  | _, [] => inferInstanceAs (Decidable True)
  | s, l :: ls =>
      match hl : M.step s l with
      | none => decidable_of_iff True (by simp [EachStep, hl])
      | some s' =>
          haveI := decidableEachStep Q s' ls
          decidable_of_iff (Q s l ∧ M.EachStep Q s' ls) (by simp [EachStep, hl])

/-- `Always` is about the states after all initial parts of the run. -/
theorem always_iff_forall_initial {P : σ → Prop} {ls : List ℓ} {s : σ} :
    M.Always P s ls ↔ ∀ pre, pre <+: ls → ∀ s', M.run s pre = some s' → P s' := by
  induction ls generalizing s with
  | nil =>
      simp [Always]
  | cons l ls ih =>
      constructor
      · rintro ⟨hs, hrest⟩ pre hpre s' hrun
        rcases List.prefix_cons_iff.1 hpre with rfl | ⟨pre', rfl, hpre'⟩
        · cases hrun
          exact hs
        · rcases (M.run_cons_eq_some).1 hrun with ⟨t, ht, hrun'⟩
          exact ih.1 (hrest t ht) pre' hpre' s' hrun'
      · intro h
        refine ⟨h [] List.nil_prefix s rfl, ?_⟩
        intro s' hs'
        refine ih.2 fun pre hpre t ht => ?_
        refine h (l :: pre) ?_ t ((M.run_cons_eq_some).2 ⟨s', hs', ht⟩)
        exact List.cons_prefix_cons.2 ⟨rfl, hpre⟩

/-- Steps that meet `Q` keep the invariant, so a run of such steps has `P` throughout. -/
theorem always_of_eachStep {Inv P : σ → Prop} {Q : σ → ℓ → Prop}
    (hP : ∀ s, Inv s → P s)
    (hstep : ∀ s l s', Inv s → Q s l → M.step s l = some s' → Inv s') :
    ∀ {ls : List ℓ} {s : σ}, Inv s → M.EachStep Q s ls → M.Always P s ls := by
  intro ls
  induction ls with
  | nil =>
      intro s hs _
      exact hP s hs
  | cons l ls ih =>
      intro s hs hsteps
      refine ⟨hP s hs, ?_⟩
      intro s' hl
      rcases hsteps s' hl with ⟨hq, hrest⟩
      exact ih (hstep s l s' hs hq hl) hrest

/-- If moreover a step against `Q` always leaves `P`, the two are the same property of runs. -/
theorem always_iff_eachStep (Inv : σ → Prop) {P : σ → Prop} {Q : σ → ℓ → Prop}
    (hP : ∀ s, Inv s → P s)
    (hstep : ∀ s l s', Inv s → Q s l → M.step s l = some s' → Inv s')
    (hbad : ∀ s l s', Inv s → ¬ Q s l → M.step s l = some s' → ¬ P s')
    {ls : List ℓ} {s : σ} (hs : Inv s) :
    M.Always P s ls ↔ M.EachStep Q s ls := by
  refine ⟨?_, M.always_of_eachStep hP hstep hs⟩
  induction ls generalizing s with
  | nil =>
      intro _
      trivial
  | cons l ls ih =>
      rintro ⟨_, hrest⟩ s' hl
      have hq : Q s l := by
        by_contra hq
        apply hbad s l s' hs hq hl
        cases ls with
        | nil => exact hrest s' hl
        | cons l' ls' => exact (hrest s' hl).1
      exact ⟨hq, ih (hstep s l s' hs hq hl) (hrest s' hl)⟩

/-- Conditions that agree while an invariant holds, and of which one keeps it, agree on runs. -/
theorem eachStep_congr (Inv : σ → Prop) {Q Q' : σ → ℓ → Prop}
    (hiff : ∀ s l s', Inv s → M.step s l = some s' → (Q s l ↔ Q' s l))
    (hstep : ∀ s l s', Inv s → Q s l → M.step s l = some s' → Inv s')
    {ls : List ℓ} {s : σ} (hs : Inv s) : M.EachStep Q s ls ↔ M.EachStep Q' s ls := by
  induction ls generalizing s with
  | nil =>
      exact Iff.rfl
  | cons l ls ih =>
      refine forall₂_congr fun s' hl => ?_
      rw [hiff s l s' hs hl]
      refine and_congr_right fun hq' => ?_
      exact ih (hstep s l s' hs ((hiff s l s' hs hl).2 hq') hl)

/-- A run either meets `Q` at every step and keeps the invariant, or breaks `Q` somewhere and
stays in the bad states that such a step leads to. -/
theorem eachStep_or_bad (Inv Bad : σ → Prop) (Q : σ → ℓ → Prop) (Ok : ℓ → Prop)
    (hgood : ∀ s l s', Inv s → Ok l → Q s l → M.step s l = some s' → Inv s')
    (hbreak : ∀ s l s', Inv s → Ok l → ¬ Q s l → M.step s l = some s' → Bad s')
    (hbad : ∀ s l s', Bad s → Ok l → M.step s l = some s' → Bad s')
    {ls : List ℓ} {s s' : σ} (hs : Inv s) (hok : ∀ l ∈ ls, Ok l) (hrun : M.run s ls = some s') :
    (M.EachStep Q s ls ∧ Inv s') ∨ (¬ M.EachStep Q s ls ∧ Bad s') := by
  induction ls generalizing s with
  | nil =>
      cases hrun
      exact Or.inl ⟨trivial, hs⟩
  | cons l ls ih =>
      rcases (M.run_cons_eq_some).1 hrun with ⟨t, hl, hrest⟩
      have hokl : Ok l := hok l (by simp)
      have hokls : ∀ l' ∈ ls, Ok l' := fun l' hl' => hok l' (by simp [hl'])
      by_cases hq : Q s l
      · rcases ih (hgood s l t hs hokl hq hl) hokls hrest with ⟨heach, hinv⟩ | ⟨hnot, hb⟩
        · refine Or.inl ⟨?_, hinv⟩
          intro t' ht'
          cases hl.symm.trans ht'
          exact ⟨hq, heach⟩
        · exact Or.inr ⟨fun h => hnot (h t hl).2, hb⟩
      · have hb : Bad s' :=
          M.run_invariant Bad Ok hbad (hbreak s l t hs hokl hq hl) hokls hrest
        exact Or.inr ⟨fun h => hq (h t hl).1, hb⟩

end Lts

end Lib
end FileExchange
