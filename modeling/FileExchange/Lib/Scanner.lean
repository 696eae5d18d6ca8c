import Mathlib.Algebra.BigOperators.Group.List.Basic
import Mathlib.Data.List.Basic
import Mathlib.Data.List.TakeWhile
import Mathlib.Order.Defs.LinearOrder
import Mathlib.Tactic.Linarith

/-!
# Lib.Scanner — scans that copy a text and rewrite some of it

A scan walks over a terminated text.  Each of its rounds looks at the text from its pointer on,
appends something to the result and moves the pointer on by at least one place.

* `scan`     : the scan over the memory that holds the text, and its `rounds`;
* `textScan` : the same over the text, as long as the pointer stays within it;
* `Meets`    : some round of the scan has a property;
* `orCopy`   : the rounds with that property copy an element instead;

and how weights of the elements tell what the rounds did.
-/

namespace FileExchange
namespace Lib
namespace Scanner

universe u v

/-- What a round appends, how far the pointer moves beyond the next place, and the state then. -/
structure Move (σ : Type u) (α : Type v) where
  out : List α
  extra : Nat
  state : σ

/-- How a scan ends: its result, and whether the pointer passed a terminator and whether it
stopped at one before the memory ended. -/
structure Ending (σ : Type u) (α : Type v) where
  out : List α
  state : σ
  passed : Bool
  stopped : Bool

variable {σ : Type u} {α : Type v} (move : σ → α → List α → Move σ α)

/-- Scan memory, after `k` more places: a round sees the text up to its terminator. -/
def scan [DecidableEq α] (stop : α) : Nat → σ → List α → Ending σ α
  | _, s, [] => { out := [], state := s, passed := false, stopped := false }
  | k + 1, s, c :: mem =>
      let e := scan stop k s mem
      { e with passed := c = stop || e.passed }
  | 0, s, c :: mem =>
      if c = stop then { out := [], state := s, passed := false, stopped := true }
      else
        let m := move s c (mem.takeWhile (· ≠ stop))
        let e := scan stop m.extra m.state mem
        { e with out := m.out ++ e.out }

/-- The rounds of the scan of memory: the state, the element and the text behind it. -/
def rounds [DecidableEq α] (stop : α) : Nat → σ → List α → List (σ × α × List α)
  | _, _, [] => []
  | k + 1, s, _ :: mem => rounds stop k s mem
  | 0, s, c :: mem =>
      if c = stop then []
      else
        let t := mem.takeWhile (· ≠ stop)
        (s, c, t) :: rounds stop (move s c t).extra (move s c t).state mem

/-- Scan a text, after `k` more places; there is no result if the pointer leaves the text. -/
def textScan : Nat → σ → List α → Option (List α)
  | 0, _, [] => some []
  | _ + 1, _, [] => none
  | k + 1, s, _ :: t => textScan k s t
  | 0, s, c :: t => (textScan (move s c t).extra (move s c t).state t).map ((move s c t).out ++ ·)

/-- Some round of the scan has the property. -/
def Meets (Q : σ → α → List α → Prop) : Nat → σ → List α → Prop
  | _, _, [] => False
  | k + 1, s, _ :: t => Meets Q k s t
  | 0, s, c :: t => Q s c t ∨ Meets Q (move s c t).extra (move s c t).state t

variable {move}

/-! ## Text in memory -/

theorem takeWhile_text [DecidableEq α] {stop : α} {t beyond : List α} (h : stop ∉ t) :
    (t ++ stop :: beyond).takeWhile (· ≠ stop) = t := by
  have hall : ∀ c ∈ t, decide (c ≠ stop) = true := fun c hc =>
    decide_eq_true fun heq => h (heq ▸ hc)
  rw [List.takeWhile_append_of_pos hall]
  simp

/-- The result is what the rounds append. -/
theorem scan_out [DecidableEq α] (stop : α) : ∀ {mem : List α} {k : Nat} {s : σ},
    (scan move stop k s mem).out =
      (rounds move stop k s mem).flatMap fun r => (move r.1 r.2.1 r.2.2).out := by
  intro mem
  induction mem with
  | nil =>
      intro k s
      cases k <;> rfl
  | cons c mem ih =>
      intro k s
      cases k with
      | succ k =>
          exact ih
      | zero =>
          rw [scan, rounds]
          split
          · rfl
          · rw [List.flatMap_cons, ← ih]

/-- The result up to a terminator, where the pieces with terminators consist of one. -/
theorem takeWhile_flatMap {β : Type u} [DecidableEq α] {stop : α} {f : β → List α} {P : β → Prop}
    [DecidablePred P] {l : List β} (hnone : ∀ r ∈ l, ¬ P r → stop ∉ f r)
    (hend : ∀ r ∈ l, P r → f r = [stop]) :
    (l.flatMap f).takeWhile (· ≠ stop) = (l.takeWhile fun r => ¬ P r).flatMap f := by
  induction l with
  | nil => rfl
  | cons r l ih =>
      have hrest := ih (fun q hq => hnone q (List.mem_cons_of_mem r hq))
        (fun q hq => hend q (List.mem_cons_of_mem r hq))
      by_cases hr : P r
      · rw [List.flatMap_cons, hend r List.mem_cons_self hr,
          List.takeWhile_cons_of_neg (by simp [hr])]
        simp
      · have hall : ∀ c ∈ f r, decide (c ≠ stop) = true := fun c hc =>
          decide_eq_true fun heq => hnone r List.mem_cons_self hr (heq ▸ hc)
        rw [List.flatMap_cons, List.takeWhile_append_of_pos hall, hrest,
          List.takeWhile_cons_of_pos (by simp [hr]), List.flatMap_cons]

/-- The rounds happen at elements other than the terminator, and see none. -/
theorem not_stop_of_mem_rounds [DecidableEq α] {stop : α} {r : σ × α × List α} :
    ∀ {mem : List α} {k : Nat} {s : σ}, r ∈ rounds move stop k s mem →
      r.2.1 ≠ stop ∧ stop ∉ r.2.2 := by
  intro mem
  induction mem with
  | nil =>
      intro k s hr
      cases k <;> cases hr
  | cons c mem ih =>
      intro k s hr
      cases k with
      | succ k => exact ih hr
      | zero =>
          rw [rounds] at hr
          split at hr
          · cases hr
          · next hc =>
              rcases List.mem_cons.1 hr with rfl | hr
              · refine ⟨hc, fun hmem => ?_⟩
                simpa using List.mem_takeWhile_imp hmem
              · exact ih hr

/-- Its length is that of what they append, given round by round. -/
theorem length_scan_out [DecidableEq α] (stop : α) {cost : σ → α → List α → Nat}
    (hcost : ∀ s c t, (move s c t).out.length = cost s c t) {mem : List α} {k : Nat} {s : σ} :
    (scan move stop k s mem).out.length =
      ((rounds move stop k s mem).map fun r => cost r.1 r.2.1 r.2.2).sum := by
  simp only [scan_out, List.length_flatMap, hcost]

/-- Over a text in memory, the scan gives the result for the text or passes its terminator. -/
theorem scan_text [DecidableEq α] {stop : α} (beyond : List α) : ∀ {t : List α} {k : Nat} {s : σ},
    stop ∉ t →
      (∀ out ∈ textScan move k s t, (scan move stop k s (t ++ stop :: beyond)).out = out ∧
        (scan move stop k s (t ++ stop :: beyond)).passed = false ∧
        (scan move stop k s (t ++ stop :: beyond)).stopped = true) ∧
      (textScan move k s t = none → (scan move stop k s (t ++ stop :: beyond)).passed = true) := by
  intro t
  induction t with
  | nil =>
      intro k s _
      cases k with
      | zero => simp [textScan, scan]
      | succ k => simp [textScan, scan]
  | cons c t ih =>
      intro k s hstop
      have hc : c ≠ stop := fun heq => hstop (heq ▸ List.mem_cons_self)
      have ht : stop ∉ t := fun hmem => hstop (List.mem_cons_of_mem c hmem)
      cases k with
      | succ k =>
          simpa [textScan, scan, hc] using @ih k s ht
      | zero =>
          rcases @ih (move s c t).extra (move s c t).state ht with ⟨hsome, hnone⟩
          simp only [textScan, List.cons_append, scan, if_neg hc, takeWhile_text ht]
          refine ⟨?_, fun h => hnone (by simpa using h)⟩
          intro out hout
          rcases Option.map_eq_some_iff.1 hout with ⟨out', hout', rfl⟩
          rcases hsome out' hout' with ⟨hout, hpassed, hstopped⟩
          exact ⟨by rw [hout], hpassed, hstopped⟩

/-- The pointer stays within the text if and only if there is a result for it. -/
theorem scan_passed_iff [DecidableEq α] {stop : α} {t : List α} (beyond : List α) {k : Nat} {s : σ}
    (h : stop ∉ t) :
    (scan move stop k s (t ++ stop :: beyond)).passed = false ↔
      (textScan move k s t).isSome = true := by
  rcases @scan_text _ _ move _ _ beyond _ k s h with ⟨hsome, hnone⟩
  cases hscan : textScan move k s t with
  | none => simp [hnone hscan]
  | some out => simp [(hsome out hscan).2.1]

/-- The rounds of a scan that stays within the text happen in it. -/
theorem suffix_of_mem_rounds [DecidableEq α] {stop : α} (hinside : ∀ s c t,
    (move s c t).extra ≤ t.length) {r : σ × α × List α} : ∀ {mem : List α} {k : Nat} {s : σ},
      k ≤ (mem.takeWhile (· ≠ stop)).length → r ∈ rounds move stop k s mem →
        r.2.1 :: r.2.2 <:+ mem.takeWhile (· ≠ stop) := by
  intro mem
  induction mem with
  | nil =>
      intro k s _ hr
      cases k <;> cases hr
  | cons c mem ih =>
      intro k s hk hr
      by_cases hc : c = stop
      · rw [List.takeWhile_cons_of_neg (by simp [hc]), List.length_nil] at hk
        rw [Nat.le_zero.1 hk, rounds, if_pos hc] at hr
        cases hr
      · rw [List.takeWhile_cons_of_pos (by simp [hc])] at hk ⊢
        have hlater : ∀ {k s}, k ≤ (mem.takeWhile (· ≠ stop)).length →
            r ∈ rounds move stop k s mem → r.2.1 :: r.2.2 <:+ c :: mem.takeWhile (· ≠ stop) :=
          fun hk hr => (ih hk hr).trans (List.suffix_cons c _)
        cases k with
        | succ k => exact hlater (Nat.le_of_succ_le_succ hk) hr
        | zero =>
            rw [rounds, if_neg hc] at hr
            rcases List.mem_cons.1 hr with rfl | hr
            · exact List.suffix_rfl
            · exact hlater (hinside _ _ _) hr

/-- In the rounds with the property, copy the element and move on to the next. -/
def orCopy (Q : σ → α → List α → Prop) [∀ s c t, Decidable (Q s c t)]
    (move : σ → α → List α → Move σ α) (s : σ) (c : α) (t : List α) : Move σ α :=
  if Q s c t then { out := [c], extra := 0, state := s } else move s c t

variable {Q : σ → α → List α → Prop}

/-- Rounds that stay within the text lead to a result. -/
theorem isSome_textScan_of_not_meets (hinside : ∀ s c t, ¬ Q s c t →
    (move s c t).extra ≤ t.length) : ∀ {t : List α} {k : Nat} {s : σ}, k ≤ t.length →
      ¬ Meets move Q k s t → (textScan move k s t).isSome = true := by
  intro t
  induction t with
  | nil =>
      intro k s hk _
      rw [Nat.le_zero.1 hk]
      rfl
  | cons c t ih =>
      intro k s hk hmeets
      cases k with
      | succ k =>
          exact ih (Nat.le_of_succ_le_succ hk) hmeets
      | zero =>
          rw [Meets, not_or] at hmeets
          rw [textScan, Option.isSome_map]
          exact ih (hinside s c t hmeets.1) hmeets.2

/-- A round that is met happens somewhere in the text. -/
theorem exists_suffix_of_meets : ∀ {t : List α} {k : Nat} {s : σ}, Meets move Q k s t →
    ∃ s' c u, c :: u <:+ t ∧ Q s' c u := by
  intro t
  induction t with
  | nil =>
      intro k s hmeets
      cases k <;> cases hmeets
  | cons c t ih =>
      intro k s hmeets
      have hlater : ∀ {k s}, Meets move Q k s t → ∃ s' c' u, c' :: u <:+ c :: t ∧ Q s' c' u := by
        intro k s hmeets
        rcases ih hmeets with ⟨s', c', u, hu, hq⟩
        exact ⟨s', c', u, hu.trans (List.suffix_cons c t), hq⟩
      cases k with
      | succ k => exact hlater hmeets
      | zero =>
          rcases hmeets with hq | hmeets
          · exact ⟨s, c, t, List.suffix_rfl, hq⟩
          · exact hlater hmeets

/-- What the other rounds never skip is met. -/
theorem meets_of_suffix {P : List α → Prop} (hnil : ¬ P [])
    (hskip : ∀ s c t u, ¬ Q s c t → P u → u <:+ c :: t → u <:+ t.drop (move s c t).extra) :
    ∀ {t u : List α} {k : Nat} {s : σ}, P u → u <:+ t.drop k → Meets move Q k s t := by
  intro t
  induction t with
  | nil =>
      intro u k s hu hsuffix
      rw [List.drop_nil, List.suffix_nil] at hsuffix
      exact absurd (hsuffix ▸ hu) hnil
  | cons c t ih =>
      intro u k s hu hsuffix
      cases k with
      | succ k =>
          exact ih hu hsuffix
      | zero =>
          by_cases hq : Q s c t
          · exact Or.inl hq
          · exact Or.inr (ih hu (hskip s c t u hq hu hsuffix))

/-- If the other rounds keep the elements of a kind, so does a scan without such rounds. -/
theorem filter_textScan_of_not_meets (p : α → Bool) (hmove : ∀ s c t, ¬ Q s c t →
    (move s c t).out.filter p = ((c :: t).take ((move s c t).extra + 1)).filter p) :
    ∀ {t out : List α} {k : Nat} {s : σ}, ¬ Meets move Q k s t →
      textScan move k s t = some out → out.filter p = (t.drop k).filter p := by
  intro t
  induction t with
  | nil =>
      intro out k s _ h
      cases k with
      | zero =>
          cases h
          rfl
      | succ k =>
          cases h
  | cons c t ih =>
      intro out k s hmeets h
      cases k with
      | succ k =>
          exact ih hmeets h
      | zero =>
          rw [Meets, not_or] at hmeets
          rcases Option.map_eq_some_iff.1 h with ⟨out', hout', rfl⟩
          rw [List.filter_append, hmove s c t hmeets.1, ih hmeets.2 hout', ← List.filter_append,
            List.take_succ_cons, List.cons_append, List.take_append_drop, List.drop_zero]

/-- A size that the other rounds account for is the length of the result of a scan without such
rounds. -/
theorem length_textScan_of_not_meets (size : List α → Nat) (hnil : size [] = 0)
    (hmove : ∀ s c t, ¬ Q s c t →
      size (c :: t) = (move s c t).out.length + size (t.drop (move s c t).extra)) :
    ∀ {t out : List α} {k : Nat} {s : σ}, ¬ Meets move Q k s t →
      textScan move k s t = some out → out.length = size (t.drop k) := by
  intro t
  induction t with
  | nil =>
      intro out k s _ h
      cases k with
      | zero =>
          cases h
          exact hnil.symm
      | succ k =>
          cases h
  | cons c t ih =>
      intro out k s hmeets h
      cases k with
      | succ k =>
          exact ih hmeets h
      | zero =>
          rw [Meets, not_or] at hmeets
          rcases Option.map_eq_some_iff.1 h with ⟨out', hout', rfl⟩
          rw [List.length_append, ih hmeets.2 hout', List.drop_zero, hmove s c t hmeets.1]

variable [∀ s c t, Decidable (Q s c t)]

/-- A scan that meets no such round is not changed by leaving them out. -/
theorem textScan_orCopy_of_not_meets : ∀ {t : List α} {k : Nat} {s : σ}, ¬ Meets move Q k s t →
    textScan (orCopy Q move) k s t = textScan move k s t := by
  intro t
  induction t with
  | nil =>
      intro k s _
      cases k <;> rfl
  | cons c t ih =>
      intro k s hmeets
      cases k with
      | succ k =>
          exact ih hmeets
      | zero =>
          rw [Meets, not_or] at hmeets
          simp only [textScan, orCopy, if_neg hmeets.1, ih hmeets.2]

/-- A scan that meets such a round agrees up to the first one with the scan that leaves them
out. -/
theorem exists_first_meet : ∀ {t : List α} {k : Nat} {s : σ}, Meets move Q k s t →
    ∃ pre s' c t', Q s' c t' ∧
      textScan move k s t = (textScan move 0 s' (c :: t')).map (pre ++ ·) ∧
      textScan (orCopy Q move) k s t =
        (textScan (orCopy Q move) 0 s' (c :: t')).map (pre ++ ·) := by
  intro t
  induction t with
  | nil =>
      intro k s hmeets
      cases k <;> cases hmeets
  | cons c t ih =>
      intro k s hmeets
      cases k with
      | succ k =>
          exact ih hmeets
      | zero =>
          by_cases hq : Q s c t
          · refine ⟨[], s, c, t, hq, ?_, ?_⟩
            · simp
            · simp
          · rcases ih (hmeets.resolve_left hq) with ⟨pre, s', c', t', hq', hscan, hcopy⟩
            refine ⟨(move s c t).out ++ pre, s', c', t', hq', ?_, ?_⟩
            · rw [textScan, hscan, Option.map_map]
              simp [Function.comp_def]
            · rw [textScan]
              simp only [orCopy, if_neg hq] at hcopy ⊢
              rw [hcopy, Option.map_map]
              simp [Function.comp_def]

/-! ## Weights -/

section Weights

omit [∀ s c t, Decidable (Q s c t)]

variable (w : α → Int)

/-- The weight of a list. -/
def weight (l : List α) : Int :=
  (l.map w).sum

@[simp] theorem weight_nil : weight w [] = 0 := rfl

@[simp] theorem weight_cons (c : α) (l : List α) : weight w (c :: l) = w c + weight w l := by
  simp [weight]

@[simp] theorem weight_append (l l' : List α) : weight w (l ++ l') = weight w l + weight w l' := by
  simp [weight]

theorem weight_neg (l : List α) : weight (fun c => -w c) l = -weight w l := by
  induction l with
  | nil => simp
  | cons c l ih => rw [weight_cons, weight_cons, ih, neg_add]

variable {w} in
theorem weight_eq_zero {l : List α} (h : ∀ c ∈ l, w c = 0) : weight w l = 0 := by
  induction l with
  | nil => rfl
  | cons c l ih =>
      rw [weight_cons, h c List.mem_cons_self, ih fun d hd => h d (List.mem_cons_of_mem c hd),
        add_zero]

theorem weight_take_add_drop (n : Nat) (l : List α) :
    weight w (l.take n) + weight w (l.drop n) = weight w l := by
  rw [← weight_append, List.take_append_drop]

variable (move) {I : List α → Prop}

/-- If no round loses weight, the result weighs at least as much as the text. -/
theorem weight_textScan_le (hdrop : ∀ t n, I t → I (t.drop n))
    (hmove : ∀ s c t, I (c :: t) →
      weight w ((c :: t).take ((move s c t).extra + 1)) ≤ weight w (move s c t).out) :
    ∀ {t out : List α} {k : Nat} {s : σ}, I t → textScan move k s t = some out →
      weight w (t.drop k) ≤ weight w out := by
  intro t
  induction t with
  | nil =>
      intro out k s _ h
      cases k with
      | zero =>
          cases h
          exact le_rfl
      | succ k =>
          cases h
  | cons c t ih =>
      intro out k s hI h
      cases k with
      | succ k =>
          exact ih (hdrop _ 1 hI) h
      | zero =>
          rcases Option.map_eq_some_iff.1 h with ⟨out', hout', rfl⟩
          have hrest := ih (hdrop _ 1 hI) hout'
          have hround := hmove s c t hI
          have hsplit := weight_take_add_drop w ((move s c t).extra + 1) (c :: t)
          rw [List.drop_succ_cons] at hsplit
          rw [List.drop_zero, weight_append]
          linarith

/-- If moreover the scan meets a round that adds weight, the result weighs more. -/
theorem weight_textScan_lt (hdrop : ∀ t n, I t → I (t.drop n))
    (hmove : ∀ s c t, I (c :: t) →
      weight w ((c :: t).take ((move s c t).extra + 1)) ≤ weight w (move s c t).out)
    (hmeet : ∀ s c t, I (c :: t) → Q s c t →
      weight w ((c :: t).take ((move s c t).extra + 1)) < weight w (move s c t).out) :
    ∀ {t out : List α} {k : Nat} {s : σ}, I t → Meets move Q k s t →
      textScan move k s t = some out → weight w (t.drop k) < weight w out := by
  intro t
  induction t with
  | nil =>
      intro out k s _ hmeets
      cases k <;> cases hmeets
  | cons c t ih =>
      intro out k s hI hmeets h
      cases k with
      | succ k =>
          exact ih (hdrop _ 1 hI) hmeets h
      | zero =>
          rcases Option.map_eq_some_iff.1 h with ⟨out', hout', rfl⟩
          have hsplit := weight_take_add_drop w ((move s c t).extra + 1) (c :: t)
          rw [List.drop_succ_cons] at hsplit
          rw [List.drop_zero, weight_append]
          rcases hmeets with hq | hmeets
          · have hI' : I t := hdrop (c :: t) 1 hI
            have hrest := weight_textScan_le move w hdrop hmove hI' hout'
            have hround := hmeet s c t hI hq
            linarith
          · have hrest := ih (hdrop _ 1 hI) hmeets hout'
            have hround := hmove s c t hI
            linarith

end Weights

end Scanner
end Lib
end FileExchange
