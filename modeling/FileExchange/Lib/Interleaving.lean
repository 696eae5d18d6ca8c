import FileExchange.Lib.TransitionSystem

/-!
# Lib.Interleaving — threads that take turns on a shared state

A `ThreadSystem` says how a thread starts and what one of its atomic steps does to the
shared state and to the thread.  Its pools are the states of an `Lts` whose runs are all
interleavings of all threads; the scheduler's choices inside a step are labels too.

* `ThreadSystem.run_invariant` : the rely/guarantee rule, with an assertion on the shared
  state and one on each thread that no other thread's step destroys;
* `ThreadSystem.run_advance`   : a thread that runs without interruption.
-/

namespace FileExchange
namespace Lib

universe u

/-- How a thread starts from a request `ρ`, and its atomic steps under the choice `γ`. -/
structure ThreadSystem (ρ γ σ τ : Type u) where
  spawn : ρ → τ
  step : γ → σ → τ → Option (σ × τ)

/-- The shared state and the threads started so far. -/
structure Pool (σ τ : Type u) where
  shared : σ
  threads : List τ
  deriving DecidableEq

/-- What the scheduler does next. -/
inductive Turn (ρ γ : Type u)
  | start (r : ρ)
  | advance (i : Nat) (g : γ)
  deriving DecidableEq, Repr

namespace ThreadSystem

variable {ρ γ σ τ : Type u} (M : ThreadSystem ρ γ σ τ)

/-- All interleavings of the threads. -/
def lts : Lts (Pool σ τ) (Turn ρ γ) where
  step p
    | .start r => some { p with threads := p.threads ++ [M.spawn r] }
    | .advance i g =>
        (p.threads[i]?).bind fun t =>
          (M.step g p.shared t).map fun q => { shared := q.1, threads := p.threads.set i q.2 }

/-- The requests that a schedule starts. -/
def started : List (Turn ρ γ) → List ρ
  | [] => []
  | .start r :: es => r :: started es
  | .advance _ _ :: es => started es

theorem start_mem_started {r : ρ} : ∀ {es : List (Turn ρ γ)}, Turn.start r ∈ es → r ∈ started es
  | [], h => by cases h
  | .start r' :: es, h => by
      rcases List.mem_cons.1 h with h | h
      · cases h
        simp [started]
      · exact List.mem_cons_of_mem _ (start_mem_started h)
  | .advance _ _ :: es, h => by
      rcases List.mem_cons.1 h with h | h
      · cases h
      · have hmem : r ∈ started es := start_mem_started h
        exact hmem

theorem lts_step_start {p p' : Pool σ τ} {r : ρ} :
    M.lts.step p (.start r) = some p' ↔ p' = { p with threads := p.threads ++ [M.spawn r] } := by
  constructor
  · intro h
    exact (Option.some.inj h).symm
  · intro h
    subst h
    rfl

/-- What one turn of thread `i` does. -/
theorem lts_step_advance {p p' : Pool σ τ} {i : Nat} {g : γ} :
    M.lts.step p (.advance i g) = some p' ↔
      ∃ t s' t', p.threads[i]? = some t ∧ M.step g p.shared t = some (s', t') ∧
        p' = { shared := s', threads := p.threads.set i t' } := by
  constructor
  · intro h
    rcases Option.bind_eq_some_iff.1 h with ⟨t, ht, h⟩
    rcases Option.map_eq_some_iff.1 h with ⟨⟨s', t'⟩, hstep, hp⟩
    exact ⟨t, s', t', ht, hstep, hp.symm⟩
  · rintro ⟨t, s', t', ht, hstep, rfl⟩
    simp [lts, ht, hstep]

/-- Rely/guarantee: if every step keeps `Inv`, establishes the thread's own assertion again
and destroys no assertion of another thread, all of them hold after every schedule. -/
theorem run_invariant (Inv : σ → Prop) (Loc : σ → τ → Prop) (Ok : ρ → Prop)
    (hspawn : ∀ s r, Inv s → Ok r → Loc s (M.spawn r))
    (hstep : ∀ g s t s' t', Inv s → Loc s t → M.step g s t = some (s', t') →
      Inv s' ∧ Loc s' t' ∧ ∀ u, Loc s u → Loc s' u)
    {es : List (Turn ρ γ)} {p p' : Pool σ τ}
    (hInv : Inv p.shared) (hLoc : ∀ t ∈ p.threads, Loc p.shared t)
    (hok : ∀ r ∈ started es, Ok r) (hrun : M.lts.run p es = some p') :
    Inv p'.shared ∧ ∀ t ∈ p'.threads, Loc p'.shared t := by
  refine M.lts.run_invariant
    (fun p => Inv p.shared ∧ ∀ t ∈ p.threads, Loc p.shared t)
    (fun e => ∀ r, e = Turn.start r → Ok r) ?_ ⟨hInv, hLoc⟩ ?_ hrun
  · rintro q e q' ⟨hq, hloc⟩ he hqstep
    cases e with
    | start r =>
        rw [lts_step_start] at hqstep
        subst hqstep
        refine ⟨hq, ?_⟩
        intro t ht
        rcases List.mem_append.1 ht with ht | ht
        · exact hloc t ht
        · cases List.mem_singleton.1 ht
          exact hspawn q.shared r hq (he r rfl)
    | advance i g =>
        rcases M.lts_step_advance.1 hqstep with ⟨t, s', t', ht, hts, rfl⟩
        have hmem : t ∈ q.threads := List.mem_of_getElem? ht
        rcases hstep g q.shared t s' t' hq (hloc t hmem) hts with ⟨hs', ht', hstable⟩
        refine ⟨hs', ?_⟩
        intro u hu
        rcases List.mem_or_eq_of_mem_set hu with hu | rfl
        · exact hstable u (hloc u hu)
        · exact ht'
  · intro e he r hr
    subst hr
    exact hok r (start_mem_started he)

/-- What no step of a thread changes is known from the schedule. -/
theorem run_map_threads {β : Type u} (label : τ → β)
    (hstep : ∀ g s t s' t', M.step g s t = some (s', t') → label t' = label t) :
    ∀ {es : List (Turn ρ γ)} {p p' : Pool σ τ}, M.lts.run p es = some p' →
      p'.threads.map label =
        p.threads.map label ++ (started es).map fun r => label (M.spawn r) := by
  intro es
  induction es with
  | nil =>
      intro p p' hrun
      cases hrun
      simp [started]
  | cons e es ih =>
      intro p p' hrun
      rcases (M.lts.run_cons_eq_some).1 hrun with ⟨q, he, hrest⟩
      rw [ih hrest]
      cases e with
      | start r =>
          rw [M.lts_step_start] at he
          subst he
          simp [started]
      | advance i g =>
          rcases M.lts_step_advance.1 he with ⟨t, s', t', ht, hts, rfl⟩
          have hsame : (p.threads.map label).set i (label t') = p.threads.map label := by
            rcases List.getElem?_eq_some_iff.1 ht with ⟨hi, rfl⟩
            rw [hstep g p.shared _ s' t' hts, ← List.map_set, List.set_getElem_self]
          rw [List.map_set, hsame, started]

/-- A thread's steps with nobody in between. -/
def runThread : List γ → σ → τ → Option (σ × τ)
  | [], s, t => some (s, t)
  | g :: gs, s, t => (M.step g s t).bind fun q => runThread gs q.1 q.2

/-- With nobody in between, the thread gets from the first pair to the second. -/
def Alone (s : σ) (t : τ) (s' : σ) (t' : τ) : Prop :=
  ∃ gs, M.runThread gs s t = some (s', t')

theorem Alone.refl (s : σ) (t : τ) : M.Alone s t s t :=
  ⟨[], rfl⟩

variable {M} in
theorem Alone.head {s s' s'' : σ} {t t' t'' : τ} {g : γ} (h : M.step g s t = some (s', t'))
    (hrest : M.Alone s' t' s'' t'') : M.Alone s t s'' t'' := by
  rcases hrest with ⟨gs, hgs⟩
  exact ⟨g :: gs, by simp [runThread, h, hgs]⟩

variable {M} in
theorem Alone.trans {s s' s'' : σ} {t t' t'' : τ} (h : M.Alone s t s' t')
    (h' : M.Alone s' t' s'' t'') : M.Alone s t s'' t'' := by
  rcases h with ⟨gs, hgs⟩
  induction gs generalizing s t with
  | nil =>
      cases hgs
      exact h'
  | cons g gs ih =>
      rcases Option.bind_eq_some_iff.1 hgs with ⟨⟨s₁, t₁⟩, hg, hrest⟩
      exact Alone.head hg (ih hrest)

/-- Letting one thread run is a schedule of the pool. -/
theorem run_advance {i : Nat} {gs : List γ} {p : Pool σ τ} {t t' : τ} {s' : σ}
    (ht : p.threads[i]? = some t) (hrun : M.runThread gs p.shared t = some (s', t')) :
    M.lts.run p (gs.map (Turn.advance i)) =
      some { shared := s', threads := p.threads.set i t' } := by
  induction gs generalizing p t with
  | nil =>
      rcases Prod.mk.inj (Option.some.inj hrun) with ⟨rfl, rfl⟩
      have hset : p.threads.set i t = p.threads := by
        rcases List.getElem?_eq_some_iff.1 ht with ⟨hi, rfl⟩
        exact List.set_getElem_self hi
      simp [hset]
  | cons g gs ih =>
      rcases Option.bind_eq_some_iff.1 hrun with ⟨⟨s₁, t₁⟩, hg, hrest⟩
      have hi : i < p.threads.length := (List.getElem?_eq_some_iff.1 ht).1
      have hstep : M.lts.step p (.advance i g) =
          some { shared := s₁, threads := p.threads.set i t₁ } :=
        M.lts_step_advance.2 ⟨t, s₁, t₁, ht, hg, rfl⟩
      refine (M.lts.run_cons_eq_some).2 ⟨_, hstep, ?_⟩
      have hrec := ih (p := { shared := s₁, threads := p.threads.set i t₁ }) (t := t₁)
        (by simp [hi]) hrest
      simpa using hrec

theorem started_append (es es' : List (Turn ρ γ)) :
    started (es ++ es') = started es ++ started es' := by
  induction es with
  | nil =>
      rfl
  | cons e es ih =>
      cases e with
      | start r => simp [started, ih]
      | advance i g => simp [started, ih]

theorem started_advance (i : Nat) (gs : List γ) :
    started (gs.map (Turn.advance i) : List (Turn ρ γ)) = [] := by
  induction gs with
  | nil =>
      rfl
  | cons g gs ih =>
      simpa [started] using ih

/-- Starting a thread and letting it run is a schedule. -/
theorem run_start_alone {r : ρ} {p : Pool σ τ} {s' : σ} {t' : τ}
    (h : M.Alone p.shared (M.spawn r) s' t') :
    ∃ es, started es = [r] ∧
      M.lts.run p es = some { shared := s', threads := p.threads ++ [t'] } := by
  rcases h with ⟨gs, hgs⟩
  refine ⟨.start r :: gs.map (Turn.advance p.threads.length), ?_, ?_⟩
  · simp [started, started_advance]
  · refine (M.lts.run_cons_eq_some).2
      ⟨{ p with threads := p.threads ++ [M.spawn r] }, M.lts_step_start.2 rfl, ?_⟩
    have hrun := M.run_advance (i := p.threads.length)
      (p := { p with threads := p.threads ++ [M.spawn r] }) (by simp) hgs
    simpa using hrun

end ThreadSystem

end Lib
end FileExchange
