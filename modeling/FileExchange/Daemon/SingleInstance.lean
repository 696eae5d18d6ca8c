import Mathlib.Data.Fintype.EquivFin
import FileExchange.Lib.TransitionSystem

/-!
# Daemon.SingleInstance — the PID file of `main.c`

A daemon looks for another one in the PID file, forks, and only then writes its own PID.  On its
way out it removes the file, whoever wrote it.

* `isDaemonRunning`, `writePidFile` : the two functions on the PID file;
* `daemonStep`     : the steps of one process, from `main` to its end;
* `daemons`        : any number of processes in any interleaving;
* `atMostOne_of_orderly` : at most one runs, if no process writes its PID while another one
  that has found nothing is still about to;
* `two_daemons_of_waiting` : otherwise two can come to run.
-/

namespace FileExchange

open Lib

/-! ## Processes -/

/-- Where a process stands in `main`: before `is_daemon_running`, before `daemon`, before
`write_pid_file`, after it, in `cleanup_resources` before `unlink`, or at its end. -/
inductive DaemonPc
  | starting
  | checked
  | daemonised
  | running
  | cleaning
  | exited
  deriving DecidableEq, Repr

structure DaemonProcess where
  pid : Nat
  pc : DaemonPc
  deriving DecidableEq, Repr

/-- The PID file, if it exists, with the number that `fscanf` finds in it, if any; and the
processes in the order of their start. -/
structure Daemons where
  pidFile : Option (Option Nat)
  processes : List DaemonProcess
  deriving DecidableEq, Repr

/-- `kill(pid, 0) == 0`, as far as daemons are concerned. -/
def Daemons.alive (s : Daemons) (pid : Nat) : Bool :=
  s.processes.any fun q => decide (q.pid = pid) && decide (q.pc ≠ .exited)

/-- What a probe finds: whether a PID file that exists can be opened, and whether its number is
the PID of another program. -/
structure ProbeEnv where
  opened : Bool
  otherProgram : Bool
  deriving DecidableEq, Repr

def isDaemonRunning (s : Daemons) (env : ProbeEnv) : Bool :=
  match if env.opened then s.pidFile else none with
  | none => false
  -- `fscanf` does not return 1
  | some none => false
  | some (some oldPid) => s.alive oldPid || env.otherProgram

/-- Whether the PID file opens for writing, and whether the number has reached it after
`fclose`. -/
structure WriteEnv where
  opened : Bool
  written : Bool
  deriving DecidableEq, Repr

def writePidFile (pidFile : Option (Option Nat)) (pid : Nat) (env : WriteEnv) :
    Option (Option Nat) × Bool :=
  if !env.opened then (pidFile, false)
  -- `fprintf` and `fclose` are not checked
  else (some (if env.written then some pid else none), true)

/-- The steps of a process.  `daemon` makes a child with a PID of its own, which goes on, unless
`fork` fails; `cleanup` stands for a failed initialisation as well as for a signal. -/
inductive DaemonAction
  | probe (env : ProbeEnv)
  | daemonise (child : Option Nat)
  | writePid (env : WriteEnv)
  | cleanup
  | unlink
  | die
  deriving DecidableEq, Repr

/-- The PID file and the process after a step, when it can make it. -/
def daemonStep (s : Daemons) (q : DaemonProcess) :
    DaemonAction → Option (Option (Option Nat) × DaemonProcess)
  | .probe env =>
      if q.pc = .starting then
        some (s.pidFile, { q with pc := if isDaemonRunning s env then .exited else .checked })
      else none
  | .daemonise none =>
      if q.pc = .checked then some (s.pidFile, { q with pc := .exited }) else none
  | .daemonise (some child) =>
      -- the parent has exited when the child goes on
      if q.pc = .checked ∧ s.alive child = false then
        some (s.pidFile, { pid := child, pc := .daemonised })
      else none
  | .writePid env =>
      if q.pc = .daemonised then
        let w := writePidFile s.pidFile q.pid env
        -- without a PID file the process exits, but not by way of `cleanup_resources`
        some (w.1, { q with pc := if w.2 then .running else .exited })
      else none
  | .cleanup => if q.pc = .running then some (s.pidFile, { q with pc := .cleaning }) else none
  | .unlink => if q.pc = .cleaning then some (none, { q with pc := .exited }) else none
  | .die => if q.pc ≠ .exited then some (s.pidFile, { q with pc := .exited }) else none

inductive DaemonEvent
  | start (pid : Nat)
  | act (i : Nat) (a : DaemonAction)
  deriving DecidableEq, Repr

/-- All interleavings of all processes. -/
def daemons : Lts Daemons DaemonEvent where
  step s
    | .start pid =>
        if s.alive pid then none
        else some { s with processes := s.processes ++ [{ pid := pid, pc := .starting }] }
    | .act i a =>
        (s.processes[i]?).bind fun q =>
          (daemonStep s q a).map fun r => { pidFile := r.1, processes := s.processes.set i r.2 }

/-- Past its check, but not past `write_pid_file`. -/
def DaemonProcess.waits (q : DaemonProcess) : Bool :=
  decide (q.pc = .checked) || decide (q.pc = .daemonised)

/-- Past `write_pid_file`, but not past `unlink`. -/
def DaemonProcess.holds (q : DaemonProcess) : Bool :=
  decide (q.pc = .running) || decide (q.pc = .cleaning)

/-- No two processes are past `write_pid_file` and not yet in `cleanup_resources`. -/
def AtMostOne (s : Daemons) : Prop :=
  s.processes.Pairwise fun q q' => ¬ (q.pc = .running ∧ q'.pc = .running)

/-- The PID file opens for every probe and gets every PID, and no process writes its PID while
another one is between its check and `write_pid_file`. -/
def Orderly (s : Daemons) : DaemonEvent → Prop
  | .act _ (.probe env) => env.opened = true
  | .act i (.writePid env) =>
      env.opened = true → env.written = true ∧ ∀ q ∈ s.processes.eraseIdx i, q.waits = false
  | _ => True

instance (s : Daemons) : Decidable (AtMostOne s) := by
  unfold AtMostOne
  infer_instance

instance (s : Daemons) : (e : DaemonEvent) → Decidable (Orderly s e)
  | .start _ => isTrue trivial
  | .act _ (.probe env) => inferInstanceAs (Decidable (env.opened = true))
  | .act i (.writePid env) =>
      inferInstanceAs (Decidable (env.opened = true →
        env.written = true ∧ ∀ q ∈ s.processes.eraseIdx i, q.waits = false))
  | .act _ (.daemonise _) => isTrue trivial
  | .act _ .cleanup => isTrue trivial
  | .act _ .unlink => isTrue trivial
  | .act _ .die => isTrue trivial

/-! ## The holder of the PID file -/

/-- The PID file names the process that holds it, and this process neither shares it nor is about
to. -/
structure SingleHolder (s : Daemons) : Prop where
  named : ∀ {i : Nat} {q : DaemonProcess}, s.processes[i]? = some q → q.holds = true →
    s.pidFile = some (some q.pid)
  alone : ∀ {i j : Nat} {q q' : DaemonProcess}, s.processes[i]? = some q → q.holds = true →
    s.processes[j]? = some q' → q'.holds = true ∨ q'.waits = true → j = i

section Holder

variable {s : Daemons} {i : Nat} {q q' : DaemonProcess}

theorem DaemonProcess.not_waits_of_holds (h : q.holds = true) : q.waits = false := by
  rcases q with ⟨pid, pc⟩
  cases pc <;> first | rfl | cases h

theorem SingleHolder.atMostOne (h : SingleHolder s) : AtMostOne s := by
  have hholds : ∀ {q : DaemonProcess}, q.pc = .running → q.holds = true := by
    intro q hq
    simp [DaemonProcess.holds, hq]
  refine List.pairwise_iff_getElem.2 fun i j hi hj hlt hboth => ?_
  have hsame := h.alone (List.getElem?_eq_getElem hi) (hholds hboth.1)
    (List.getElem?_eq_getElem hj) (Or.inl (hholds hboth.2))
  omega

/-- The holder is alive, so a probe that can read its PID finds it. -/
theorem SingleHolder.isDaemonRunning (h : SingleHolder s) (hi : s.processes[i]? = some q)
    (hholds : q.holds = true) {env : ProbeEnv} (hopened : env.opened = true) :
    isDaemonRunning s env = true := by
  have halive : s.alive q.pid = true := by
    refine List.any_eq_true.2 ⟨q, List.mem_of_getElem? hi, ?_⟩
    have hpc : q.pc ≠ .exited := by
      intro hpc
      simp [DaemonProcess.holds, hpc] at hholds
    simp [hpc]
  simp [FileExchange.isDaemonRunning, hopened, h.named hi hholds, halive]

/-- A step of a process that claims no more than before. -/
theorem SingleHolder.keep (h : SingleHolder s) (hi : s.processes[i]? = some q)
    (hholds : q'.holds = true → q.holds = true ∧ q'.pid = q.pid)
    (hwaits : q'.waits = true → q.waits = true ∨
      ∀ {j : Nat} {p : DaemonProcess}, s.processes[j]? = some p → p.holds = false) :
    SingleHolder { s with processes := s.processes.set i q' } := by
  have hbound : i < s.processes.length := (List.getElem?_eq_some_iff.1 hi).1
  -- a holder was one before, with the same PID
  have hbefore : ∀ {k : Nat} {p : DaemonProcess}, (s.processes.set i q')[k]? = some p →
      p.holds = true → ∃ p' : DaemonProcess,
        s.processes[k]? = some p' ∧ p'.holds = true ∧ p.pid = p'.pid := by
    intro k p hk hp
    by_cases hki : k = i
    · subst hki
      rw [List.getElem?_set_self hbound] at hk
      cases hk
      exact ⟨q, hi, hholds hp⟩
    · rw [List.getElem?_set_ne (Ne.symm hki)] at hk
      exact ⟨p, hk, hp, rfl⟩
  constructor
  · intro k p hk hp
    rcases hbefore hk hp with ⟨p', hk', hp', hpid⟩
    rw [hpid]
    exact h.named hk' hp'
  · intro k j p p₁ hk hp hj hp₁
    rcases hbefore hk hp with ⟨p', hk', hp', _⟩
    rcases hp₁ with hp₁ | hp₁
    · rcases hbefore hj hp₁ with ⟨p₁', hj', hp₁', _⟩
      exact h.alone hk' hp' hj' (Or.inl hp₁')
    · by_cases hji : j = i
      · subst hji
        rw [List.getElem?_set_self hbound] at hj
        cases hj
        rcases hwaits hp₁ with hq | hnone
        · exact h.alone hk' hp' hi (Or.inr hq)
        · rw [hnone hk'] at hp'
          cases hp'
      · rw [List.getElem?_set_ne (Ne.symm hji)] at hj
        exact h.alone hk' hp' hj (Or.inr hp₁)

/-- A process that starts claims nothing. -/
theorem SingleHolder.start (h : SingleHolder s) (pid : Nat) :
    SingleHolder { s with processes := s.processes ++ [{ pid := pid, pc := .starting }] } := by
  have hold : ∀ {k : Nat} {p : DaemonProcess},
      (s.processes ++ [{ pid := pid, pc := .starting }])[k]? = some p →
      p.holds = true ∨ p.waits = true → s.processes[k]? = some p := by
    intro k p hk hp
    by_cases hlt : k < s.processes.length
    · rwa [List.getElem?_append_left hlt] at hk
    · rw [List.getElem?_append_right (by omega)] at hk
      cases List.mem_singleton.1 (List.mem_of_getElem? hk)
      rcases hp with hp | hp <;> cases hp
  exact ⟨fun hk hp => h.named (hold hk (Or.inl hp)) hp,
    fun hk hp hj hp' => h.alone (hold hk (Or.inl hp)) hp (hold hj hp') hp'⟩

/-- The write of a PID while nobody else waits: now this process holds the file. -/
theorem SingleHolder.writePid (h : SingleHolder s) (hi : s.processes[i]? = some q)
    (hq : q.pc = .daemonised) (hothers : ∀ p ∈ s.processes.eraseIdx i, p.waits = false) :
    SingleHolder
      { pidFile := some (some q.pid)
        processes := s.processes.set i { q with pc := .running } } := by
  have hbound : i < s.processes.length := (List.getElem?_eq_some_iff.1 hi).1
  have hwaits : q.waits = true := by
    simp [DaemonProcess.waits, hq]
  -- while it waited, nobody held the file
  have hnone : ∀ {k : Nat} {p : DaemonProcess}, s.processes[k]? = some p → p.holds = false := by
    intro k p hk
    by_contra hp
    rw [Bool.not_eq_false] at hp
    cases h.alone hk hp hi (Or.inr hwaits)
    cases hi.symm.trans hk
    rw [DaemonProcess.not_waits_of_holds hp] at hwaits
    cases hwaits
  have hsole : ∀ {k : Nat} {p : DaemonProcess},
      (s.processes.set i { q with pc := .running })[k]? = some p →
      p.holds = true ∨ p.waits = true → k = i := by
    intro k p hk hp
    by_contra hki
    rw [List.getElem?_set_ne (Ne.symm hki)] at hk
    rcases hp with hp | hp
    · rw [hnone hk] at hp
      cases hp
    · rw [hothers p (List.mem_eraseIdx_iff_getElem?.2 ⟨k, hki, hk⟩)] at hp
      cases hp
  constructor
  · intro k p hk hp
    cases hsole hk (Or.inl hp)
    rw [List.getElem?_set_self hbound] at hk
    cases hk
    rfl
  · intro k j p p' hk hp hj hp'
    exact (hsole hj hp').trans (hsole hk (Or.inl hp)).symm

/-- The removal of the PID file: it was that of the holder, and nobody holds it now. -/
theorem SingleHolder.unlink (h : SingleHolder s) (hi : s.processes[i]? = some q)
    (hq : q.holds = true) :
    SingleHolder { pidFile := none, processes := s.processes.set i { q with pc := .exited } } := by
  have hbound : i < s.processes.length := (List.getElem?_eq_some_iff.1 hi).1
  have hnone : ∀ {k : Nat} {p : DaemonProcess},
      (s.processes.set i { q with pc := .exited })[k]? = some p → p.holds = false := by
    intro k p hk
    by_cases hki : k = i
    · subst hki
      rw [List.getElem?_set_self hbound] at hk
      cases hk
      rfl
    · rw [List.getElem?_set_ne (Ne.symm hki)] at hk
      by_contra hp
      rw [Bool.not_eq_false] at hp
      exact hki (h.alone hi hq hk (Or.inl hp))
  constructor
  · intro k p hk hp
    rw [hnone hk] at hp
    cases hp
  · intro k j p p' hk hp _ _
    rw [hnone hk] at hp
    cases hp

/-- One step of one process. -/
theorem SingleHolder.step {s' : Daemons} {e : DaemonEvent} (h : SingleHolder s)
    (horderly : Orderly s e) (hstep : daemons.step s e = some s') : SingleHolder s' := by
  cases e with
  | start pid =>
      simp only [daemons] at hstep
      split at hstep
      · cases hstep
      · cases hstep
        exact h.start pid
  | act i a =>
      rcases Option.bind_eq_some_iff.1 hstep with ⟨q, hi, hmap⟩
      rcases Option.map_eq_some_iff.1 hmap with ⟨⟨pidFile, q'⟩, hmove, rfl⟩
      cases a with
      | probe env =>
          simp only [daemonStep] at hmove
          split at hmove
          · cases hmove
            refine h.keep hi ?_ fun hw => Or.inr fun {j p} hj => ?_
            · split <;> intro hclaim <;> cases hclaim
            · -- a holder would have been found
              by_contra hp
              rw [Bool.not_eq_false] at hp
              rw [h.isDaemonRunning hj hp horderly] at hw
              cases hw
          · cases hmove
      | daemonise child =>
          cases child with
          | none =>
              simp only [daemonStep] at hmove
              split at hmove
              · cases hmove
                exact h.keep hi (fun hclaim => by cases hclaim) fun hclaim => by cases hclaim
              · cases hmove
          | some child =>
              simp only [daemonStep] at hmove
              split at hmove
              · next hq =>
                  cases hmove
                  exact h.keep hi (fun hclaim => by cases hclaim) fun _ =>
                    Or.inl (by simp [DaemonProcess.waits, hq.1])
              · cases hmove
      | writePid env =>
          simp only [daemonStep, writePidFile] at hmove
          split at hmove
          · next hq =>
              cases hopened : env.opened with
              | false =>
                  simp only [hopened, Bool.not_false, if_true, Option.some.injEq] at hmove
                  cases hmove
                  exact h.keep hi (fun hclaim => by cases hclaim) fun hclaim => by cases hclaim
              | true =>
                  rcases horderly hopened with ⟨hwritten, hothers⟩
                  simp only [hopened, hwritten, Bool.not_true, Bool.false_eq_true, if_false,
                    if_true, Option.some.injEq] at hmove
                  cases hmove
                  exact h.writePid hi hq hothers
          · cases hmove
      | cleanup =>
          simp only [daemonStep] at hmove
          split at hmove
          · next hq =>
              cases hmove
              exact h.keep hi (fun _ => ⟨by simp [DaemonProcess.holds, hq], rfl⟩)
                fun hclaim => by cases hclaim
          · cases hmove
      | unlink =>
          simp only [daemonStep] at hmove
          split at hmove
          · next hq =>
              cases hmove
              exact h.unlink hi (by simp [DaemonProcess.holds, hq])
          · cases hmove
      | die =>
          simp only [daemonStep] at hmove
          split at hmove
          · cases hmove
            exact h.keep hi (fun hclaim => by cases hclaim) fun hclaim => by cases hclaim
          · cases hmove

end Holder

/-! ## Runs -/

/-- In every run, from whatever PID file was left before: if every step is orderly, at most one
process runs at any time. -/
theorem atMostOne_of_orderly (pidFile : Option (Option Nat)) {es : List DaemonEvent}
    (h : daemons.EachStep Orderly { pidFile := pidFile, processes := [] } es) :
    daemons.Always AtMostOne { pidFile := pidFile, processes := [] } es := by
  have hinit : SingleHolder { pidFile := pidFile, processes := [] } := by
    constructor
    · intro i q hi
      cases hi
    · intro i j q q' hi
      cases hi
  exact daemons.always_of_eachStep (fun _ hs => SingleHolder.atMostOne hs)
    (fun _ _ _ hs horderly hstep => SingleHolder.step hs horderly hstep) hinit h

section Waiting

variable {s s' : Daemons} {i j : Nat} {q q' : DaemonProcess}

theorem not_atMostOne_of_running (hi : s.processes[i]? = some q) (hq : q.pc = .running)
    (hj : s.processes[j]? = some q') (hq' : q'.pc = .running) (hne : j ≠ i) :
    ¬ AtMostOne s := by
  intro h
  rcases List.getElem?_eq_some_iff.1 hi with ⟨hilt, rfl⟩
  rcases List.getElem?_eq_some_iff.1 hj with ⟨hjlt, rfl⟩
  rcases Nat.lt_or_gt_of_ne hne with hlt | hlt
  · exact List.pairwise_iff_getElem.1 h j i hjlt hilt hlt ⟨hq', hq⟩
  · exact List.pairwise_iff_getElem.1 h i j hilt hjlt hlt ⟨hq, hq'⟩

theorem exists_free_pid (s : Daemons) : ∃ pid, s.alive pid = false := by
  rcases Infinite.exists_notMem_finset (s.processes.map DaemonProcess.pid).toFinset with
    ⟨pid, hpid⟩
  refine ⟨pid, List.any_eq_false.2 fun q hq hsame => hpid ?_⟩
  rw [Bool.and_eq_true, decide_eq_true_eq] at hsame
  rw [List.mem_toFinset, ← hsame.1]
  exact List.mem_map_of_mem hq

/-- While one process runs, another one that has daemonised can come to run. -/
theorem two_daemons_of_daemonised (hi : s.processes[i]? = some q) (hq : q.pc = .running)
    (hj : s.processes[j]? = some q') (hq' : q'.pc = .daemonised) (hne : j ≠ i) :
    ∃ es s', daemons.run s es = some s' ∧ ¬ AtMostOne s' := by
  have hbound : j < s.processes.length := (List.getElem?_eq_some_iff.1 hj).1
  let env : WriteEnv := { opened := true, written := true }
  let q₁ : DaemonProcess := { q' with pc := .running }
  let s₁ : Daemons := { pidFile := some (some q'.pid), processes := s.processes.set j q₁ }
  refine ⟨[.act j (.writePid env)], s₁, ?_, ?_⟩
  · simp [Lts.run, daemons, hj, daemonStep, hq', writePidFile, env, q₁, s₁]
  · have hi' : (s.processes.set j q₁)[i]? = some q := by
      rw [List.getElem?_set_ne hne, hi]
    exact not_atMostOne_of_running hi' hq (List.getElem?_set_self hbound) rfl hne

/-- The last condition of `Orderly` cannot be weakened: when a process writes its PID while
another one is between its check and `write_pid_file`, two can come to run. -/
theorem two_daemons_of_waiting {env : WriteEnv} (hopened : env.opened = true)
    (hstep : daemons.step s (.act i (.writePid env)) = some s')
    (hj : s.processes[j]? = some q) (hne : j ≠ i) (hwaits : q.waits = true) :
    ∃ es s'', daemons.run s' es = some s'' ∧ ¬ AtMostOne s'' := by
  rcases Option.bind_eq_some_iff.1 hstep with ⟨p, hi, hmap⟩
  rcases Option.map_eq_some_iff.1 hmap with ⟨⟨pidFile, p'⟩, hmove, rfl⟩
  have hbound : i < s.processes.length := (List.getElem?_eq_some_iff.1 hi).1
  have hp' : p'.pc = .running := by
    simp only [daemonStep, writePidFile, hopened] at hmove
    split at hmove
    · cases hmove
      rfl
    · cases hmove
  have hi' : (s.processes.set i p')[i]? = some p' := List.getElem?_set_self hbound
  have hj' : (s.processes.set i p')[j]? = some q := by
    rw [List.getElem?_set_ne (Ne.symm hne), hj]
  simp only [DaemonProcess.waits, Bool.or_eq_true, decide_eq_true_eq] at hwaits
  rcases hwaits with hchecked | hdaemonised
  · -- it forks first, and its child goes on
    let s₁ : Daemons := { pidFile := pidFile, processes := s.processes.set i p' }
    rcases exists_free_pid s₁ with ⟨child, hchild⟩
    let q₁ : DaemonProcess := { pid := child, pc := .daemonised }
    let s₂ : Daemons := { s₁ with processes := s₁.processes.set j q₁ }
    have hbound' : j < s₁.processes.length := (List.getElem?_eq_some_iff.1 hj').1
    have hfork : daemons.step s₁ (.act j (.daemonise (some child))) = some s₂ := by
      simp [daemons, s₁, hj', daemonStep, hchecked, hchild, s₂, q₁]
    have hi₂ : s₂.processes[i]? = some p' := by
      rw [List.getElem?_set_ne hne]
      exact hi'
    rcases two_daemons_of_daemonised hi₂ hp' (List.getElem?_set_self hbound') rfl hne with
      ⟨es, s'', hrun, hboth⟩
    exact ⟨_ :: es, s'', (daemons.run_cons_eq_some).2 ⟨s₂, hfork, hrun⟩, hboth⟩
  · exact two_daemons_of_daemonised hi' hp' hj' hdaemonised hne

end Waiting

/-! ## Two processes -/

/-- A probe and a write of the PID file that work. -/
def probing (i : Nat) : DaemonEvent :=
  .act i (.probe { opened := true, otherProgram := false })

def writingPid (i : Nat) : DaemonEvent :=
  .act i (.writePid { opened := true, written := true })

/-- The second one looks after the first one has written its PID. -/
theorem atMostOne_one_after_another :
    daemons.Always AtMostOne { pidFile := some (some 7), processes := [] }
      [.start 10, probing 0, .act 0 (.daemonise (some 11)), writingPid 0, .start 12, probing 1,
        .act 0 .cleanup, .act 0 .unlink, .start 13, probing 2] :=
  atMostOne_of_orderly (some (some 7)) (by decide)

/-- The second one looks before the first one has written its PID, and then both run. -/
theorem atMostOne_not_at_once :
    ¬ daemons.Always AtMostOne { pidFile := none, processes := [] }
      [.start 10, .start 11, probing 0, probing 1, .act 0 (.daemonise (some 12)),
        .act 1 (.daemonise (some 13)), writingPid 0, writingPid 1] := by
  decide

end FileExchange
