import FileExchange.Analyzer.ControlFlow
import FileExchange.Analyzer.Issue
import Mathlib.Data.List.Sort

/-!
# Analyzer.DataFlow — allocations, frees and the leaks that the analyzer reports

Each line is swept three times: for allocations, for frees and for uses of variables.

* `updateVariableStates` : the three sweeps over a line;
* `controlFlowAnalysis`  : the issues about a file;
* `textEvents`           : allocations and frees in the order in which they stand in the text;
* `KeepsOrder`           : when the sweeps see them in an order that makes no difference.
-/

namespace FileExchange
namespace Analyzer

open Lib Python

/-! ## The patterns of a line -/

section Patterns

variable (unicode : Char → Bool)

/-- Match `\w+`. -/
def matchWord (s : Text) : Option (Text × Text) :=
  if s.takeWhile (isWord unicode) = [] then none
  else some (s.takeWhile (isWord unicode), s.dropWhile (isWord unicode))

/-- `(\w+)\s*=\s*(malloc|calloc|realloc|new)\s*\(`. -/
def matchAllocation (s : Text) : Option (Text × Text) :=
  (matchWord unicode s).bind fun (name, rest) =>
    (expect '=' (rest.dropWhile Python.isSpace)).bind fun rest =>
      (oneOf ["malloc", "calloc", "realloc", "new"]
          (rest.dropWhile Python.isSpace)).bind fun rest =>
        (expect '(' (rest.dropWhile Python.isSpace)).map fun rest => (name, rest)

/-- `(free|delete)\s*\(\s*(\w+)\s*\)`. -/
def matchFree (s : Text) : Option (Text × Text) :=
  (oneOf ["free", "delete"] s).bind fun rest =>
    (expect '(' (rest.dropWhile Python.isSpace)).bind fun rest =>
      (matchWord unicode (rest.dropWhile Python.isSpace)).bind fun (name, rest) =>
        (expect ')' (rest.dropWhile Python.isSpace)).map fun rest => (name, rest)

/-- `(\w+)\s*[=!<>+\-*/]`. -/
def matchUse (s : Text) : Option (Text × Text) :=
  (matchWord unicode s).bind fun (name, rest) =>
    match rest.dropWhile Python.isSpace with
    | [] => none
    | c :: rest => if c ∈ ['=', '!', '<', '>', '+', '-', '*', '/'] then some (name, rest) else none

/-- The variables that `finditer` captures on a line. -/
def allocations (instruction : Text) : List Text :=
  (findIter (matchAllocation unicode) instruction).map Prod.snd

def frees (instruction : Text) : List Text :=
  (findIter (matchFree unicode) instruction).map Prod.snd

def uses (instruction : Text) : List Text :=
  (findIter (matchUse unicode) instruction).map Prod.snd

end Patterns

/-! ## The states of the variables -/

/-- An entry of `variable_states`. -/
structure VariableState where
  allocated : Bool
  freed : Bool
  allocationLine : Nat
  freeLine : Option Nat
  lastUsed : Nat
  deriving DecidableEq

abbrev VariableStates := OrderedMap Text VariableState

/-- The sweeps, each for one captured name. -/
def setAllocated (line : Nat) (states : VariableStates) (name : Text) : VariableStates :=
  states.set name
    { allocated := true, freed := false, allocationLine := line, freeLine := none
      lastUsed := line }

def setFreed (line : Nat) (states : VariableStates) (name : Text) : VariableStates :=
  match states.get? name with
  | none => states
  | some state => states.set name { state with freed := true, freeLine := some line }

def setUsed (line : Nat) (states : VariableStates) (name : Text) : VariableStates :=
  match states.get? name with
  | none => states
  | some state => states.set name { state with lastUsed := line }

section Analysis

variable (unicode : Char → Bool)

/-- `_update_variable_states`. -/
def updateVariableStates (states : VariableStates) (instruction : Instruction) : VariableStates :=
  let allocated := (allocations unicode instruction.2).foldl (setAllocated instruction.1) states
  let freed := (frees unicode instruction.2).foldl (setFreed instruction.1) allocated
  (uses unicode instruction.2).foldl (setUsed instruction.1) freed

/-- `analyze_data_flow`. -/
def analyzeDataFlow (cfg : Cfg) : VariableStates :=
  cfg.values.foldl (fun states block => block.foldl (updateVariableStates unicode) states)
    OrderedMap.empty

def leakType : Text := "DATAFLOW_MEMORY_LEAK".toList

def leakSnippet (name : Text) : Text := "Переменная: ".toList ++ name

/-- The issue about a variable that is allocated and not freed. -/
def leakIssue (filePath name : Text) (state : VariableState) : CodeIssue :=
  { filePath := filePath
    lineNumber := state.allocationLine
    column := 0
    issueType := leakType
    category := .memorySafety
    severity := .high
    description := "Потенциальная утечка памяти: '".toList ++ name ++
      "' выделен но не освобожден".toList
    codeSnippet := leakSnippet name
    confidence := 8 / 10
    suggestions := ["Добавить соответствующий free/delete".toList,
      "Проверить все пути выполнения".toList]
    cwe := [] }

/-- `_control_flow_analysis`. -/
def controlFlowAnalysis (filePath content : Text) : List CodeIssue :=
  let cfg := buildControlFlowGraph isControlFlowStatement content
  ((analyzeDataFlow unicode cfg).entries.filter fun e => e.2.allocated && !e.2.freed).map
    fun e => leakIssue filePath e.1 e.2

/-- Some issue reports a leak of the variable. -/
def ReportsLeak (issues : List CodeIssue) (name : Text) : Prop :=
  ∃ i ∈ issues, i.issueType = leakType ∧ i.codeSnippet = leakSnippet name

/-! ## Events in the order of the text -/

inductive Event where
  | allocate (name : Text)
  | free (name : Text)
  deriving DecidableEq

def Event.name : Event → Text
  | allocate name => name
  | free name => name

/-- The allocations and frees of a line, by the places where they start. -/
def lineEvents (instruction : Text) : List Event :=
  (((findIter (matchAllocation unicode) instruction).map fun m => (m.1, Event.allocate m.2)) ++
    (findIter (matchFree unicode) instruction).map fun m => (m.1, Event.free m.2)).insertionSort
      (fun a b => a.1 ≤ b.1) |>.map Prod.snd

def textEvents (code : Text) : List Event :=
  (numberedLines code).flatMap fun i => lineEvents unicode i.2

/-- The last event about a variable is an allocation. -/
def LastIsAllocation (events : List Event) (name : Text) : Prop :=
  (events.filter fun e => e.name = name).getLast? = some (.allocate name)

/-- The last line with an event about a variable. -/
def lastLine (lines : List Instruction) (name : Text) : Option Instruction :=
  (lines.filter fun i => name ∈ (lineEvents unicode i.2).map Event.name).getLast?

/-- If the variable is freed on the last line that names it, it is not allocated after that on
the line. -/
def KeepsOrder (lines : List Instruction) (name : Text) : Prop :=
  ∀ i ∈ lastLine unicode lines name, .free name ∈ lineEvents unicode i.2 →
    ¬ LastIsAllocation (lineEvents unicode i.2) name

end Analysis

/-! ## What a line does to a variable -/

/-- The variable is allocated and not freed. -/
def Leaks (states : VariableStates) (name : Text) : Prop :=
  ∃ state, states.get? name = some state ∧ state.allocated = true ∧ state.freed = false

theorem not_leaks_empty (name : Text) : ¬ Leaks OrderedMap.empty name := by
  rintro ⟨state, hget, _⟩
  cases hget

theorem leaks_set {states : VariableStates} {name other : Text} {state : VariableState} :
    Leaks (states.set other state) name ↔
      if name = other then state.allocated = true ∧ state.freed = false else Leaks states name := by
  unfold Leaks
  split
  · next heq =>
      subst heq
      simp
  · next hne =>
      rw [OrderedMap.get?_set_of_ne hne]

theorem leaks_setAllocated {line : Nat} {states : VariableStates} {name other : Text} :
    Leaks (setAllocated line states other) name ↔ name = other ∨ Leaks states name := by
  rw [setAllocated, leaks_set]
  split
  · next heq => simp [heq]
  · next hne => simp [hne]

theorem leaks_setFreed {line : Nat} {states : VariableStates} {name other : Text} :
    Leaks (setFreed line states other) name ↔ name ≠ other ∧ Leaks states name := by
  unfold setFreed
  cases hget : states.get? other with
  | none =>
      -- a variable that is not known does not leak either
      refine ⟨fun hleaks => ⟨?_, hleaks⟩, And.right⟩
      rintro rfl
      rcases hleaks with ⟨state, hstate, _⟩
      rw [hget] at hstate
      cases hstate
  | some state =>
      dsimp only
      rw [leaks_set]
      split
      · next heq => simp [heq]
      · next hne => simp [hne]

theorem leaks_setUsed {line : Nat} {states : VariableStates} {name other : Text} :
    Leaks (setUsed line states other) name ↔ Leaks states name := by
  unfold setUsed
  cases hget : states.get? other with
  | none =>
      exact Iff.rfl
  | some state =>
      dsimp only
      rw [leaks_set]
      split
      · next heq =>
          subst heq
          simp [Leaks, hget]
      · exact Iff.rfl

theorem leaks_foldl_setAllocated {line : Nat} {name : Text} (names : List Text) :
    ∀ states : VariableStates, Leaks (names.foldl (setAllocated line) states) name ↔
      name ∈ names ∨ Leaks states name := by
  induction names with
  | nil =>
      simp
  | cons other names ih =>
      intro states
      rw [List.foldl_cons, ih, leaks_setAllocated, List.mem_cons]
      tauto

theorem leaks_foldl_setFreed {line : Nat} {name : Text} (names : List Text) :
    ∀ states : VariableStates, Leaks (names.foldl (setFreed line) states) name ↔
      name ∉ names ∧ Leaks states name := by
  induction names with
  | nil =>
      simp
  | cons other names ih =>
      intro states
      rw [List.foldl_cons, ih, leaks_setFreed, List.mem_cons]
      tauto

theorem leaks_foldl_setUsed {line : Nat} {name : Text} (names : List Text) :
    ∀ states : VariableStates, Leaks (names.foldl (setUsed line) states) name ↔
      Leaks states name := by
  induction names with
  | nil =>
      simp
  | cons other names ih =>
      intro states
      rw [List.foldl_cons, ih, leaks_setUsed]

section Lines

variable {unicode : Char → Bool} {name : Text}

theorem allocate_mem_lineEvents {instruction : Text} :
    .allocate name ∈ lineEvents unicode instruction ↔ name ∈ allocations unicode instruction := by
  simp [lineEvents, allocations]

theorem free_mem_lineEvents {instruction : Text} :
    .free name ∈ lineEvents unicode instruction ↔ name ∈ frees unicode instruction := by
  simp [lineEvents, frees]

/-- After a line a variable leaks if the line does not free it and it was allocated before or is
allocated there, wherever on the line. -/
theorem leaks_updateVariableStates {states : VariableStates} {i : Instruction} :
    Leaks (updateVariableStates unicode states i) name ↔
      .free name ∉ lineEvents unicode i.2 ∧
        (.allocate name ∈ lineEvents unicode i.2 ∨ Leaks states name) := by
  simp only [updateVariableStates, leaks_foldl_setUsed, leaks_foldl_setFreed,
    leaks_foldl_setAllocated, allocate_mem_lineEvents, free_mem_lineEvents]

/-- The blocks are read like the lines of the text. -/
theorem analyzeDataFlow_buildControlFlowGraph (isControlFlow : Text → Bool) (code : Text) :
    analyzeDataFlow unicode (buildControlFlowGraph isControlFlow code) =
      (numberedLines code).foldl (updateVariableStates unicode) OrderedMap.empty := by
  rw [analyzeDataFlow, ← flatten_values_buildControlFlowGraph isControlFlow code,
    List.foldl_flatten]

/-! ## The last event -/

/-- The last element with a property is in the second part if there is one there. -/
theorem getLast?_filter_append {α : Type} (p : α → Bool) (l l' : List α) :
    ((l ++ l').filter p).getLast? =
      if ∃ x ∈ l', p x = true then (l'.filter p).getLast? else (l.filter p).getLast? := by
  rw [List.filter_append, List.getLast?_append]
  split
  · next hex =>
      rcases hex with ⟨x, hx, hpx⟩
      have hne : l'.filter p ≠ [] := List.ne_nil_of_mem (List.mem_filter.2 ⟨hx, hpx⟩)
      rw [List.getLast?_eq_some_getLast hne, Option.some_or]
  · next hnone =>
      have hnil : l'.filter p = [] :=
        List.filter_eq_nil_iff.2 fun x hx hpx => hnone ⟨x, hx, hpx⟩
      rw [hnil, List.getLast?_nil, Option.none_or]

theorem lastIsAllocation_append {events events' : List Event} :
    LastIsAllocation (events ++ events') name ↔
      if name ∈ events'.map Event.name then LastIsAllocation events' name
      else LastIsAllocation events name := by
  unfold LastIsAllocation
  rw [getLast?_filter_append]
  simp only [decide_eq_true_eq, ← List.mem_map]
  split <;> exact Iff.rfl

theorem lastLine_concat {lines : List Instruction} {i : Instruction} :
    lastLine unicode (lines ++ [i]) name =
      if name ∈ (lineEvents unicode i.2).map Event.name then some i
      else lastLine unicode lines name := by
  unfold lastLine
  rw [getLast?_filter_append]
  simp only [List.mem_singleton, exists_eq_left, decide_eq_true_eq]
  split
  · next hmem => simp only [List.filter_singleton, hmem, decide_true, cond_true,
      List.getLast?_singleton]
  · rfl

theorem Event.name_eq_iff {e : Event} : e.name = name ↔ e = .allocate name ∨ e = .free name := by
  cases e with
  | allocate other => simp [Event.name]
  | free other => simp [Event.name]

theorem name_mem_iff {events : List Event} :
    name ∈ events.map Event.name ↔ .allocate name ∈ events ∨ .free name ∈ events := by
  simp [Event.name_eq_iff, and_or_left, exists_or]

/-- Events that name the variable and do not free it end with an allocation of it. -/
theorem lastIsAllocation_of_not_freed {events : List Event} (hname : name ∈ events.map Event.name)
    (hfree : .free name ∉ events) : LastIsAllocation events name := by
  unfold LastIsAllocation
  have hne : events.filter (fun e => e.name = name) ≠ [] := by
    rcases List.mem_map.1 hname with ⟨e, he, heq⟩
    exact List.ne_nil_of_mem (List.mem_filter.2 ⟨he, decide_eq_true heq⟩)
  have hlast := List.mem_filter.1 (List.getLast_mem hne)
  rw [List.getLast?_eq_some_getLast hne]
  rcases Event.name_eq_iff.1 (of_decide_eq_true hlast.2) with heq | heq
  · rw [heq]
  · exact absurd (heq ▸ hlast.1) hfree

/-! ## The reports -/

/-- What leaks in the end, against the last event, for any number of lines. -/
theorem leaks_foldl_iff (lines : List Instruction) :
    (Leaks (lines.foldl (updateVariableStates unicode) OrderedMap.empty) name ↔
        LastIsAllocation (lines.flatMap fun i => lineEvents unicode i.2) name) ↔
      KeepsOrder unicode lines name := by
  induction lines using List.reverseRecOn with
  | nil =>
      refine iff_of_true (iff_of_false (not_leaks_empty name) ?_) ?_
      · simp [LastIsAllocation]
      · simp [KeepsOrder, lastLine]
  | append_singleton lines i ih =>
      rw [List.foldl_append, List.foldl_cons, List.foldl_nil, leaks_updateVariableStates,
        List.flatMap_append, List.flatMap_singleton, lastIsAllocation_append, KeepsOrder,
        lastLine_concat]
      by_cases hname : name ∈ (lineEvents unicode i.2).map Event.name
      · simp only [if_pos hname, Option.mem_some_iff, forall_eq']
        by_cases hfree : .free name ∈ lineEvents unicode i.2
        · simp [hfree]
        · -- a line without a free of the variable allocates it
          have halloc := (name_mem_iff.1 hname).resolve_right hfree
          simp [hfree, halloc, lastIsAllocation_of_not_freed hname hfree]
      · have hneither := hname
        rw [name_mem_iff, not_or] at hneither
        simp only [if_neg hname, hneither.1, hneither.2, not_false_iff, true_and, false_or]
        exact ih

end Lines

theorem leakSnippet_injective : Function.Injective leakSnippet :=
  fun _ _ h => List.append_cancel_left h

theorem reportsLeak_controlFlowAnalysis {unicode : Char → Bool} {filePath content name : Text} :
    ReportsLeak (controlFlowAnalysis unicode filePath content) name ↔
      Leaks ((numberedLines content).foldl (updateVariableStates unicode) OrderedMap.empty)
        name := by
  rw [← analyzeDataFlow_buildControlFlowGraph isControlFlowStatement content]
  simp only [ReportsLeak, controlFlowAnalysis, List.mem_map, List.mem_filter, Leaks,
    OrderedMap.get?_eq_some_iff]
  constructor
  · rintro ⟨_, ⟨⟨other, state⟩, ⟨hmem, hstate⟩, rfl⟩, _, hsnippet⟩
    cases leakSnippet_injective hsnippet
    exact ⟨state, hmem, by simpa using hstate⟩
  · rintro ⟨state, hmem, hallocated, hfreed⟩
    exact ⟨_, ⟨(name, state), ⟨hmem, by simp [hallocated, hfreed]⟩, rfl⟩, rfl, rfl⟩

/-- A leak of a variable is reported if and only if the last event about it in the text is an
allocation, exactly when no line that is the last to name it allocates it after it frees it. -/
theorem leak_reports_follow_order_iff (unicode : Char → Bool) (filePath content name : Text) :
    (ReportsLeak (controlFlowAnalysis unicode filePath content) name ↔
        LastIsAllocation (textEvents unicode content) name) ↔
      KeepsOrder unicode (numberedLines content) name := by
  rw [reportsLeak_controlFlowAnalysis]
  exact leaks_foldl_iff (numberedLines content)

def noUnicode : Char → Bool := fun _ => false

/-- Freed and allocated again on one line, the variable is taken for freed. -/
theorem free_then_allocate_not_reported :
    LastIsAllocation (textEvents noUnicode "p = malloc(1);\nfree(p); p = malloc(2);".toList)
        "p".toList ∧
      ¬ ReportsLeak (controlFlowAnalysis noUnicode "a.c".toList
        "p = malloc(1);\nfree(p); p = malloc(2);".toList) "p".toList := by
  constructor
  · unfold LastIsAllocation
    decide
  · unfold ReportsLeak
    decide

end Analyzer
end FileExchange
