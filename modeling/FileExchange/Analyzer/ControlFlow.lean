import FileExchange.Lib.Blocks
import FileExchange.Lib.OrderedMap
import FileExchange.PythonLibrary

/-!
# Analyzer.ControlFlow — the blocks that `ControlFlowAnalyzer` cuts a file into

* `buildControlFlowGraph`    : the loop over the lines of the text;
* `isControlFlowStatement`   : the patterns with which the analyzer calls it;
* `GraphState.Builds`        : the blocks and the open block hold the lines read so far.
-/

namespace FileExchange
namespace Analyzer

open Lib Python

/-- A line number and the line without the white space around it. -/
abbrev Instruction := Nat × Text

/-- `cfg`: the blocks by their ids, in the order in which they were added. -/
abbrev Cfg := OrderedMap Nat (List Instruction)

/-- The local variables of `build_control_flow_graph`. -/
structure GraphState where
  cfg : Cfg
  currentBlock : List Instruction
  blockId : Nat

namespace GraphState

def init : GraphState :=
  { cfg := OrderedMap.empty, currentBlock := [], blockId := 0 }

/-- `cfg[block_id] = current_block.copy()`, a new list for the block and the next id. -/
def flush (s : GraphState) : GraphState :=
  { cfg := s.cfg.set s.blockId s.currentBlock, currentBlock := [], blockId := s.blockId + 1 }

def append (s : GraphState) (i : Instruction) : GraphState :=
  { s with currentBlock := s.currentBlock ++ [i] }

end GraphState

def closingBrace : Text := ['}']

/-- One round of the loop. -/
def graphStep (isControlFlow : Text → Bool) (s : GraphState) (entry : Text × Nat) : GraphState :=
  let line := strip entry.1
  let s₁ := if isControlFlow line ∧ s.currentBlock ≠ [] then s.flush else s
  let s₂ := s₁.append (entry.2 + 1, line)
  if line = closingBrace ∧ s₂.currentBlock ≠ [] then s₂.flush else s₂

/-- `if current_block:` after the loop. -/
def finishGraph (s : GraphState) : Cfg :=
  if s.currentBlock ≠ [] then s.cfg.set s.blockId s.currentBlock else s.cfg

/-- `build_control_flow_graph`, over the predicate in place of `_is_control_flow_statement`. -/
def buildControlFlowGraph (isControlFlow : Text → Bool) (code : Text) : Cfg :=
  finishGraph ((split '\n' code).zipIdx.foldl (graphStep isControlFlow) GraphState.init)

/-! ## The patterns of control flow -/

/-- `re.match` of a keyword and white space, `\s*` or `\s+`, that ends at `last`. -/
def matchKeyword (keyword : String) (atLeastOne : Bool) (last : Option Char) (line : Text) : Bool :=
  keyword.toList.isPrefixOf line &&
    (!atLeastOne || ((line.drop keyword.length).head?.any Python.isSpace)) &&
    match last with
    | none => true
    | some c => ((line.drop keyword.length).dropWhile Python.isSpace).head? = some c

/-- `_is_control_flow_statement`. -/
def isControlFlowStatement (line : Text) : Bool :=
  matchKeyword "if" false (some '(') line || matchKeyword "else" false none line ||
    matchKeyword "for" false (some '(') line || matchKeyword "while" false (some '(') line ||
    matchKeyword "switch" false (some '(') line || matchKeyword "case" true none line ||
    matchKeyword "return" true none line || matchKeyword "break" false (some ';') line ||
    matchKeyword "continue" false (some ';') line || matchKeyword "goto" true none line

/-! ## The lines of a text -/

/-- The lines of a text, numbered from 1 and without the white space around them. -/
def numberedLines (code : Text) : List Instruction :=
  (split '\n' code).zipIdx.map fun entry => (entry.2 + 1, strip entry.1)

/-- The lines are numbered from 1 without a gap. -/
theorem map_fst_numberedLines (code : Text) :
    (numberedLines code).map Prod.fst = List.range' 1 (numberedLines code).length := by
  calc
    (numberedLines code).map Prod.fst
        = ((split '\n' code).zipIdx.map Prod.snd).map (· + 1) := by
          rw [numberedLines, List.map_map, List.map_map]
          rfl
    _ = (List.range' 0 (numberedLines code).length).map (· + 1) := by
          rw [List.zipIdx_map_snd]
          simp [numberedLines]
    _ = List.range' 1 (numberedLines code).length := by
          rw [List.range'_eq_map_range, List.range'_eq_map_range, List.map_map]
          simp [Function.comp_def, Nat.add_comm]

/-! ## The invariant of the loop -/

/-- What the loop has made of the lines `seen`. -/
structure GraphState.Builds (isControlFlow : Text → Bool) (seen : List Instruction)
    (s : GraphState) : Prop where
  keys_eq : s.cfg.keys = List.range s.blockId
  cutting : Cutting (fun i => isControlFlow i.2) (fun i => i.2 = closingBrace) seen s.cfg.values
    s.currentBlock

namespace GraphState.Builds

variable {isControlFlow : Text → Bool} {seen : List Instruction} {s : GraphState}

theorem not_mem_keys (h : Builds isControlFlow seen s) : s.blockId ∉ s.cfg.keys := by
  rw [h.keys_eq]
  exact List.not_mem_range_self

theorem keys_set (h : Builds isControlFlow seen s) (block : List Instruction) :
    (s.cfg.set s.blockId block).keys = List.range (s.blockId + 1) := by
  rw [OrderedMap.keys_set_of_not_mem h.not_mem_keys, h.keys_eq, List.range_succ]

theorem init : Builds isControlFlow [] GraphState.init :=
  ⟨rfl, Cutting.init⟩

theorem flush (h : Builds isControlFlow seen s) (hne : s.currentBlock ≠ []) :
    Builds isControlFlow seen s.flush := by
  refine ⟨h.keys_set s.currentBlock, ?_⟩
  change Cutting _ _ seen (s.cfg.set s.blockId s.currentBlock).values []
  rw [OrderedMap.values_set_of_not_mem h.not_mem_keys]
  exact h.cutting.flush hne

/-- The line of a round goes into the open block. -/
theorem append {i : Instruction} (h : Builds isControlFlow seen s)
    (hi : s.currentBlock ≠ [] → ¬ isControlFlow i.2) (hclose : i.2 ≠ closingBrace) :
    Builds isControlFlow (seen ++ [i]) (s.append i) :=
  ⟨h.keys_eq, h.cutting.push hi hclose⟩

/-- It may also be the last of its block. -/
theorem appendFlush {i : Instruction} (h : Builds isControlFlow seen s)
    (hi : s.currentBlock ≠ [] → ¬ isControlFlow i.2) :
    Builds isControlFlow (seen ++ [i]) (s.append i).flush := by
  refine ⟨h.keys_set _, ?_⟩
  change Cutting _ _ _ (s.cfg.set s.blockId (s.currentBlock ++ [i])).values []
  rw [OrderedMap.values_set_of_not_mem h.not_mem_keys]
  exact h.cutting.pushFlush hi

/-- A round takes its line, once the block before it is closed if it has to be. -/
theorem graphStep (h : Builds isControlFlow seen s) (entry : Text × Nat) :
    Builds isControlFlow (seen ++ [(entry.2 + 1, strip entry.1)])
      (graphStep isControlFlow s entry) := by
  have htake : ∀ t : GraphState, Builds isControlFlow seen t →
      (t.currentBlock ≠ [] → ¬ isControlFlow (strip entry.1)) →
      Builds isControlFlow (seen ++ [(entry.2 + 1, strip entry.1)])
        (if strip entry.1 = closingBrace ∧ (t.append (entry.2 + 1, strip entry.1)).currentBlock ≠ []
          then (t.append (entry.2 + 1, strip entry.1)).flush
          else t.append (entry.2 + 1, strip entry.1)) := by
    intro t ht hopen
    by_cases hclose : strip entry.1 = closingBrace
    · rw [if_pos ⟨hclose, by simp [GraphState.append]⟩]
      exact ht.appendFlush hopen
    · rw [if_neg fun hand => hclose hand.1]
      exact ht.append hopen hclose
  by_cases hflush : isControlFlow (strip entry.1) ∧ s.currentBlock ≠ []
  · simp only [Analyzer.graphStep, if_pos hflush]
    exact htake s.flush (h.flush hflush.2) fun hne => absurd rfl hne
  · simp only [Analyzer.graphStep, if_neg hflush]
    exact htake s h fun hne hcf => hflush ⟨hcf, hne⟩

/-- The loop takes all lines, in their order. -/
theorem foldl (entries : List (Text × Nat)) : ∀ {seen : List Instruction} {s : GraphState},
    Builds isControlFlow seen s →
      Builds isControlFlow (seen ++ entries.map fun entry => (entry.2 + 1, strip entry.1))
        (entries.foldl (Analyzer.graphStep isControlFlow) s) := by
  induction entries with
  | nil =>
      intro seen s h
      simpa using h
  | cons entry entries ih =>
      intro seen s h
      simpa using ih (h.graphStep entry)

end GraphState.Builds

/-! ## The blocks -/

/-- After the last line, the blocks hold the lines. -/
theorem finishGraph_spec {isControlFlow : Text → Bool} {seen : List Instruction} {s : GraphState}
    (h : s.Builds isControlFlow seen) :
    (∃ k, (finishGraph s).keys = List.range k) ∧ (finishGraph s).values.flatten = seen ∧
      ∀ b ∈ (finishGraph s).values,
        IsBlock (fun i => isControlFlow i.2) (fun i => i.2 = closingBrace) b := by
  by_cases hcur : s.currentBlock = []
  · have hcut := h.cutting
    rw [hcur] at hcut
    rw [finishGraph, if_neg (not_not.2 hcur)]
    refine ⟨⟨_, h.keys_eq⟩, ?_, hcut.isBlock⟩
    simpa using hcut.flatten_append
  · have hlast := h.flush hcur
    rw [finishGraph, if_pos hcur]
    refine ⟨⟨_, hlast.keys_eq⟩, ?_, hlast.cutting.isBlock⟩
    exact (List.append_nil _).symm.trans hlast.cutting.flatten_append

/-- Block after block, the lines of the text come in their order. -/
theorem flatten_values_buildControlFlowGraph (isControlFlow : Text → Bool) (code : Text) :
    (buildControlFlowGraph isControlFlow code).values.flatten = numberedLines code := by
  have hlines := (finishGraph_spec (@GraphState.Builds.init isControlFlow |>.foldl
    (split '\n' code).zipIdx)).2.1
  simpa [buildControlFlowGraph, numberedLines] using hlines

/-- The blocks have the ids `0 .. k-1`, together they are the lines of the text in their order,
and each is a basic block. -/
theorem buildControlFlowGraph_partition (isControlFlow : Text → Bool) (code : Text) :
    let cfg := buildControlFlowGraph isControlFlow code
    (∃ k, cfg.keys = List.range k) ∧ cfg.values.flatten = numberedLines code ∧
      ∀ b ∈ cfg.values, b ≠ [] ∧ (∀ i ∈ b.tail, isControlFlow i.2 = false) ∧
        ∀ i ∈ b.dropLast, i.2 ≠ closingBrace := by
  rcases finishGraph_spec (@GraphState.Builds.init isControlFlow |>.foldl
    (split '\n' code).zipIdx) with ⟨hkeys, _, hblocks⟩
  refine ⟨hkeys, flatten_values_buildControlFlowGraph isControlFlow code, ?_⟩
  intro b hb
  have hblock := hblocks b hb
  refine ⟨hblock.ne_nil, fun i hi => ?_, hblock.not_closes⟩
  simpa using hblock.not_opens i hi

end Analyzer
end FileExchange
