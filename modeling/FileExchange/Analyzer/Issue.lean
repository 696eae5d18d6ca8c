import FileExchange.PythonLibrary
import Mathlib.Data.Rat.Defs

/-!
# Analyzer.Issue — what the analyzer says about a file

The records `CodeIssue` and `FileMetrics`.  The field `id` of an issue is the time of its creation
and is left out; so are `metrics` and `context`, which stay empty.
-/

namespace FileExchange
namespace Analyzer

open Python

inductive AnalysisCategory where
  | memorySafety
  | security
  | performance
  | codeQuality
  | concurrency
  deriving DecidableEq

inductive IssueSeverity where
  | critical
  | high
  | medium
  | low
  | info
  deriving DecidableEq

/-- `CodeIssue`. -/
structure CodeIssue where
  filePath : Text
  lineNumber : Nat
  column : Nat
  issueType : Text
  category : AnalysisCategory
  severity : IssueSeverity
  description : Text
  codeSnippet : Text
  confidence : Rat
  suggestions : List Text
  cwe : List Text
  deriving DecidableEq

/-- `FileMetrics`, with its defaults. -/
structure FileMetrics where
  complexity : Rat := 0
  maintainability : Rat := 0
  linesOfCode : Rat := 0
  commentRatio : Rat := 0
  functionCount : Rat := 0
  issueDensity : Rat := 0
  memoryRiskScore : Rat := 0
  deriving DecidableEq

/-- `setattr(target, attr, getattr(source, attr))` if the latter is positive. -/
def mergeValue (target source : Rat) : Rat :=
  if source > 0 then source else target

/-- `_merge_metrics`. -/
def mergeMetrics (target source : FileMetrics) : FileMetrics :=
  { complexity := mergeValue target.complexity source.complexity
    maintainability := mergeValue target.maintainability source.maintainability
    linesOfCode := mergeValue target.linesOfCode source.linesOfCode
    commentRatio := mergeValue target.commentRatio source.commentRatio
    functionCount := mergeValue target.functionCount source.functionCount
    issueDensity := mergeValue target.issueDensity source.issueDensity
    memoryRiskScore := mergeValue target.memoryRiskScore source.memoryRiskScore }

end Analyzer
end FileExchange
