import FileExchange.Analyzer.Cache
import FileExchange.Analyzer.DataFlow
import FileExchange.CLibrary

/-!
# Analyzer.Transparent — what the cached results depend on

`analyze_file_advanced` looks a file up by the MD5 of its bytes.  The result that it finds there
was computed for the file that had these bytes first.

* `analyzeContent`        : the analysis of a file, by the methods in their order;
* `analyzeFileAdvanced`   : the cache around it;
* `CallState.Describes`   : the cache holds what the recorded calls computed;
* `calls_transparent_iff` : when a cached result is the one that the file would get.
-/

namespace FileExchange
namespace Analyzer

open Lib Python

/-! ## The analysis of one file -/

abbrev Result := List CodeIssue × FileMetrics

def CodeIssue.atPath (filePath : Text) (i : CodeIssue) : CodeIssue :=
  { i with filePath := filePath }

/-- A method of the analysis.  It enters `str(file_path)` into its issues and reads nothing but
the content. -/
structure AnalysisMethod where
  run : Text → Text → Except PyError Result
  run_eq : ∀ filePath content,
    run filePath content = (run [] content).map fun r => (r.1.map (·.atPath filePath), r.2)

/-- The files that can be read. -/
abbrev Disk := Text → Option Bytes

/-- What the analysis takes from its libraries: the character classes, the decoding of UTF-8, the
methods that are made of patterns alone, and `_clang_analysis` where Clang is available, which
reads the disk itself. -/
structure Engine where
  unicode : Char → Bool
  decode : Bytes → Text
  patternBasedAnalysis : AnalysisMethod
  semanticAnalysis : AnalysisMethod
  metricsAnalysis : AnalysisMethod
  securityAnalysis : AnalysisMethod
  performanceAnalysis : AnalysisMethod
  clangAnalysis : Option (Disk → Text → List CodeIssue)

/-- `hashlib.md5(content).hexdigest()`, without collisions. -/
structure Digest where
  hexdigest : Bytes → Text
  injective : Function.Injective hexdigest

theorem leakIssue_atPath (filePath name : Text) (state : VariableState) :
    (leakIssue [] name state).atPath filePath = leakIssue filePath name state := rfl

def controlFlowMethod (unicode : Char → Bool) : AnalysisMethod where
  run filePath content := .ok (controlFlowAnalysis unicode filePath content, {})
  run_eq filePath content := by
    simp [controlFlowAnalysis, Except.map, Function.comp_def, leakIssue_atPath]

namespace Engine

variable (E : Engine)

/-- `analysis_methods`. -/
def methods : List AnalysisMethod :=
  [E.patternBasedAnalysis, controlFlowMethod E.unicode, E.semanticAnalysis, E.metricsAnalysis,
    E.securityAnalysis, E.performanceAnalysis]

/-- One round of the loop over the methods; an exception is logged. -/
def addMethod (filePath content : Text) (found : Result) (method : AnalysisMethod) : Result :=
  match method.run filePath content with
  | .error _ => found
  | .ok r => (found.1 ++ r.1, mergeMetrics found.2 r.2)

/-- What Clang reports about the file. -/
def clangIssues (disk : Disk) (filePath : Text) : List CodeIssue :=
  match E.clangAnalysis with
  | none => []
  | some clang => (clang disk filePath).map (·.atPath filePath)

/-- What the methods find in a content. -/
def methodResults (filePath content : Text) : Result :=
  E.methods.foldl (addMethod filePath content) ([], {})

/-- The `try` block of `analyze_file_advanced`. -/
def analyzeContent (disk : Disk) (filePath content : Text) : Result :=
  ((E.methodResults filePath content).1 ++ E.clangIssues disk filePath,
    (E.methodResults filePath content).2)

end Engine

/-! ## The cache -/

/-- A call, with the files as they are then. -/
structure Call where
  disk : Disk
  filePath : Text

section Calls

variable (E : Engine) (H : Digest) (config : Config)

/-- The entry that the call returns: none if the analysis is forced. -/
def lookup (cache : Cache Result) (fileHash : Text) : Option Result :=
  if config.forceReanalyze.getD false then none else cache.get? fileHash

/-- `analyze_file_advanced`: the result and the cache after it, unless the file cannot be read. -/
def analyzeFileAdvanced (cache : Cache Result) (call : Call) : Option (Result × Cache Result) :=
  (call.disk call.filePath).map fun bytes =>
    match lookup config cache (H.hexdigest bytes) with
    | some r => (r, cache)
    | none =>
        let r := E.analyzeContent call.disk call.filePath (E.decode bytes)
        (r, cache.set (H.hexdigest bytes) r)

/-- The cache of an analyzer, and the calls whose results it holds by the bytes of their files. -/
structure CallState where
  cache : Cache Result
  origin : OrderedMap Bytes Call

def CallState.init : CallState :=
  { cache := OrderedMap.empty, origin := OrderedMap.empty }

/-- A call becomes the origin of the entry that it makes. -/
def recordOrigin (s : CallState) (call : Call) : OrderedMap Bytes Call :=
  match call.disk call.filePath with
  | none => s.origin
  | some bytes =>
      if (lookup config s.cache (H.hexdigest bytes)).isSome then s.origin
      else s.origin.set bytes call

def analyzerLts : Lts CallState Call where
  step s call :=
    some
      { cache := ((analyzeFileAdvanced E H config s.cache call).map Prod.snd).getD s.cache
        origin := recordOrigin H config s call }

/-- The call returns what it would return with an empty cache, about the file it was given. -/
def Transparent (s : CallState) (call : Call) : Prop :=
  (analyzeFileAdvanced E H config s.cache call).map Prod.fst =
      (analyzeFileAdvanced E H config OrderedMap.empty call).map Prod.fst ∧
    ∀ r ∈ analyzeFileAdvanced E H config s.cache call, ∀ i ∈ r.1.1, i.filePath = call.filePath

/-- If the call has a result from an earlier one, that was for the same path, or the methods find
nothing; and Clang reports the same for both. -/
def SameOrigin (s : CallState) (call : Call) : Prop :=
  config.forceReanalyze.getD false = false →
    ∀ bytes ∈ call.disk call.filePath, ∀ earlier ∈ s.origin.get? bytes,
      (earlier.filePath = call.filePath ∨ (E.methodResults [] (E.decode bytes)).1 = []) ∧
        E.clangIssues earlier.disk earlier.filePath = E.clangIssues call.disk call.filePath

/-! ## Results for two paths -/

/-- An issue tells the path for which it was made. -/
theorem map_atPath_eq_iff {p q : Text} {issues : List CodeIssue} :
    issues.map (·.atPath p) = issues.map (·.atPath q) ↔ p = q ∨ issues = [] := by
  cases issues with
  | nil =>
      simp
  | cons i issues =>
      constructor
      · intro h
        exact Or.inl (congrArg CodeIssue.filePath (List.cons.inj h).1)
      · rintro (rfl | hnil)
        · rfl
        · cases hnil

theorem addMethod_atPath (filePath content : Text) (found : Result) (method : AnalysisMethod) :
    Engine.addMethod filePath content (found.1.map (·.atPath filePath), found.2) method =
      ((Engine.addMethod [] content found method).1.map (·.atPath filePath),
        (Engine.addMethod [] content found method).2) := by
  unfold Engine.addMethod
  rw [method.run_eq]
  cases method.run [] content with
  | error e => rfl
  | ok r => simp [Except.map]

/-- The methods find the same in a content, whatever the path of the file. -/
theorem methodResults_atPath (filePath content : Text) :
    E.methodResults filePath content =
      ((E.methodResults [] content).1.map (·.atPath filePath), (E.methodResults [] content).2) := by
  unfold Engine.methodResults
  suffices hall : ∀ (methods : List AnalysisMethod) (found : Result),
      methods.foldl (Engine.addMethod filePath content)
          (found.1.map (·.atPath filePath), found.2) =
        ((methods.foldl (Engine.addMethod [] content) found).1.map (·.atPath filePath),
          (methods.foldl (Engine.addMethod [] content) found).2) from
    hall E.methods ([], {})
  intro methods
  induction methods with
  | nil =>
      intro found
      rfl
  | cons method methods ih =>
      intro found
      rw [List.foldl_cons, List.foldl_cons, addMethod_atPath, ih]

/-- When the analyses of two files with one content agree. -/
theorem analyzeContent_eq_iff {earlier call : Call} {content : Text} :
    E.analyzeContent earlier.disk earlier.filePath content =
        E.analyzeContent call.disk call.filePath content ↔
      (earlier.filePath = call.filePath ∨ (E.methodResults [] content).1 = []) ∧
        E.clangIssues earlier.disk earlier.filePath = E.clangIssues call.disk call.filePath := by
  unfold Engine.analyzeContent
  rw [methodResults_atPath E earlier.filePath, methodResults_atPath E call.filePath,
    Prod.mk.injEq, ← map_atPath_eq_iff]
  simp only [and_true]
  constructor
  · intro h
    exact List.append_inj h (by simp)
  · rintro ⟨hmethods, hclang⟩
    rw [hmethods, hclang]

/-- Every issue about a file names the file. -/
theorem filePath_of_mem_analyzeContent {call : Call} {content : Text} :
    ∀ i ∈ (E.analyzeContent call.disk call.filePath content).1, i.filePath = call.filePath := by
  intro i hi
  rcases List.mem_append.1 hi with hi | hi
  · rw [methodResults_atPath] at hi
    rcases List.mem_map.1 hi with ⟨j, _, rfl⟩
    rfl
  · unfold Engine.clangIssues at hi
    cases hclang : E.clangAnalysis with
    | none =>
        simp [hclang] at hi
    | some clang =>
        rw [hclang] at hi
        rcases List.mem_map.1 hi with ⟨j, _, rfl⟩
        rfl

/-! ## The invariant of the cache -/

/-- An entry is the result of the call recorded for its bytes. -/
def CallState.Describes (s : CallState) : Prop :=
  ∀ bytes, s.cache.get? (H.hexdigest bytes) =
    (s.origin.get? bytes).map fun c => E.analyzeContent c.disk c.filePath (E.decode bytes)

theorem describes_init : CallState.init.Describes E H := fun _ => rfl

variable {E H config}

theorem describes_step {s s' : CallState} {call : Call} (h : s.Describes E H)
    (hstep : (analyzerLts E H config).step s call = some s') : s'.Describes E H := by
  cases hstep
  intro other
  cases hread : call.disk call.filePath with
  | none =>
      simpa [analyzeFileAdvanced, recordOrigin, hread] using h other
  | some bytes =>
      cases hlookup : lookup config s.cache (H.hexdigest bytes) with
      | some r =>
          simpa [analyzeFileAdvanced, recordOrigin, hread, hlookup] using h other
      | none =>
          simp only [analyzeFileAdvanced, recordOrigin, hread, hlookup, Option.map_some,
            Option.getD_some, Option.isSome_none, Bool.false_eq_true, if_false]
          -- other bytes have another hash
          by_cases heq : other = bytes
          · subst heq
            simp
          · rw [OrderedMap.get?_set_of_ne (H.injective.ne heq), OrderedMap.get?_set_of_ne heq]
            exact h other

theorem lookup_empty (fileHash : Text) : lookup config OrderedMap.empty fileHash = none := by
  unfold lookup
  split <;> rfl

/-- A call returns the entry for its file, or analyses the file. -/
theorem map_fst_analyzeFileAdvanced (cache : Cache Result) {call : Call} {bytes : Bytes}
    (hread : call.disk call.filePath = some bytes) :
    (analyzeFileAdvanced E H config cache call).map Prod.fst =
      some ((lookup config cache (H.hexdigest bytes)).getD
        (E.analyzeContent call.disk call.filePath (E.decode bytes))) := by
  simp only [analyzeFileAdvanced, hread, Option.map_some]
  cases lookup config cache (H.hexdigest bytes) <;> rfl

/-- A call is transparent exactly when the entry it finds is what the analysis would give. -/
theorem transparent_iff_lookup {s : CallState} {call : Call} {bytes : Bytes}
    (hread : call.disk call.filePath = some bytes) :
    Transparent E H config s call ↔
      ∀ r ∈ lookup config s.cache (H.hexdigest bytes),
        r = E.analyzeContent call.disk call.filePath (E.decode bytes) := by
  have hfst := @map_fst_analyzeFileAdvanced E H config s.cache call bytes hread
  unfold Transparent
  rw [hfst, map_fst_analyzeFileAdvanced _ hread, lookup_empty, Option.getD_none,
    Option.some_inj]
  cases hlookup : lookup config s.cache (H.hexdigest bytes) with
  | none =>
      rw [hlookup] at hfst
      refine iff_of_true ⟨rfl, ?_⟩ (by simp)
      intro r hr
      have hr' := congrArg (Option.map Prod.fst) (Option.mem_def.1 hr)
      rw [hfst] at hr'
      rw [← Option.some_inj.1 hr']
      exact filePath_of_mem_analyzeContent E
  | some found =>
      rw [hlookup] at hfst
      simp only [Option.getD_some, Option.mem_some_iff, forall_eq']
      refine and_iff_left_of_imp fun hsame => ?_
      intro r hr
      have hr' := congrArg (Option.map Prod.fst) (Option.mem_def.1 hr)
      rw [hfst] at hr'
      rw [← Option.some_inj.1 hr', Option.getD_some, hsame]
      exact filePath_of_mem_analyzeContent E

/-- Under the invariant, that is a matter of the call the entry comes from. -/
theorem transparent_iff {s : CallState} (h : s.Describes E H) (call : Call) :
    Transparent E H config s call ↔ SameOrigin E config s call := by
  unfold SameOrigin
  cases hread : call.disk call.filePath with
  | none =>
      simp [Transparent, analyzeFileAdvanced, hread]
  | some bytes =>
      rw [transparent_iff_lookup hread]
      simp only [Option.mem_some_iff, forall_eq']
      by_cases hforce : config.forceReanalyze.getD false = true
      · simp [lookup, hforce]
      · rw [Bool.not_eq_true] at hforce
        simp only [lookup, hforce, Bool.false_eq_true, if_false, forall_const, h bytes,
          Option.mem_map, forall_exists_index, and_imp, forall_apply_eq_imp_iff₂,
          analyzeContent_eq_iff]

/-- Every call of a series gets what its own file deserves, exactly when each entry that is used
again comes from a file about which there is the same to say. -/
theorem calls_transparent_iff (E : Engine) (H : Digest) (config : Config) (calls : List Call) :
    (analyzerLts E H config).EachStep (Transparent E H config) CallState.init calls ↔
      (analyzerLts E H config).EachStep (SameOrigin E config) CallState.init calls :=
  (analyzerLts E H config).eachStep_congr (CallState.Describes E H)
    (fun _ call _ hs _ => transparent_iff hs call) (fun _ _ _ hs _ hstep => describes_step hs hstep)
    (describes_init E H)

end Calls

/-! ## Two files with the same content -/

/-- A method that finds nothing. -/
def emptyMethod : AnalysisMethod where
  run _ _ := .ok ([], {})
  run_eq _ _ := rfl

/-- The analysis of control flow alone. -/
def controlFlowEngine : Engine where
  unicode := noUnicode
  decode bytes := bytes.map Char.ofUInt8
  patternBasedAnalysis := emptyMethod
  semanticAnalysis := emptyMethod
  metricsAnalysis := emptyMethod
  securityAnalysis := emptyMethod
  performanceAnalysis := emptyMethod
  clangAnalysis := none

/-- A digest that keeps all bytes. -/
def plainDigest : Digest where
  hexdigest bytes := bytes.map Char.ofUInt8
  injective := by
    refine List.map_injective_iff.2 fun a b h => ?_
    have hval : a.toUInt32 = b.toUInt32 := congrArg Char.val h
    exact UInt8.toUInt32_inj.1 hval

def defaultConfig : Config :=
  { maxProcesses := none, verbose := none, forceReanalyze := none }

/-- `a.c` and `b.c` are copies of each other. -/
def copies : Disk := fun path =>
  if path = "a.c".toList ∨ path = "b.c".toList then some (ascii "p = malloc(1);") else none

/-- The leak in the second copy is reported for the first. -/
theorem second_copy_not_transparent :
    ¬ (analyzerLts controlFlowEngine plainDigest defaultConfig).EachStep
        (Transparent controlFlowEngine plainDigest defaultConfig) CallState.init
        [{ disk := copies, filePath := "a.c".toList },
          { disk := copies, filePath := "b.c".toList }] := by
  intro h
  have hsecond := ((h _ rfl).2 _ rfl).1.2
  revert hsecond
  decide

end Analyzer
end FileExchange
