import FileExchange.Lib.OrderedMap
import FileExchange.Lib.TransitionSystem
import FileExchange.PythonLibrary

/-!
# Analyzer.Cache — the cache file between the runs of the analyzer

A method of `AdvancedMemoryAnalyzer` is a state monad with exceptions over the object, of which
`__init__` has assigned some attributes and others not yet, and the cache file of the project.

* `loadCache`, `saveCache` : the methods that read and write the file;
* `construct`              : `__init__`, in its order;
* `projectLts`             : runs of the analyzer, and what happens to the file between them.
-/

namespace FileExchange
namespace Analyzer

open Lib Python

/-! ## Exceptions, pickles and files -/

/-- The exceptions that `except Exception` takes. -/
inductive PyError where
  | attributeError (name : String)
  | osError (errno : Nat)
  | unpicklingError
  deriving DecidableEq

/-- `pickle`: what `dump` writes is what `load` reads. -/
structure Pickle (γ β : Type) where
  dumps : γ → List β
  loads : List β → Except PyError γ
  loads_dumps : ∀ c, loads (dumps c) = .ok c

/-- `_cache`: results by the hash of a file. -/
abbrev Cache (α : Type) := OrderedMap Text α

/-- The file `.analyzer_cache` of the project. -/
inductive CacheFile (β : Type) where
  | absent
  | unreadable (raised : PyError)
  | content (bytes : List β)

/-! ## The object -/

/-- The entries of `config` that the analyzer looks up. -/
structure Config where
  maxProcesses : Option Int
  verbose : Option Bool
  forceReanalyze : Option Bool
  deriving DecidableEq

/-- What the methods below hand to the logger. -/
inductive LogRecord where
  | cacheLoaded (entries : Nat)
  | cacheNotLoaded (e : PyError)
  | cacheNotSaved (e : PyError)
  deriving DecidableEq

/-- The attributes of `self`, each as soon as it is assigned; `logger` holds its records. -/
structure Self (α : Type) where
  config : Option Config
  cache : Option (Cache α)
  maxProcesses : Option Int
  logger : Option (List LogRecord)

def Self.new {α : Type} : Self α :=
  { config := none, cache := none, maxProcesses := none, logger := none }

structure World (α β : Type) where
  self : Self α
  file : CacheFile β

abbrev Method (α β : Type) := EStateM PyError (World α β)

section Methods

variable {α β δ : Type}

/-- Read an attribute of `self`. -/
def getAttr (name : String) (value : Self α → Option δ) : Method α β δ := do
  match value (← get).self with
  | some v => pure v
  | none => throw (.attributeError name)

def assign (f : Self α → Self α) : Method α β Unit :=
  modify fun w => { w with self := f w.self }

/-- `self.logger.info(..)`, `self.logger.warning(..)`. -/
def logRecord (r : LogRecord) : Method α β Unit := do
  let records ← getAttr "logger" Self.logger
  assign fun self => { self with logger := some (records ++ [r]) }

def raising : Except PyError δ → Method α β δ
  | .ok v => pure v
  | .error e => throw e

/-- `_load_cache`. -/
def loadCache (P : Pickle (Cache α) β) : Method α β Unit :=
  tryCatch
    (do
      match (← get).file with
      | .absent => pure ()
      | .unreadable e => throw e
      | .content bytes =>
          let loaded ← raising (P.loads bytes)
          assign fun self => { self with cache := some loaded }
          let cache ← getAttr "_cache" Self.cache
          logRecord (.cacheLoaded cache.entries.length))
    fun e => logRecord (.cacheNotLoaded e)

/-- What becomes of the file that `_save_cache` opens for writing. -/
inductive Saving where
  | written
  | notOpened (errno : Nat)
  | cutShort (errno : Nat) (length : Nat)
  deriving DecidableEq

/-- `_save_cache`. -/
def saveCache (P : Pickle (Cache α) β) (saving : Saving) : Method α β Unit :=
  tryCatch
    (do
      match saving with
      | .notOpened errno => throw (.osError errno)
      | .cutShort errno length =>
          let cache ← getAttr "_cache" Self.cache
          modify fun w => { w with file := .content ((P.dumps cache).take length) }
          throw (.osError errno)
      | .written =>
          let cache ← getAttr "_cache" Self.cache
          modify fun w => { w with file := .content (P.dumps cache) })
    fun e => logRecord (.cacheNotSaved e)

/-! ## A run -/

/-- What a run meets: its configuration, the processors, the log file that `setup_logging` opens,
the results that `analyze_file_advanced` enters into the cache, and the file it saves to. -/
structure RunEnv (α : Type) where
  config : Config
  cpuCount : Int
  logFile : Except Nat Unit
  analysed : List (Text × α)
  saving : Saving

/-- `setup_logging`. -/
def setupLogging (env : RunEnv α) : Method α β Unit :=
  raising (env.logFile.mapError .osError)

/-- `__init__` after it has loaded the cache. -/
def constructRest (env : RunEnv α) : Method α β Unit := do
  let config ← getAttr "config" Self.config
  assign fun self =>
    { self with maxProcesses := some (min env.cpuCount (config.maxProcesses.getD 8)) }
  setupLogging env
  assign fun self => { self with logger := some [] }

/-- `__init__`. -/
def construct (P : Pickle (Cache α) β) (env : RunEnv α) : Method α β Unit := do
  assign fun self => { self with config := some env.config }
  assign fun self => { self with cache := some OrderedMap.empty }
  loadCache P
  constructRest env

/-- The rest of a run, up to the end of `analyze_project`. -/
def analyzeAndSave (P : Pickle (Cache α) β) (env : RunEnv α) : Method α β Unit := do
  let cache ← getAttr "_cache" Self.cache
  assign fun self =>
    { self with cache := some (env.analysed.foldl (fun c e => c.set e.1 e.2) cache) }
  saveCache P env.saving

end Methods

/-! ## Projects -/

/-- The cache file of a project, and the caches that `_save_cache` has written to it in full. -/
structure Project (α β : Type) where
  file : CacheFile β
  saved : List (Cache α)

/-- A run of the analyzer, or anything else that changes the file. -/
inductive ProjectEvent (α β : Type) where
  | run (env : RunEnv α)
  | external (file : CacheFile β)

section Runs

variable {α β : Type} (P : Pickle (Cache α) β)

/-- `AdvancedMemoryAnalyzer(project_path, config)` in a new process. -/
def newAnalyzer (p : Project α β) (env : RunEnv α) : EStateM.Result PyError (World α β) Unit :=
  construct P env { self := Self.new, file := p.file }

def runAnalyzer (p : Project α β) (env : RunEnv α) : Project α β :=
  match newAnalyzer P p env with
  | .error _ w => { p with file := w.file }
  | .ok _ w =>
      match analyzeAndSave P env w with
      | .error _ w' => { p with file := w'.file }
      | .ok _ w' =>
          { file := w'.file
            saved := if env.saving = .written then p.saved ++ w'.self.cache.toList else p.saved }

def projectLts : Lts (Project α β) (ProjectEvent α β) where
  step p
    | .run env => some (runAnalyzer P p env)
    | .external file => some { p with file := file }

/-- The construction does not raise, and it loads the cache that an earlier run has saved. -/
def HarmlessRun (p : Project α β) (env : RunEnv α) : Prop :=
  match newAnalyzer P p env with
  | .error _ _ => False
  | .ok _ w => ∀ c ∈ p.saved, p.file = .content (P.dumps c) → w.self.cache = some c

def Harmless (p : Project α β) : ProjectEvent α β → Prop
  | .external _ => True
  | .run env => HarmlessRun P p env

/-- When the analyzer is constructed there is no cache file, and the log file opens. -/
def StartsFresh (p : Project α β) : ProjectEvent α β → Prop
  | .external _ => True
  | .run env => p.file = .absent ∧ env.logFile = .ok ()

/-! ## Construction -/

theorem get_bind {δ : Type} (f : World α β → Method α β δ) (w : World α β) :
    ((get : Method α β (World α β)) >>= f) w = f w w :=
  rfl

/-- Before `logger` is assigned, `_load_cache` raises whenever there is a file: in its handler, if
not already where it reports the success. -/
theorem loadCache_of_noLogger {self : Self α} (hlogger : self.logger = none)
    {file : CacheFile β} (hfile : file ≠ .absent) :
    ∃ self', loadCache P { self := self, file := file } =
      .error (.attributeError "logger") { self := self', file := file } := by
  rcases self with ⟨config, cache, maxProcesses, logger⟩
  cases hlogger
  cases file with
  | absent =>
      exact absurd rfl hfile
  | unreadable e =>
      exact ⟨_, rfl⟩
  | content bytes =>
      cases hload : P.loads bytes with
      | error e =>
          refine ⟨⟨config, cache, maxProcesses, none⟩, ?_⟩
          simp only [loadCache, tryCatch, tryCatchThe, MonadExceptOf.tryCatch, EStateM.tryCatch,
            get_bind, hload]
          rfl
      | ok c =>
          refine ⟨⟨config, some c, maxProcesses, none⟩, ?_⟩
          simp only [loadCache, tryCatch, tryCatchThe, MonadExceptOf.tryCatch, EStateM.tryCatch,
            get_bind, hload]
          rfl

/-- A new object has no logger when it loads the cache. -/
theorem newAnalyzer_of_file {p : Project α β} (hfile : p.file ≠ .absent) (env : RunEnv α) :
    ∃ self', newAnalyzer P p env =
      .error (.attributeError "logger") { self := self', file := p.file } := by
  rcases @loadCache_of_noLogger _ _ P ⟨some env.config, some OrderedMap.empty, none, none⟩ rfl
    p.file hfile with ⟨self', hload⟩
  refine ⟨self', ?_⟩
  have hstart : newAnalyzer P p env = EStateM.bind (loadCache P) (fun _ => constructRest env)
      ⟨⟨some env.config, some OrderedMap.empty, none, none⟩, p.file⟩ := rfl
  simp only [hstart, EStateM.bind, hload]

/-- The object after `_load_cache` has found no file. -/
def Self.constructed (env : RunEnv α) (logger : Option (List LogRecord)) : Self α :=
  { config := some env.config
    cache := some OrderedMap.empty
    maxProcesses := some (min env.cpuCount (env.config.maxProcesses.getD 8))
    logger := logger }

theorem newAnalyzer_of_absent {p : Project α β} (hfile : p.file = .absent) (env : RunEnv α) :
    newAnalyzer P p env =
      match env.logFile with
      | .ok _ => .ok () { self := Self.constructed env (some []), file := .absent }
      | .error errno =>
          .error (.osError errno) { self := Self.constructed env none, file := .absent } := by
  rcases p with ⟨file, saved⟩
  cases hfile
  rcases env with ⟨config, cpuCount, logFile, analysed, saving⟩
  cases logFile with
  | error errno => rfl
  | ok _ => rfl

/-- The analyzer is constructed without harm exactly when there is no file to load, and the log
file opens. -/
theorem harmlessRun_iff {p : Project α β} {env : RunEnv α} :
    HarmlessRun P p env ↔ p.file = .absent ∧ env.logFile = .ok () := by
  unfold HarmlessRun
  by_cases hfile : p.file = .absent
  · rw [newAnalyzer_of_absent P hfile]
    cases hlog : env.logFile with
    | error errno =>
        exact iff_of_false id fun h => nomatch h.2
    | ok _ =>
        refine iff_of_true ?_ ⟨hfile, rfl⟩
        intro c _ hcontent
        rw [hfile] at hcontent
        cases hcontent
  · rcases newAnalyzer_of_file P hfile env with ⟨self', hnew⟩
    rw [hnew]
    exact iff_of_false id fun h => hfile h.1

theorem harmless_iff {p : Project α β} {event : ProjectEvent α β} :
    Harmless P p event ↔ StartsFresh p event := by
  cases event with
  | external file => exact Iff.rfl
  | run env => exact harmlessRun_iff P

/-! ## Runs of the analyzer on a project -/

/-- No run is harmed exactly when at each construction the cache file is absent and the log file
opens. -/
theorem each_construction_harmless_iff (p : Project α β) (events : List (ProjectEvent α β)) :
    (projectLts P).EachStep (Harmless P) p events ↔
      (projectLts P).EachStep StartsFresh p events :=
  (projectLts P).eachStep_congr (fun _ => True) (fun _ _ _ _ _ => harmless_iff P)
    (fun _ _ _ _ _ _ => trivial) trivial

/-- A run that meets a file ends in its constructor and leaves the project as it was. -/
theorem runAnalyzer_of_file {p : Project α β} (hfile : p.file ≠ .absent) (env : RunEnv α) :
    runAnalyzer P p env = p := by
  rcases newAnalyzer_of_file P hfile env with ⟨self', hnew⟩
  simp only [runAnalyzer, hnew]

/-- So no later run gets past its constructor either. -/
theorem runs_of_file {p : Project α β} (hfile : p.file ≠ .absent) (envs : List (RunEnv α)) :
    (projectLts P).run p (envs.map .run) = some p := by
  induction envs with
  | nil =>
      rfl
  | cons env envs ih =>
      refine ((projectLts P).run_cons_eq_some).2 ⟨p, ?_, ih⟩
      exact congrArg some (runAnalyzer_of_file P hfile env)

/-- With a logger, `_load_cache` would give back the cache that was saved. -/
theorem loadCache_dumps_of_logger {self : Self α} {records : List LogRecord}
    (hlogger : self.logger = some records) (c : Cache α) :
    loadCache P { self := self, file := .content (P.dumps c) } =
      .ok () { self := { self with
                 cache := some c
                 logger := some (records ++ [.cacheLoaded c.entries.length]) }
               file := .content (P.dumps c) } := by
  rcases self with ⟨config, cache, maxProcesses, logger⟩
  cases hlogger
  simp only [loadCache, tryCatch, tryCatchThe, MonadExceptOf.tryCatch, EStateM.tryCatch,
    get_bind, P.loads_dumps]
  rfl

end Runs

/-! ## The second run of a project -/

/-- A pickle whose stream is the pickled object. -/
def identityPickle (γ : Type) : Pickle γ γ where
  dumps c := [c]
  loads
    | [c] => .ok c
    | _ => .error .unpicklingError
  loads_dumps _ := rfl

/-- The analyzer with its default configuration, where every file can be written. -/
def plainRun : RunEnv Unit :=
  { config := { maxProcesses := none, verbose := none, forceReanalyze := none }
    cpuCount := 4
    logFile := .ok ()
    analysed := []
    saving := .written }

/-- After the first run of a project there is a file, and the second does not construct. -/
theorem second_run_not_harmless :
    ¬ (projectLts (identityPickle (Cache Unit))).EachStep (Harmless (identityPickle (Cache Unit)))
        { file := .absent, saved := [] } [.run plainRun, .run plainRun] := by
  intro h
  have hsecond := ((h _ rfl).2 _ rfl).1
  rw [harmless_iff] at hsecond
  cases hsecond.1

end Analyzer
end FileExchange
