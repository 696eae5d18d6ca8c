import Mathlib.Logic.Function.Basic
import FileExchange.Daemon.Inotify
import FileExchange.Lib.TransitionSystem

/-!
# Daemon.Watch — the watched directory and the handlers of `main.c`

The kernel queues a record for each change of `EXCHANGE_DIR` that the watch asks for, and the
daemon comes to it later.  `handle_file_event` looks at what is there by then,
`handle_file_deleted` cannot and does not.

* `Change`, `applyChange` : what happens in the directory, and its records;
* `handleFileEvent`, `handleFileDeleted` : the two handlers;
* `watch`     : the directory, the queue and the daemon in any interleaving;
* `OnlyFiles` : the journal has changed for paths only that have been regular files;
* `onlyFiles_of_removesFile` : it is so, if every removal that is handled is one of a path that
  has been a regular file;
* `onlyFiles_of_removesOnlyFiles` : hence, if the directory loses nothing but files.
-/

namespace FileExchange

open Lib

/-! ## The directory -/

/-- `st_mode & S_IFMT`. -/
inductive FileType
  | regular
  | directory
  | other
  deriving DecidableEq, Repr

/-- An entry of the directory: a file, or a symbolic link with what `stat` finds behind it. -/
inductive Entry
  | file (type : FileType)
  | symlink (target : Option FileType)
  deriving DecidableEq, Repr

namespace Entry

/-- `stat`, which follows links. -/
def stat : Entry → Option FileType
  | file type => some type
  | symlink target => target

/-- `IN_ISDIR`, when the entry is a directory. -/
def flag : Entry → Nat
  | file .directory => inIsdir
  | _ => 0

end Entry

/-- The name of an entry. -/
@[ext] structure FileName where
  bytes : CString
  nonempty : bytes ≠ []
  noNul : 0 ∉ bytes
  noSlash : slash ∉ bytes
  short : bytes.length ≤ nameMax

instance : DecidableEq FileName := fun a b =>
  decidable_of_iff (a.bytes = b.bytes) ⟨FileName.ext, congrArg FileName.bytes⟩

/-- The path that the daemon makes of it. -/
def FileName.path (name : FileName) : CString :=
  exchangePath name.bytes

/-- The record of an event: the name is padded to a multiple of 16 bytes. -/
def recordOf (mask : Nat) (cookie : UInt32) (name : FileName) : InotifyRecord :=
  { wd := 1
    mask := UInt32.ofNat mask
    cookie := cookie
    name := name.bytes
    padding := 16 - name.bytes.length % 16
    noNul := name.noNul
    terminated := Or.inr (Nat.sub_pos_of_lt (Nat.mod_lt _ (by decide))) }

/-- The entries by path. -/
abbrev Directory := CString → Option Entry

/-- What happens in the directory.  A symbolic link finds something else when its target changes;
a file can be moved in from elsewhere and out again. -/
inductive Change
  | create (name : FileName) (entry : Entry)
  | closeWrite (name : FileName)
  | retarget (name : FileName) (target : Option FileType)
  | rename (old new : FileName) (cookie : UInt32)
  | moveIn (new : FileName) (entry : Entry) (cookie : UInt32)
  | moveOut (old : FileName) (cookie : UInt32)
  | delete (name : FileName)
  deriving DecidableEq

/-- The directory after a change, and the records of those events that the watch asks for:
`IN_CLOSE_WRITE | IN_MOVED_TO | IN_DELETE | IN_MOVED_FROM`. -/
def applyChange (dir : Directory) : Change → Option (Directory × List InotifyRecord)
  | .create name entry =>
      match dir name.path with
      | none => some (Function.update dir name.path (some entry), [])
      | some _ => none
  -- the name of a file that is closed may be gone
  | .closeWrite name => some (dir, [recordOf inCloseWrite 0 name])
  | .retarget name target =>
      match dir name.path with
      | some (.symlink _) => some (Function.update dir name.path (some (.symlink target)), [])
      | _ => none
  | .rename old new cookie =>
      match dir old.path with
      | none => none
      | some entry =>
          -- `rename` of a name to itself does nothing
          if old = new then some (dir, [])
          else
            some (Function.update (Function.update dir old.path none) new.path (some entry),
              [recordOf (inMovedFrom ||| entry.flag) cookie old,
                recordOf (inMovedTo ||| entry.flag) cookie new])
  | .moveIn new entry cookie =>
      some (Function.update dir new.path (some entry),
        [recordOf (inMovedTo ||| entry.flag) cookie new])
  | .moveOut old cookie =>
      (dir old.path).map fun entry =>
        (Function.update dir old.path none, [recordOf (inMovedFrom ||| entry.flag) cookie old])
  | .delete name =>
      (dir name.path).map fun entry =>
        (Function.update dir name.path none, [recordOf (inDelete ||| entry.flag) 0 name])

/-- A regular file is there. -/
def isRegular (dir : Directory) (path : CString) : Bool :=
  decide ((dir path).bind Entry.stat = some .regular)

/-! ## The handlers -/

def isRegularFile (statOk : Bool) (dir : Directory) (path : CString) : Bool :=
  match if statOk then (dir path).bind Entry.stat else none with
  | none => false
  | some type => decide (type = .regular)

def handleFileEvent (statOk : Bool) (env : AppendEnv) (dir : Directory) (coll : Collection)
    (fullpath eventType : CString) : Collection :=
  if !isRegularFile statOk dir fullpath then coll
  -- a failure is only logged
  else (appendProcEvent env coll fullpath eventType (ascii "success")).1

/-- The object is gone, and nothing is checked. -/
def handleFileDeleted (env : AppendEnv) (coll : Collection) (fullpath : CString) : Collection :=
  (appendProcEvent env coll fullpath (ascii "deleted") (ascii "n/a")).1

/-- The collection after a turn of the loop. -/
def runHandler (statOk : Bool) (env : AppendEnv) (dir : Directory) (coll : Collection) :
    Option HandlerCall → Collection
  | some (.fileEvent fullpath eventType) =>
      handleFileEvent statOk env dir coll fullpath eventType
  | some (.fileDeleted fullpath) => handleFileDeleted env coll fullpath
  | none => coll

/-! ## Directory, queue and daemon -/

/-- `regularSoFar` are the paths that have been regular files; no step looks at it. -/
structure Watched where
  directory : Directory
  regularSoFar : CString → Bool
  pending : List InotifyRecord
  collection : Collection

/-- When the watch begins: `before` are the paths that had been regular files until then. -/
def Watched.start (dir : Directory) (before : CString → Bool) (coll : Collection) : Watched :=
  { directory := dir
    regularSoFar := fun path => before path || isRegular dir path
    pending := []
    collection := coll }

/-- The kernel drops a record when it equals the one before it, or when the queue is full. -/
inductive WatchEvent
  | change (c : Change)
  | lose (i : Nat)
  | handle (statOk : Bool) (env : AppendEnv)
  deriving DecidableEq

/-- The turn of the loop for a record, which depends on nothing else in the buffer. -/
def turnFor (r : InotifyRecord) : Option HandlerCall :=
  (visitEvent r.encode 0).call

def watch : Lts Watched WatchEvent where
  step s
    | .change c =>
        (applyChange s.directory c).map fun r =>
          { s with
            directory := r.1
            regularSoFar := fun path => s.regularSoFar path || isRegular r.1 path
            pending := s.pending ++ r.2 }
    | .lose i =>
        if i < s.pending.length then some { s with pending := s.pending.eraseIdx i } else none
    | .handle statOk env =>
        match s.pending with
        | [] => none
        | r :: rs =>
            some { s with
              pending := rs
              collection := runHandler statOk env s.directory s.collection (turnFor r) }

/-- Whether an `_id` is not that of a path that has been a regular file. -/
def neverRegular (s : Watched) : Option Value → Bool
  | some (.utf8 path) => !s.regularSoFar path
  | _ => true

/-- The documents of all other paths, and those without a path, are what they were. -/
def OnlyFiles (coll : Collection) (s : Watched) : Prop :=
  (s.collection.filter fun d => neverRegular s (d.get? .id)) =
    coll.filter fun d => neverRegular s (d.get? .id)

instance (coll : Collection) : DecidablePred (OnlyFiles coll) := by
  unfold OnlyFiles
  infer_instance

/-- When the daemon comes to the record of a removal, the path has been a regular file. -/
def RemovesFile (s : Watched) : WatchEvent → Prop
  | .handle _ _ =>
      match s.pending.head?.bind turnFor with
      | some (.fileDeleted path) => s.regularSoFar path = true
      | _ => True
  | _ => True

instance (s : Watched) (e : WatchEvent) : Decidable (RemovesFile s e) := by
  unfold RemovesFile
  split
  · split <;> infer_instance
  · infer_instance

/-! ## What has been a regular file -/

/-- The paths of regular files are among those that have been one. -/
def SeesRegular (s : Watched) : Prop :=
  ∀ path, isRegular s.directory path = true → s.regularSoFar path = true

section Steps

variable {s s' : Watched} {e : WatchEvent}

theorem seesRegular_start (dir : Directory) (before : CString → Bool) (coll : Collection) :
    SeesRegular (Watched.start dir before coll) := by
  intro path hpath
  exact Bool.or_eq_true_iff.2 (Or.inr hpath)

/-- What a step does: the directory changes and is looked at, or the daemon takes the first
record, or a record is lost. -/
theorem watch_cases (h : watch.step s e = some s') :
    (s'.collection = s.collection ∧ s'.regularSoFar = fun path =>
        s.regularSoFar path || isRegular s'.directory path) ∨
      (s'.directory = s.directory ∧ s'.regularSoFar = s.regularSoFar ∧
        (s'.collection = s.collection ∨
          ∃ statOk env r rs, e = .handle statOk env ∧ s.pending = r :: rs ∧
            s'.collection = runHandler statOk env s.directory s.collection (turnFor r))) := by
  cases e with
  | change c =>
      rcases Option.map_eq_some_iff.1 h with ⟨r, -, rfl⟩
      exact Or.inl ⟨rfl, rfl⟩
  | lose i =>
      simp only [watch] at h
      split at h
      · cases h
        exact Or.inr ⟨rfl, rfl, Or.inl rfl⟩
      · cases h
  | handle statOk env =>
      simp only [watch] at h
      split at h
      · cases h
      · next r rs hpending =>
          cases h
          exact Or.inr ⟨rfl, rfl, Or.inr ⟨statOk, env, r, rs, rfl, hpending, rfl⟩⟩

theorem regularSoFar_of_step (h : watch.step s e = some s') (hsees : SeesRegular s)
    (path : CString) :
    s'.regularSoFar path = true ↔
      s.regularSoFar path = true ∨ isRegular s'.directory path = true := by
  rcases watch_cases h with ⟨-, hseen⟩ | ⟨hdir, hseen, -⟩
  · rw [hseen, Bool.or_eq_true_iff]
  · rw [hseen, hdir]
    exact ⟨Or.inl, fun hpath => hpath.elim id (hsees path)⟩

theorem seesRegular_step (h : watch.step s e = some s') (hsees : SeesRegular s) : SeesRegular s' :=
  fun path hpath => (regularSoFar_of_step h hsees path).2 (Or.inr hpath)

end Steps

/-- At the end of a run, the paths that have been regular files are those that had been before, and
those that were in some state of the run. -/
theorem regularSoFar_iff {run : List WatchEvent} {s s' : Watched} (hsees : SeesRegular s)
    (hrun : watch.run s run = some s') (path : CString) :
    s'.regularSoFar path = true ↔
      s.regularSoFar path = true ∨
        ∃ pre t, pre <+: run ∧ watch.run s pre = some t ∧ isRegular t.directory path = true := by
  induction run generalizing s with
  | nil =>
      cases hrun
      refine ⟨Or.inl, ?_⟩
      rintro (hseen | ⟨pre, t, hpre, ht, hpath⟩)
      · exact hseen
      · rw [List.prefix_nil.1 hpre] at ht
        cases ht
        exact hsees path hpath
  | cons e run ih =>
      rcases watch.run_cons_eq_some.1 hrun with ⟨u, hu, hrest⟩
      rw [ih (seesRegular_step hu hsees) hrest, regularSoFar_of_step hu hsees]
      constructor
      · rintro ((hseen | hpath) | ⟨pre, t, hpre, ht, hpath⟩)
        · exact Or.inl hseen
        · exact Or.inr ⟨[e], u, by simp, watch.run_cons_eq_some.2 ⟨u, hu, rfl⟩, hpath⟩
        · exact Or.inr ⟨e :: pre, t, List.cons_prefix_cons.2 ⟨rfl, hpre⟩,
            watch.run_cons_eq_some.2 ⟨u, hu, ht⟩, hpath⟩
      · rintro (hseen | ⟨pre, t, hpre, ht, hpath⟩)
        · exact Or.inl (Or.inl hseen)
        · cases pre with
          | nil =>
              cases ht
              exact Or.inl (Or.inl (hsees path hpath))
          | cons e' pre =>
              rcases List.cons_prefix_cons.1 hpre with ⟨rfl, hpre'⟩
              rcases watch.run_cons_eq_some.1 ht with ⟨u', hu', ht'⟩
              cases hu.symm.trans hu'
              exact Or.inr ⟨pre, t, hpre', ht', hpath⟩

/-! ## Only files are journalled -/

/-- What holds in every state of a run that meets the condition. -/
structure Journalled (coll : Collection) (s : Watched) : Prop where
  sees : SeesRegular s
  onlyFiles : OnlyFiles coll s

section Handlers

variable {s : Watched}

theorem stat_of_isRegularFile {statOk : Bool} {dir : Directory} {path : CString}
    (h : isRegularFile statOk dir path = true) : isRegular dir path = true := by
  unfold isRegularFile at h
  split at h
  · cases h
  · next type htype =>
      cases statOk with
      | false =>
          cases htype
      | true =>
          rw [decide_eq_true_eq] at h
          rw [if_pos rfl] at htype
          rw [isRegular, htype, h]
          rfl

/-- An append to a path that has been a regular file does not count. -/
theorem filter_append_of_regularSoFar {path : CString} (hpath : s.regularSoFar path = true)
    (env : AppendEnv) (coll : Collection) (changeType status : CString) :
    ((appendProcEvent env coll path changeType status).1.filter fun d =>
        neverRegular s (d.get? .id)) =
      coll.filter fun d => neverRegular s (d.get? .id) := by
  refine filter_appendProcEvent ?_ env coll changeType status
  rw [neverRegular, hpath]
  rfl

/-- A turn of the daemon, when a removal is one of a file. -/
theorem filter_runHandler {r : InotifyRecord} {rs : List InotifyRecord} {statOk : Bool}
    {env : AppendEnv} (hsees : SeesRegular s) (hpending : s.pending = r :: rs)
    (hremoves : RemovesFile s (.handle statOk env)) :
    ((runHandler statOk env s.directory s.collection (turnFor r)).filter fun d =>
        neverRegular s (d.get? .id)) =
      s.collection.filter fun d => neverRegular s (d.get? .id) := by
  simp only [RemovesFile, hpending, List.head?_cons, Option.bind_some] at hremoves
  cases hturn : turnFor r with
  | none =>
      rfl
  | some call =>
      cases call with
      | fileEvent path eventType =>
          rw [runHandler, handleFileEvent]
          cases hfile : isRegularFile statOk s.directory path with
          | false =>
              rfl
          | true =>
              exact filter_append_of_regularSoFar (hsees path (stat_of_isRegularFile hfile)) env
                s.collection _ _
      | fileDeleted path =>
          rw [hturn] at hremoves
          exact filter_append_of_regularSoFar hremoves env s.collection _ _

end Handlers

theorem neverRegular_mono {s s' : Watched}
    (hseen : ∀ path, s.regularSoFar path = true → s'.regularSoFar path = true) (id : Option Value)
    (h : neverRegular s' id = true) : neverRegular s id = true := by
  unfold neverRegular at h ⊢
  split
  · next path =>
      cases hpath : s.regularSoFar path with
      | false => rfl
      | true => simp [hseen path hpath] at h
  · rfl

theorem journalled_step {coll : Collection} {s s' : Watched} {e : WatchEvent}
    (hs : Journalled coll s) (hremoves : RemovesFile s e) (h : watch.step s e = some s') :
    Journalled coll s' := by
  refine ⟨seesRegular_step h hs.sees, ?_⟩
  -- more paths have been regular files: fewer documents are looked at
  have hmono := @neverRegular_mono s s' fun path hpath =>
    (regularSoFar_of_step h hs.sees path).2 (Or.inl hpath)
  have hold := @filter_eq_of_imp _ _ _ _ _
    (fun d : Document => hmono (d.get? .id)) hs.onlyFiles
  unfold OnlyFiles
  rw [← hold]
  rcases watch_cases h with
    ⟨hcoll, -⟩ | ⟨-, hseen, hcoll | ⟨statOk, env, r, rs, rfl, hpending, hcoll⟩⟩
  · rw [hcoll]
  · rw [hcoll]
  · have hsame : neverRegular s' = neverRegular s := by
      funext id
      simp only [neverRegular, hseen]
    rw [hcoll, hsame]
    exact filter_runHandler hs.sees hpending hremoves

/-- For every history of the directory, from any entries and any collection on, with whatever
records are lost and whatever the daemon finds: if each removal that it handles is one of a path
that has been a regular file by then, the journal changes for such paths only. -/
theorem onlyFiles_of_removesFile (dir : Directory) (before : CString → Bool) (coll : Collection)
    {run : List WatchEvent} (h : watch.EachStep RemovesFile (Watched.start dir before coll) run) :
    watch.Always (OnlyFiles coll) (Watched.start dir before coll) run :=
  watch.always_of_eachStep (fun _ hs => hs.onlyFiles)
    (fun _ _ _ hs hremoves hstep => journalled_step hs hremoves hstep)
    ⟨seesRegular_start dir before coll, rfl⟩ h

/-! ## Removals of anything else -/

/-- When the insert reaches the database, there is a document for the path afterwards. -/
theorem exists_mem_appendProcEvent {env : AppendEnv} (hcoll : env.baseCollection = true)
    (hnames : env.names = true) (hinsert : env.insert = true) (coll : Collection)
    (fileId changeType status : CString) :
    ∃ d ∈ (appendProcEvent env coll fileId changeType status).1,
      d.get? .id = some (.utf8 fileId) := by
  have hbase : ∃ d ∈ (createBaseDocument env coll fileId).1, d.get? .id = some (.utf8 fileId) := by
    rw [createBaseDocument, insertOne_baseDocument]
    simp only [hcoll, hnames, hinsert, Bool.not_true, Bool.false_eq_true, if_false]
    cases hdoc : eventDocument? coll fileId with
    | none =>
        exact ⟨baseDocument fileId, by simp, rfl⟩
    | some d =>
        rcases eventDocument?_eq_some_iff.1 hdoc with ⟨hd, pre, post, rfl, -⟩
        exact ⟨d, by simp, by simpa using hd⟩
  simp only [appendProcEvent]
  split
  · exact hbase
  · split
    · exact hbase
    · split
      · exact hbase
      -- the update keeps the `_id` of the document that it changes
      · next key _ =>
          rcases setProcEvent_cases env (createBaseDocument env coll fileId).1 fileId key
            { date := env.now, typeOfChanges := changeType, status := status } with
            h | ⟨pre, d, post, d', key', -, hid, hset, h⟩
          · rw [h]
            exact hbase
          · rw [h]
            refine ⟨d', by simp, ?_⟩
            rw [Document.get?_of_setProc hset (by decide), hid]

/-- A removal that is handled for any other path, and that reaches the database, makes a document
for it, unless there was one. -/
theorem not_onlyFiles_of_removal {coll : Collection} {s s' : Watched} {statOk : Bool}
    {env : AppendEnv} {path : CString}
    (hturn : s.pending.head?.bind turnFor = some (.fileDeleted path))
    (hnever : s.regularSoFar path = false)
    (hnew : ∀ d ∈ coll, d.get? .id ≠ some (.utf8 path)) (hcoll : env.baseCollection = true)
    (hnames : env.names = true) (hinsert : env.insert = true)
    (hstep : watch.step s (.handle statOk env) = some s') : ¬ OnlyFiles coll s' := by
  intro honly
  simp only [watch] at hstep
  split at hstep
  · cases hstep
  · next r rs hpending =>
      cases hstep
      rw [hpending, List.head?_cons, Option.bind_some] at hturn
      rcases exists_mem_appendProcEvent hcoll hnames hinsert s.collection path (ascii "deleted")
        (ascii "n/a") with ⟨d, hd, hid⟩
      have hkept : d ∈ coll.filter fun d => neverRegular s (d.get? .id) := by
        refine honly.subst (List.mem_filter.2 ⟨?_, ?_⟩)
        · rw [hturn]
          exact hd
        · rw [hid]
          simp [neverRegular, hnever]
      exact hnew d (List.mem_of_mem_filter hkept) hid

/-! ## Directories from which only files are removed -/

/-- The name under which a change removes an entry. -/
def Change.removed : Change → Option FileName
  | .rename old _ _ => some old
  | .moveOut old _ => some old
  | .delete name => some name
  | _ => none

/-- What is removed from the directory has been a regular file under its name. -/
def RemovesOnlyFiles (s : Watched) : WatchEvent → Prop
  | .change c => ∀ name, c.removed = some name → s.regularSoFar name.path = true
  | _ => True

theorem length_path_lt (name : FileName) : name.path.length < pathMax := by
  have hdir : exchangeDir.length + nameMax + 1 < pathMax := by decide
  have hname := name.short
  rw [FileName.path, exchangePath, List.length_append, List.length_cons]
  omega

/-- The turn for a record of the kernel. -/
theorem turnFor_recordOf (mask : Nat) (cookie : UInt32) (name : FileName) :
    turnFor (recordOf mask cookie name) =
      expectedHandler (UInt32.ofNat mask).toNat name.path := by
  have hpos : 0 < name.bytes.length := List.length_pos_of_ne_nil name.nonempty
  have hlen : (recordOf mask cookie name).len =
      name.bytes.length + (16 - name.bytes.length % 16) := rfl
  have hsmall : (recordOf mask cookie name).len < 2 ^ 32 := by
    have hname := name.short
    unfold nameMax at hname
    omega
  have hcall := (@visitEvent_record (recordOf mask cookie name) [] [] hsmall).2.2.1
  rw [List.nil_append, List.append_nil] at hcall
  rw [turnFor, ← List.length_nil, hcall, expectedCall, if_neg (by omega)]
  exact if_pos (length_path_lt name)

theorem Entry.flag_cases (entry : Entry) : entry.flag = 0 ∨ entry.flag = inIsdir := by
  cases entry with
  | file type => cases type <;> simp [Entry.flag]
  | symlink target => exact Or.inl rfl

/-- Whether it is a directory makes no difference to the handler. -/
theorem expectedHandler_movedTo (entry : Entry) (path : CString) :
    expectedHandler (UInt32.ofNat (inMovedTo ||| entry.flag)).toNat path =
      some (.fileEvent path (ascii "moved_to")) := by
  rcases entry.flag_cases with hflag | hflag
  · rw [hflag]
    exact if_pos (by decide)
  · rw [hflag]
    exact if_pos (by decide)

theorem expectedHandler_closeWrite (path : CString) :
    expectedHandler (UInt32.ofNat inCloseWrite).toNat path =
      some (.fileEvent path (ascii "modified")) := by
  rw [expectedHandler, if_neg (by decide), if_pos (by decide)]

/-- The records of a change that lead to `handle_file_deleted` are of the name that it removes. -/
theorem removed_of_fileDeleted {dir : Directory} {c : Change}
    {r : Directory × List InotifyRecord} (h : applyChange dir c = some r) {record : InotifyRecord}
    (hrecord : record ∈ r.2) {path : CString} (hturn : turnFor record = some (.fileDeleted path)) :
    ∃ mask cookie name, record = recordOf mask cookie name ∧ c.removed = some name := by
  cases c with
  | create name entry =>
      simp only [applyChange] at h
      split at h <;> cases h
      cases hrecord
  | closeWrite name =>
      cases h
      rw [List.mem_singleton.1 hrecord, turnFor_recordOf, expectedHandler_closeWrite] at hturn
      cases hturn
  | retarget name target =>
      simp only [applyChange] at h
      split at h <;> cases h
      cases hrecord
  | rename old new cookie =>
      simp only [applyChange] at h
      split at h
      · cases h
      · split at h
        · cases h
          cases hrecord
        · cases h
          rcases List.mem_cons.1 hrecord with rfl | hrecord
          · exact ⟨_, _, old, rfl, rfl⟩
          · rw [List.mem_singleton.1 hrecord, turnFor_recordOf, expectedHandler_movedTo] at hturn
            cases hturn
  | moveIn new entry cookie =>
      cases h
      rw [List.mem_singleton.1 hrecord, turnFor_recordOf, expectedHandler_movedTo] at hturn
      cases hturn
  | moveOut old cookie =>
      rcases Option.map_eq_some_iff.1 h with ⟨entry, -, rfl⟩
      exact ⟨_, _, old, List.mem_singleton.1 hrecord, rfl⟩
  | delete name =>
      rcases Option.map_eq_some_iff.1 h with ⟨entry, -, rfl⟩
      exact ⟨_, _, name, List.mem_singleton.1 hrecord, rfl⟩

/-- A handler is called with the path of the record's name. -/
theorem path_of_fileDeleted {mask : Nat} {cookie : UInt32} {name : FileName} {path : CString}
    (hturn : turnFor (recordOf mask cookie name) = some (.fileDeleted path)) :
    path = name.path := by
  rw [turnFor_recordOf, expectedHandler] at hturn
  split at hturn
  · cases hturn
  · split at hturn
    · cases hturn
    · split at hturn
      · cases hturn
        rfl
      · cases hturn

/-- The removals that the daemon has not come to yet are of paths that have been regular files. -/
def PendingRemovals (s : Watched) : Prop :=
  ∀ record ∈ s.pending, ∀ path, turnFor record = some (.fileDeleted path) →
    s.regularSoFar path = true

theorem pendingRemovals_step {s s' : Watched} {e : WatchEvent} (hsees : SeesRegular s)
    (hpending : PendingRemovals s) (hfiles : RemovesOnlyFiles s e)
    (h : watch.step s e = some s') : PendingRemovals s' := by
  have hmono : ∀ path, s.regularSoFar path = true → s'.regularSoFar path = true :=
    fun path hpath => (regularSoFar_of_step h hsees path).2 (Or.inl hpath)
  intro record hrecord path hturn
  apply hmono
  cases e with
  | change c =>
      rcases Option.map_eq_some_iff.1 h with ⟨r, hr, rfl⟩
      rcases List.mem_append.1 hrecord with hold | hnew
      · exact hpending record hold path hturn
      · rcases removed_of_fileDeleted hr hnew hturn with ⟨mask, cookie, name, rfl, hremoved⟩
        rw [path_of_fileDeleted hturn]
        exact hfiles name hremoved
  | lose i =>
      simp only [watch] at h
      split at h
      · cases h
        exact hpending record (List.mem_of_mem_eraseIdx hrecord) path hturn
      · cases h
  | handle statOk env =>
      simp only [watch] at h
      split at h
      · cases h
      · next r rs hqueue =>
          cases h
          refine hpending record ?_ path hturn
          rw [hqueue]
          exact List.mem_cons_of_mem r hrecord

theorem removesFile_of_pendingRemovals {s : Watched} (hpending : PendingRemovals s)
    (e : WatchEvent) : RemovesFile s e := by
  cases e with
  | change c => trivial
  | lose i => trivial
  | handle statOk env =>
      simp only [RemovesFile]
      split
      · next path hturn =>
          rcases Option.bind_eq_some_iff.1 hturn with ⟨record, hhead, hcall⟩
          exact hpending record (List.mem_of_head? hhead) path hcall
      · trivial

/-- For every history in which only regular files leave their names, or entries whose names have
belonged to one: only files are journalled, whenever the daemon comes to the events. -/
theorem onlyFiles_of_removesOnlyFiles (dir : Directory) (before : CString → Bool)
    (coll : Collection) {run : List WatchEvent}
    (h : watch.EachStep RemovesOnlyFiles (Watched.start dir before coll) run) :
    watch.Always (OnlyFiles coll) (Watched.start dir before coll) run := by
  have hstart : Journalled coll (Watched.start dir before coll) :=
    ⟨seesRegular_start dir before coll, rfl⟩
  refine @Lts.always_of_eachStep _ _ watch (fun s => Journalled coll s ∧ PendingRemovals s) _ _
    (fun s hs => hs.1.onlyFiles) ?_ run _ ⟨hstart, ?_⟩ h
  · rintro s e s' ⟨hs, hpending⟩ hfiles hstep
    exact ⟨journalled_step hs (removesFile_of_pendingRemovals hpending e) hstep,
      pendingRemovals_step hs.sees hpending hfiles hstep⟩
  · intro record hrecord
    cases hrecord

/-! ## Files and subdirectories -/

/-- A name of one letter. -/
def letter : FileName :=
  { bytes := ascii "a"
    nonempty := by decide
    noNul := by decide
    noSlash := by decide
    short := by decide }

def emptyDirectory : Watched :=
  Watched.start (fun _ => none) (fun _ => false) []

def fileHistory : List WatchEvent :=
  [.change (.create letter (.file .regular)), .change (.closeWrite letter),
    .handle true (AppendEnv.ok 0 0), .change (.delete letter), .handle true (AppendEnv.ok 0 0)]

def subdirectoryHistory : List WatchEvent :=
  [.change (.create letter (.file .directory)), .change (.delete letter),
    .handle true (AppendEnv.ok 0 0)]

/-- A file is written and deleted. -/
theorem onlyFiles_fileHistory : watch.Always (OnlyFiles []) emptyDirectory fileHistory := by
  refine onlyFiles_of_removesFile (fun _ => none) (fun _ => false) [] ?_
  decide

/-- A subdirectory is made and removed. -/
theorem not_onlyFiles_subdirectoryHistory :
    ¬ watch.Always (OnlyFiles []) emptyDirectory subdirectoryHistory := by
  decide

end FileExchange
