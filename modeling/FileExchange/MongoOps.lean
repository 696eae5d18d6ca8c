import FileExchange.Mongo

/-!
# MongoOps — `mongo_update_or_insert` of `mongo_ops.c` and `mongo_ops_server.c`

The function promises an upsert, but hands no options to `update_one`.

* `mongoUpdateOrInsert` : one call;
* `updateAll`  : calls one after the other, as long as they return true;
* `KeepsLast`  : what the calls promise together;
* `keepsLast_iff` : they keep it if and only if each name had a document before, and each last
  size is below `2^63`.
-/

namespace FileExchange

open Lib

/-! ## Calls -/

/-- The arguments of a call, whether its command gets through, and the clock. -/
structure UpdateCall where
  filename : CString
  size : UInt64
  mime : CString
  reached : Bool
  now : Int
  deriving DecidableEq, Repr

/-- `{"filename": filename}`. -/
def filenameQuery (filename : CString) : List (Field × Value) :=
  [(.filename, .utf8 filename)]

/-- `{"$set": set_fields}`. -/
def UpdateCall.setFields (c : UpdateCall) (d : Document) : Document :=
  (((d.set .filename (.utf8 c.filename)).set .size (.int64 (toInt64 c.size.toNat))).set .mimeType
    (.utf8 c.mime)).set .lastModified (.dateTime c.now)

def mongoUpdateOrInsert (coll : Collection) (c : UpdateCall) : Collection × Bool :=
  if !c.reached then (coll, false)
  else
    -- the options are `NULL`, so that `upsert` is off
    match coll.updateOne (filenameQuery c.filename) fun d => some (c.setFields d) with
    | some coll' => (coll', true)
    | none => (coll, false)

/-- The collection after a sequence of calls that all return true. -/
def updateAll : Collection → List UpdateCall → Option Collection
  | coll, [] => some coll
  | coll, c :: cs =>
      let r := mongoUpdateOrInsert coll c
      if r.2 then updateAll r.1 cs else none

/-! ## What they promise -/

/-- The document that an update of `filename` selects. -/
def selected? (coll : Collection) (filename : CString) : Option Document :=
  (coll.find (filenameQuery filename)).head?

def callsFor (filename : CString) (calls : List UpdateCall) : List UpdateCall :=
  calls.filter fun c => decide (c.filename = filename)

/-- No call names the file of `d`. -/
def untouched (calls : List UpdateCall) (d : Document) : Bool :=
  calls.all fun c => decide (d.get? .filename ≠ some (.utf8 c.filename))

/-- Each name has a document with the size and the MIME type of the last call for it, and the
documents with other names are as before. -/
structure KeepsLast (calls : List UpdateCall) (coll coll' : Collection) : Prop where
  last : ∀ filename c, (callsFor filename calls).getLast? = some c →
    ∃ d, selected? coll' filename = some d ∧
      d.get? .size = some (.int64 c.size.toNat) ∧ d.get? .mimeType = some (.utf8 c.mime)
  others : coll'.filter (untouched calls) = coll.filter (untouched calls)

@[simp] theorem satisfies_filenameQuery (d : Document) (filename : CString) :
    d.satisfies (filenameQuery filename) = decide (d.get? .filename = some (.utf8 filename)) := by
  simp [Document.satisfies, filenameQuery]

section Call

variable {coll coll' : Collection} {c : UpdateCall}

@[simp] theorem get?_filename_setFields (d : Document) :
    (c.setFields d).get? .filename = some (.utf8 c.filename) := by
  simp [UpdateCall.setFields, OrderedMap.get?_set_of_ne]

@[simp] theorem get?_size_setFields (d : Document) :
    (c.setFields d).get? .size = some (.int64 (toInt64 c.size.toNat)) := by
  simp [UpdateCall.setFields, OrderedMap.get?_set_of_ne]

@[simp] theorem get?_mimeType_setFields (d : Document) :
    (c.setFields d).get? .mimeType = some (.utf8 c.mime) := by
  simp [UpdateCall.setFields, OrderedMap.get?_set_of_ne]

/-- A call that returns true has found no document, or has set the fields of the first one. -/
theorem mongoUpdateOrInsert_cases (h : mongoUpdateOrInsert coll c = (coll', true)) :
    ((∀ d ∈ coll, d.get? .filename ≠ some (.utf8 c.filename)) ∧ coll' = coll) ∨
      ∃ pre d post, coll = pre ++ d :: post ∧
        (∀ e ∈ pre, e.get? .filename ≠ some (.utf8 c.filename)) ∧
        d.get? .filename = some (.utf8 c.filename) ∧ coll' = pre ++ c.setFields d :: post := by
  unfold mongoUpdateOrInsert at h
  split at h
  · cases (Prod.mk.inj h).2
  · split at h
    · next hupdate =>
        rcases Prod.mk.inj h with ⟨rfl, -⟩
        rcases Collection.updateOne_cases hupdate with
          ⟨hnone, rfl⟩ | ⟨pre, d, post, d', rfl, hpre, hd, hset, rfl⟩
        · exact Or.inl ⟨by simpa using hnone, rfl⟩
        · cases hset
          exact Or.inr ⟨pre, d, post, rfl, by simpa using hpre, by simpa using hd, rfl⟩
    · cases (Prod.mk.inj h).2

theorem selected?_eq_find? (coll : Collection) (filename : CString) :
    selected? coll filename =
      coll.find? fun d => decide (d.get? .filename = some (.utf8 filename)) := by
  simp [selected?, Collection.find, List.head?_filter]

/-- The document of the name gets the fields of the call, if there is one, and the other names
keep theirs. -/
theorem selected?_mongoUpdateOrInsert (h : mongoUpdateOrInsert coll c = (coll', true))
    (filename : CString) :
    selected? coll' filename =
      if c.filename = filename then (selected? coll filename).map c.setFields
      else selected? coll filename := by
  rw [selected?_eq_find?, selected?_eq_find?]
  rcases mongoUpdateOrInsert_cases h with ⟨hnone, rfl⟩ | ⟨pre, d, post, rfl, hpre, hd, rfl⟩
  · split
    · next heq =>
        subst heq
        have hfind : (coll'.find? fun d =>
            decide (d.get? .filename = some (.utf8 c.filename))) = none := by
          rw [List.find?_eq_none]
          simpa using hnone
        rw [hfind, Option.map_none]
    · rfl
  · split
    · next heq =>
        subst heq
        have hfind : (pre.find? fun d =>
            decide (d.get? .filename = some (.utf8 c.filename))) = none := by
          rw [List.find?_eq_none]
          simpa using hpre
        simp [List.find?_append, hfind, hd]
    · next hne =>
        simp [List.find?_append, hd, hne]

/-- Documents that no call names are not touched. -/
theorem filter_mongoUpdateOrInsert (h : mongoUpdateOrInsert coll c = (coll', true))
    {keep : Document → Bool}
    (hkeep : ∀ d, d.get? .filename = some (.utf8 c.filename) → keep d = false) :
    coll'.filter keep = coll.filter keep := by
  rcases mongoUpdateOrInsert_cases h with ⟨-, rfl⟩ | ⟨pre, d, post, rfl, -, hd, rfl⟩
  · rfl
  · simp [hkeep d hd, hkeep (c.setFields d) (get?_filename_setFields d)]

end Call

/-! ## Sequences of calls -/

theorem updateAll_cons_eq_some {coll coll' : Collection} {c : UpdateCall} {cs : List UpdateCall} :
    updateAll coll (c :: cs) = some coll' ↔
      ∃ mid, mongoUpdateOrInsert coll c = (mid, true) ∧ updateAll mid cs = some coll' := by
  cases hcall : mongoUpdateOrInsert coll c with
  | mk mid ok =>
      cases ok <;> simp [updateAll, hcall]

/-- The document of a name goes through the calls for this name, in their order. -/
theorem selected?_updateAll {calls : List UpdateCall} {coll coll' : Collection}
    (h : updateAll coll calls = some coll') (filename : CString) :
    selected? coll' filename =
      (selected? coll filename).map fun d =>
        (callsFor filename calls).foldl (fun d c => c.setFields d) d := by
  induction calls generalizing coll with
  | nil =>
      cases h
      simp [callsFor]
  | cons c cs ih =>
      rcases updateAll_cons_eq_some.1 h with ⟨mid, hmid, hrest⟩
      rw [ih hrest, selected?_mongoUpdateOrInsert hmid]
      by_cases hc : c.filename = filename
      · simp [callsFor, hc, Function.comp_def]
      · simp [callsFor, hc]

theorem filter_updateAll {calls : List UpdateCall} {coll coll' : Collection}
    (h : updateAll coll calls = some coll') {keep : Document → Bool}
    (hkeep : ∀ c ∈ calls, ∀ d, d.get? .filename = some (.utf8 c.filename) → keep d = false) :
    coll'.filter keep = coll.filter keep := by
  induction calls generalizing coll with
  | nil =>
      cases h
      rfl
  | cons c cs ih =>
      rcases updateAll_cons_eq_some.1 h with ⟨mid, hmid, hrest⟩
      rw [ih hrest fun c' hc' => hkeep c' (List.mem_cons_of_mem _ hc'),
        filter_mongoUpdateOrInsert hmid (hkeep c List.mem_cons_self)]

/-- After the last call for a name, its document is what this call made of it. -/
theorem exists_setFields_of_getLast? {calls : List UpdateCall} {filename : CString}
    {c : UpdateCall} (hlast : (callsFor filename calls).getLast? = some c) (d : Document) :
    ∃ d', (callsFor filename calls).foldl (fun d c => c.setFields d) d = c.setFields d' := by
  rcases List.getLast?_eq_some_iff.1 hlast with ⟨earlier, hearlier⟩
  exact ⟨earlier.foldl (fun d c => c.setFields d) d, by rw [hearlier, List.foldl_concat]⟩

theorem toInt64_eq_natCast_iff (n : UInt64) :
    toInt64 n.toNat = n.toNat ↔ n.toNat < 2 ^ 63 := by
  have hn : n.toNat < 2 ^ 64 := n.toNat_lt
  refine ⟨fun h => ?_, fun h => toInt64_of_lt (by omega) (by exact_mod_cast h)⟩
  have hlt : toInt64 n.toNat < 2 ^ 63 := by
    have hb := @Int.bmod_lt n.toNat (2 ^ 64) (by decide)
    unfold toInt64
    omega
  omega

/-- For every collection and every sequence of calls that all return true: what they promise
holds if and only if each name had a document before the calls, and the size in the last call for
it fits into an `int64_t`. -/
theorem keepsLast_iff (coll coll' : Collection) (calls : List UpdateCall)
    (h : updateAll coll calls = some coll') :
    KeepsLast calls coll coll' ↔
      ∀ filename c, (callsFor filename calls).getLast? = some c →
        (∃ d ∈ coll, d.get? .filename = some (.utf8 filename)) ∧ c.size.toNat < 2 ^ 63 := by
  have hothers : coll'.filter (untouched calls) = coll.filter (untouched calls) := by
    refine filter_updateAll h fun c hc d hd => ?_
    rw [untouched, List.all_eq_false]
    exact ⟨c, hc, by simp [hd]⟩
  have hexists : ∀ filename, (∃ d ∈ coll, d.get? .filename = some (.utf8 filename)) ↔
      (selected? coll filename).isSome = true := by
    intro filename
    rw [selected?_eq_find?, List.find?_isSome]
    simp
  constructor
  · rintro ⟨hlast, -⟩ filename c hc
    rcases hlast filename c hc with ⟨d, hd, hsize, -⟩
    rw [selected?_updateAll h] at hd
    rcases Option.map_eq_some_iff.1 hd with ⟨d₀, hd₀, rfl⟩
    rcases exists_setFields_of_getLast? hc d₀ with ⟨d', hd'⟩
    rw [hd', get?_size_setFields, Option.some.injEq, Value.int64.injEq] at hsize
    exact ⟨(hexists filename).2 (by rw [hd₀]; rfl), (toInt64_eq_natCast_iff c.size).1 hsize⟩
  · intro hcond
    refine ⟨fun filename c hc => ?_, hothers⟩
    rcases hcond filename c hc with ⟨hdoc, hsize⟩
    rcases Option.isSome_iff_exists.1 ((hexists filename).1 hdoc) with ⟨d₀, hd₀⟩
    rcases exists_setFields_of_getLast? hc d₀ with ⟨d', hd'⟩
    refine ⟨c.setFields d', ?_, ?_, get?_mimeType_setFields d'⟩
    · rw [selected?_updateAll h, hd₀, Option.map_some, hd']
    · rw [get?_size_setFields, (toInt64_eq_natCast_iff c.size).2 hsize]

/-- `mongo_update_or_insert("a", size, "b")`. -/
def sampleCall (size : UInt64) : UpdateCall :=
  { filename := ascii "a"
    size := size
    mime := ascii "b"
    reached := true
    now := 0 }

/-- A document with a name and nothing else. -/
def sampleDocument : Document :=
  OrderedMap.empty.set .filename (.utf8 (ascii "a"))

/-- Two calls for a file that has a document. -/
theorem keepsLast_two_calls :
    KeepsLast [sampleCall 1, sampleCall 2] [sampleDocument]
      [(sampleCall 2).setFields ((sampleCall 1).setFields sampleDocument)] := by
  refine (keepsLast_iff _ _ _ (by decide)).2 ?_
  intro filename c hc
  have hmem : c ∈ [sampleCall 1, sampleCall 2] :=
    List.mem_of_mem_filter (List.mem_of_getLast? hc)
  have hname : c.filename = filename :=
    of_decide_eq_true (List.mem_filter.1 (List.mem_of_getLast? hc)).2
  have hall : ∀ c ∈ [sampleCall 1, sampleCall 2],
      (∃ d ∈ [sampleDocument], d.get? .filename = some (.utf8 c.filename)) ∧
        c.size.toNat < 2 ^ 63 := by
    decide
  exact hname ▸ hall c hmem

/-- A call on the empty collection returns true and creates nothing. -/
theorem not_keepsLast_empty :
    updateAll [] [sampleCall 1] = some [] ∧ ¬ KeepsLast [sampleCall 1] [] [] := by
  refine ⟨by decide, fun h => ?_⟩
  rcases h.last (ascii "a") (sampleCall 1) (by decide) with ⟨d, hd, -⟩
  exact absurd hd (by simp [selected?, Collection.find])

end FileExchange
