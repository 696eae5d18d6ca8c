import FileExchange.Server.Download

/-!
# Server.List — `handle_list_request`

The handler builds a query for the caller's files, but passes the empty `or_query` to the
database, so the cursor runs over all documents.

* `listLoop`   : the loop that joins the JSON texts;
* `listedDocs` : the documents that get into the list;
* `handleList` : the whole handler;
* `listCrashes`, `listAborts` : the two ways in which it can end the process.
-/

namespace FileExchange

open Lib

/-- What a list request finds: whether the query succeeds, the JSON text of a projected
document unless the conversion fails, whether the allocation for the `i`-th document is
granted, whether `strdup("[]")` returns a string, and whether `free` ends the process when a byte
behind the block has been overwritten. -/
structure ListEnv where
  find : Bool
  json : Document → Option CString
  alloc : Nat → Bool
  strdup : Bool
  freeAborts : Bool

/-- Surroundings in which nothing fails. -/
def ListEnv.ok (json : Document → CString) : ListEnv :=
  { find := true
    json := fun d => some (json d)
    alloc := fun _ => true
    strdup := true
    freeAborts := false }

/-- `'['`, `']'` and `','`. -/
def bracketOpen : UInt8 := 91

def bracketClose : UInt8 := 93

def comma : UInt8 := 44

/-- The loop over the cursor: `full_list[0 .. total_len)` after the documents from the `i`-th on. -/
def listLoop (env : ListEnv) : Nat → List Document → Bytes → Bytes
  | _, [], full => full
  | i, d :: docs, full =>
      match env.json d with
      -- a document that is not converted is left out
      | none => listLoop env (i + 1) docs full
      | some json =>
          -- `malloc` for the first text, `realloc` for the others
          if !env.alloc i then listLoop env (i + 1) docs full
          else if full.length = 0 then listLoop env (i + 1) docs (bracketOpen :: json)
          else listLoop env (i + 1) docs (full ++ comma :: json)

/-- The documents that the cursor of a list request returns. -/
def Server.cursor (srv : Server) (env : ListEnv) : List Document :=
  -- `or_query` is empty: it selects every document
  if env.find then srv.collection.find [] else []

/-- Whether the `i`-th document gets into the list: it is converted and its block granted. -/
def ListEnv.adds (env : ListEnv) (i : Nat) (d : Document) : Bool :=
  (env.json d).isSome && env.alloc i

/-- The documents that get into the list, from the `i`-th on. -/
def listedDocs (env : ListEnv) : Nat → List Document → List Document
  | _, [] => []
  | i, d :: docs =>
      if env.adds i d then d :: listedDocs env (i + 1) docs else listedDocs env (i + 1) docs

/-- With two texts or more the NUL behind the list lies outside of its block, and `free` finds it
there. -/
def listAborts (srv : Server) (env : ListEnv) : Bool :=
  env.freeAborts && decide (1 < (listedDocs env 0 (srv.cursor env)).length)

/-- The list is empty and `strdup` fails. -/
def listCrashes (srv : Server) (env : ListEnv) : Bool :=
  decide ((listLoop env 0 (srv.cursor env) []).length = 0) && !env.strdup

def handleList (srv : Server) (env : ListEnv) : Server × List Message :=
  let full := listLoop env 0 (srv.cursor env) []
  if full.length > 0 then
    let text := full ++ [bracketClose]
    -- the list is sent before its block is freed
    ({ srv with alive := srv.alive && !listAborts srv env },
      [.response .success text.length, .payload text])
  else if !env.strdup then
    -- `strlen` of a null pointer
    ({ srv with alive := false }, [])
  else
    let text := [bracketOpen, bracketClose]
    (srv, [.response .success text.length, .payload text])

/-- A list request writes nothing. -/
theorem handleList_server (srv : Server) (env : ListEnv) :
    (handleList srv env).1.crypto = srv.crypto ∧ (handleList srv env).1.storage = srv.storage ∧
      (handleList srv env).1.collection = srv.collection := by
  simp only [handleList]
  split
  · exact ⟨rfl, rfl, rfl⟩
  · split <;> exact ⟨rfl, rfl, rfl⟩

theorem listLoop_ne_nil (env : ListEnv) {docs : List Document} : ∀ {i : Nat} {full : Bytes},
    full ≠ [] → listLoop env i docs full ≠ [] := by
  induction docs with
  | nil =>
      exact fun hfull => hfull
  | cons d docs ih =>
      intro i full hfull
      rw [listLoop]
      split
      · exact ih hfull
      · split
        · exact ih hfull
        · split
          · exact ih (List.cons_ne_nil _ _)
          · exact ih (List.append_ne_nil_of_left_ne_nil hfull _)

/-- There is a list as soon as one document gets into it. -/
theorem listedDocs_of_listLoop_eq_nil (env : ListEnv) {docs : List Document} : ∀ {i : Nat},
    listLoop env i docs [] = [] → listedDocs env i docs = [] := by
  induction docs with
  | nil =>
      exact fun _ => rfl
  | cons d docs ih =>
      intro i h
      rw [listLoop] at h
      cases hjson : env.json d with
      | none =>
          rw [hjson] at h
          simpa [listedDocs, ListEnv.adds, hjson] using ih h
      | some json =>
          cases halloc : env.alloc i with
          | false =>
              rw [hjson] at h
              simp only [halloc, Bool.not_false, if_true] at h
              simpa [listedDocs, ListEnv.adds, hjson, halloc] using ih h
          | true =>
              rw [hjson] at h
              simp only [halloc, Bool.not_true, Bool.false_eq_true, if_false, List.length_nil,
                if_true] at h
              exact absurd h (listLoop_ne_nil env (List.cons_ne_nil _ _))

theorem handleList_alive_eq (srv : Server) (env : ListEnv) :
    (handleList srv env).1.alive =
      (srv.alive && !listCrashes srv env && !listAborts srv env) := by
  simp only [handleList, listCrashes]
  by_cases hfull : (listLoop env 0 (srv.cursor env) []).length > 0
  · have hne : ¬ (listLoop env 0 (srv.cursor env) []).length = 0 := by omega
    simp [hfull, hne]
  · have hzero : (listLoop env 0 (srv.cursor env) []).length = 0 := by omega
    have hnone := listedDocs_of_listLoop_eq_nil env (List.length_eq_zero_iff.1 hzero)
    cases env.strdup <;> simp [hzero, listAborts, hnone]

theorem handleList_alive (srv : Server) {env : ListEnv} (h : env.strdup = true)
    (hfree : env.freeAborts = false) : (handleList srv env).1.alive = srv.alive := by
  simp [handleList_alive_eq, listCrashes, listAborts, h, hfree]

end FileExchange
