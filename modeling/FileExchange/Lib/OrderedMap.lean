import Mathlib.Data.List.Nodup

/-!
# Lib.OrderedMap — finite maps that remember the order of their keys

An ordered map is a list of entries whose keys are different.  Setting a key that is present
changes its value in place; setting a new key appends an entry.  This is how an embedded
document behaves under an update of one of its fields.
-/

namespace FileExchange
namespace Lib

universe u v

/-- Entries in the order in which their keys were first set. -/
structure OrderedMap (κ : Type u) (α : Type v) where
  entries : List (κ × α)
  nodupKeys : (entries.map Prod.fst).Nodup

namespace OrderedMap

variable {κ : Type u} {α : Type v}

theorem ext_entries {m m' : OrderedMap κ α} (h : m.entries = m'.entries) : m = m' := by
  cases m
  cases m'
  cases h
  rfl

instance [DecidableEq κ] [DecidableEq α] : DecidableEq (OrderedMap κ α) := fun m m' =>
  decidable_of_iff (m.entries = m'.entries) ⟨ext_entries, fun h => by rw [h]⟩

/-- The keys, in order. -/
def keys (m : OrderedMap κ α) : List κ :=
  m.entries.map Prod.fst

def empty : OrderedMap κ α :=
  { entries := [], nodupKeys := by simp }

@[simp] theorem entries_empty : (empty : OrderedMap κ α).entries = [] := rfl

@[simp] theorem keys_empty : (empty : OrderedMap κ α).keys = [] := rfl

theorem nodup_keys (m : OrderedMap κ α) : m.keys.Nodup :=
  m.nodupKeys

@[simp] theorem length_keys (m : OrderedMap κ α) : m.keys.length = m.entries.length := by
  simp [keys]

variable [DecidableEq κ]

/-- The value of a key, if it has one. -/
def get? (m : OrderedMap κ α) (k : κ) : Option α :=
  (m.entries.find? fun e => e.1 = k).map Prod.snd

/-- Change the value of `k` where it stands, or append it. -/
def setEntries (es : List (κ × α)) (k : κ) (v : α) : List (κ × α) :=
  if k ∈ es.map Prod.fst then es.map fun e => if e.1 = k then (k, v) else e
  else es ++ [(k, v)]

theorem keys_setEntries (es : List (κ × α)) (k : κ) (v : α) :
    (setEntries es k v).map Prod.fst =
      if k ∈ es.map Prod.fst then es.map Prod.fst else es.map Prod.fst ++ [k] := by
  unfold setEntries
  split
  · rw [List.map_map]
    refine List.map_congr_left fun e _ => ?_
    by_cases he : e.1 = k
    · simp [he]
    · simp [he]
  · simp

def set (m : OrderedMap κ α) (k : κ) (v : α) : OrderedMap κ α :=
  { entries := setEntries m.entries k v
    nodupKeys := by
      rw [keys_setEntries]
      split
      · exact m.nodupKeys
      · next hk => simpa [List.nodup_append] using ⟨m.nodupKeys, fun a x hx ha => hk (by
          subst ha
          exact List.mem_map_of_mem (f := Prod.fst) hx)⟩ }

/-! ## Keys after an update -/

theorem keys_set (m : OrderedMap κ α) (k : κ) (v : α) :
    (m.set k v).keys = if k ∈ m.keys then m.keys else m.keys ++ [k] :=
  keys_setEntries m.entries k v

theorem keys_set_of_mem {m : OrderedMap κ α} {k : κ} (hk : k ∈ m.keys) (v : α) :
    (m.set k v).keys = m.keys := by
  simp [keys_set, hk]

theorem keys_set_of_not_mem {m : OrderedMap κ α} {k : κ} (hk : k ∉ m.keys) (v : α) :
    (m.set k v).keys = m.keys ++ [k] := by
  simp [keys_set, hk]

theorem entries_set_of_mem {m : OrderedMap κ α} {k : κ} (hk : k ∈ m.keys) (v : α) :
    (m.set k v).entries = m.entries.map fun e => if e.1 = k then (k, v) else e :=
  if_pos hk

theorem entries_set_of_not_mem {m : OrderedMap κ α} {k : κ} (hk : k ∉ m.keys) (v : α) :
    (m.set k v).entries = m.entries ++ [(k, v)] :=
  if_neg hk

/-- The values, in the order of their keys. -/
def values (m : OrderedMap κ α) : List α :=
  m.entries.map Prod.snd

omit [DecidableEq κ] in
@[simp] theorem values_empty : (empty : OrderedMap κ α).values = [] := rfl

theorem values_set_of_not_mem {m : OrderedMap κ α} {k : κ} (hk : k ∉ m.keys) (v : α) :
    (m.set k v).values = m.values ++ [v] := by
  simp [values, entries_set_of_not_mem hk]

/-- An update adds at most one entry. -/
theorem length_entries_set_le (m : OrderedMap κ α) (k : κ) (v : α) :
    (m.set k v).entries.length ≤ m.entries.length + 1 := by
  rw [← length_keys, ← length_keys, keys_set]
  split
  · omega
  · simp

/-! ## Values after an update -/

theorem get?_isSome_iff {m : OrderedMap κ α} {k : κ} : (m.get? k).isSome ↔ k ∈ m.keys := by
  simp [get?, keys, List.find?_isSome]

theorem mem_entries_of_get? {m : OrderedMap κ α} {k : κ} {v : α} (h : m.get? k = some v) :
    (k, v) ∈ m.entries := by
  rcases Option.map_eq_some_iff.1 h with ⟨⟨k', v'⟩, hfind, rfl⟩
  have hk : k' = k := by simpa using List.find?_some hfind
  subst hk
  exact List.mem_of_find?_eq_some hfind

/-- With different keys, an entry is found under its key. -/
theorem get?_of_mem_entries {m : OrderedMap κ α} {k : κ} {v : α} (h : (k, v) ∈ m.entries) :
    m.get? k = some v := by
  have hsome : (m.get? k).isSome := get?_isSome_iff.2 (List.mem_map.2 ⟨(k, v), h, rfl⟩)
  rcases Option.isSome_iff_exists.1 hsome with ⟨v', hv'⟩
  have hmem : (k, v') ∈ m.entries := mem_entries_of_get? hv'
  have hpair : (k, v') = (k, v) :=
    List.inj_on_of_nodup_map m.nodupKeys hmem h rfl
  rw [hv', (Prod.mk.inj hpair).2]

theorem get?_eq_some_iff {m : OrderedMap κ α} {k : κ} {v : α} :
    m.get? k = some v ↔ (k, v) ∈ m.entries :=
  ⟨mem_entries_of_get?, get?_of_mem_entries⟩

theorem mem_entries_set {m : OrderedMap κ α} {k k' : κ} {v v' : α} :
    (k', v') ∈ (m.set k v).entries ↔
      (k' = k ∧ v' = v) ∨ (k' ≠ k ∧ (k', v') ∈ m.entries) := by
  by_cases hk : k ∈ m.keys
  · rw [entries_set_of_mem hk, List.mem_map]
    constructor
    · rintro ⟨e, he, heq⟩
      by_cases hek : e.1 = k
      · rw [if_pos hek] at heq
        exact Or.inl ⟨(Prod.mk.inj heq).1.symm, (Prod.mk.inj heq).2.symm⟩
      · rw [if_neg hek] at heq
        subst heq
        exact Or.inr ⟨hek, he⟩
    · rintro (⟨rfl, rfl⟩ | ⟨hne, he⟩)
      · rcases List.mem_map.1 hk with ⟨e, he, hek⟩
        exact ⟨e, he, if_pos hek⟩
      · exact ⟨(k', v'), he, if_neg hne⟩
  · rw [entries_set_of_not_mem hk, List.mem_append, List.mem_singleton]
    constructor
    · rintro (he | heq)
      · refine Or.inr ⟨?_, he⟩
        rintro rfl
        exact hk (List.mem_map.2 ⟨_, he, rfl⟩)
      · exact Or.inl (Prod.mk.inj heq)
    · rintro (⟨rfl, rfl⟩ | ⟨_, he⟩)
      · exact Or.inr rfl
      · exact Or.inl he

@[simp] theorem get?_set_self (m : OrderedMap κ α) (k : κ) (v : α) :
    (m.set k v).get? k = some v :=
  get?_of_mem_entries (mem_entries_set.2 (Or.inl ⟨rfl, rfl⟩))

theorem get?_set_of_ne {m : OrderedMap κ α} {k k' : κ} (hne : k' ≠ k) (v : α) :
    (m.set k v).get? k' = m.get? k' := by
  refine Option.ext fun v' => ?_
  simp [get?_eq_some_iff, mem_entries_set, hne]

theorem mem_keys_set_self (m : OrderedMap κ α) (k : κ) (v : α) : k ∈ (m.set k v).keys :=
  get?_isSome_iff.1 (by simp)

/-- The second of two updates of one key counts. -/
theorem set_set_self (m : OrderedMap κ α) (k : κ) (v v' : α) :
    (m.set k v).set k v' = m.set k v' := by
  apply ext_entries
  rw [entries_set_of_mem (mem_keys_set_self m k v)]
  by_cases hk : k ∈ m.keys
  · rw [entries_set_of_mem hk, entries_set_of_mem hk, List.map_map]
    refine List.map_congr_left fun e _ => ?_
    by_cases he : e.1 = k
    · simp [he]
    · simp [he]
  · rw [entries_set_of_not_mem hk, entries_set_of_not_mem hk, List.map_append]
    have hsame : (m.entries.map fun e => if e.1 = k then (k, v') else e) = m.entries := by
      refine (List.map_congr_left fun e he => if_neg ?_).trans (List.map_id _)
      rintro rfl
      exact hk (List.mem_map_of_mem he)
    simp [hsame]

/-! ## Removing a key -/

def erase (m : OrderedMap κ α) (k : κ) : OrderedMap κ α :=
  { entries := m.entries.filter fun e => e.1 ≠ k
    nodupKeys := m.nodupKeys.sublist (List.filter_sublist.map Prod.fst) }

theorem get?_erase_of_ne {m : OrderedMap κ α} {k k' : κ} (hne : k' ≠ k) :
    (m.erase k).get? k' = m.get? k' := by
  refine Option.ext fun v => ?_
  simp [get?_eq_some_iff, erase, hne]

/-- Setting a key and removing it leaves what removing it leaves. -/
theorem erase_set_self (m : OrderedMap κ α) (k : κ) (v : α) : (m.set k v).erase k = m.erase k := by
  apply ext_entries
  by_cases hk : k ∈ m.keys
  · simp only [erase, entries_set_of_mem hk]
    induction m.entries with
    | nil =>
        rfl
    | cons e es ih =>
        by_cases he : e.1 = k
        · simpa [he] using ih
        · simpa [he] using ih
  · simp [erase, entries_set_of_not_mem hk]

end OrderedMap

end Lib
end FileExchange
