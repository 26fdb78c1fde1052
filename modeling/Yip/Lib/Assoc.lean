/-
This file adds one operation to association lists: dropping the entries that fail a test, as
`retain` does for a hash map.
-/

import Mathlib.Data.List.AList

namespace Assoc

open List

variable {Key Value : Type*}

def retain (keep : Key → Value → Bool) (table : AList fun _ : Key => Value) :
    AList fun _ : Key => Value :=
  ⟨table.entries.filter fun entry => keep entry.1 entry.2,
    table.nodupKeys.sublist filter_sublist⟩

theorem lookup_retain [DecidableEq Key] (keep : Key → Value → Bool)
    (table : AList fun _ : Key => Value) (key : Key) :
    (retain keep table).lookup key = (table.lookup key).filter (keep key) := by
  ext value
  rw [← Option.mem_def, AList.mem_lookup_iff, Option.filter_eq_some_iff, ← Option.mem_def,
    AList.mem_lookup_iff]
  exact mem_filter

theorem length_keys {table : AList fun _ : Key => Value} :
    table.keys.length = table.entries.length := length_map _

section Changes

variable [DecidableEq Key] {table : AList fun _ : Key => Value} {key : Key} {value old : Value}

theorem lookup_insert_eq_update :
    (table.insert key value).lookup = Function.update table.lookup key (some value) := by
  funext other
  by_cases own : other = key
  · rw [own, AList.lookup_insert, Function.update_self]
  · rw [AList.lookup_insert_ne own, Function.update_of_ne own]

theorem lookup_erase_eq_update :
    (table.erase key).lookup = Function.update table.lookup key none := by
  funext other
  by_cases own : other = key
  · rw [own, AList.lookup_erase, Function.update_self]
  · rw [AList.lookup_erase_ne own, Function.update_of_ne own]

theorem mem_keys_of_lookup (held : table.lookup key = some old) : key ∈ table.keys :=
  AList.mem_keys.mp (AList.lookup_isSome.mp (by rw [held]; rfl))

theorem erase_of_absent (absent : table.lookup key = none) : table.erase key = table :=
  AList.ext (kerase_of_notMem_keys (AList.lookup_eq_none.mp absent))

theorem perm_erase (held : table.lookup key = some old) :
    table.entries.Perm (⟨key, old⟩ :: (table.erase key).entries) := by
  obtain ⟨other, before, behind, -, split, erased⟩ :=
    exists_of_kerase (mem_keys_of_lookup held)
  have here : ⟨key, other⟩ ∈ table.entries := split ▸ mem_append_right _ mem_cons_self
  have same : other = old :=
    table.nodupKeys.eq_of_mk_mem here (AList.mem_lookup_iff.mp held)
  rw [show (table.erase key).entries = table.entries.kerase key from rfl, erased, split, same]
  exact perm_middle

theorem length_erase (held : table.lookup key = some old) :
    (table.erase key).entries.length + 1 = table.entries.length := by
  have member := mem_keys_of_lookup held
  rw [← length_keys, ← length_keys, AList.keys_erase, length_erase_of_mem member]
  have some := length_pos_of_mem member
  omega

theorem length_insert_held (held : table.lookup key = some old) :
    (table.insert key value).entries.length = table.entries.length := by
  have member := mem_keys_of_lookup held
  rw [← length_keys, ← length_keys, AList.keys_insert, length_cons,
    length_erase_of_mem member]
  have some := length_pos_of_mem member
  omega

theorem length_insert_absent (absent : table.lookup key = none) :
    (table.insert key value).entries.length = table.entries.length + 1 := by
  rw [AList.entries_insert_of_notMem (AList.lookup_eq_none.mp absent), length_cons]

end Changes

end Assoc
