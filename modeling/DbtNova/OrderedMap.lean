import DbtNova.JsonFields

/-!
# Ordered maps

A map keeps its entries in the order of the keys, each key once. An update changes what is found
under one key, and a map is what its lookups find.
-/
namespace DbtNova
open JsonValue

structure OrderedMap (κ ν : Type*) [LinearOrder κ] where
  entries : List (κ × ν)
  sorted : KeySorted entries

namespace OrderedMap
variable {κ ν : Type*} [LinearOrder κ]

/-- The value of the key is made from the one that is there, if any. -/
def updateEntries (key : κ) (value : Option ν → ν) : List (κ × ν) → List (κ × ν)
  | [] => [(key, value none)]
  | (first, found) :: entries =>
      if key < first then (key, value none) :: (first, found) :: entries
      else if key = first then (first, value (some found)) :: entries
      else (first, found) :: updateEntries key value entries

theorem mem_keys_updateEntries {key other : κ} {value : Option ν → ν} {entries : List (κ × ν)} :
    other ∈ (updateEntries key value entries).map Prod.fst ↔
      other = key ∨ other ∈ entries.map Prod.fst := by
  induction entries with
  | nil => simp [updateEntries]
  | cons entry entries ih =>
      obtain ⟨first, found⟩ := entry
      rw [updateEntries]
      split
      · simp
      · split
        · rename_i heq
          simp [heq]
        · rw [List.map_cons, List.mem_cons, ih, List.map_cons, List.mem_cons, or_left_comm]

theorem sorted_updateEntries {key : κ} {value : Option ν → ν} {entries : List (κ × ν)}
    (h : KeySorted entries) : KeySorted (updateEntries key value entries) := by
  induction entries with
  | nil => exact List.pairwise_singleton _ key
  | cons entry entries ih =>
      obtain ⟨first, found⟩ := entry
      obtain ⟨hfirst, hrest⟩ := List.pairwise_cons.mp h
      unfold KeySorted
      rw [updateEntries]
      split
      · rename_i hlt
        refine List.pairwise_cons.mpr ⟨fun other hother => ?_, h⟩
        rcases List.mem_cons.mp hother with rfl | hmem
        · exact hlt
        · exact hlt.trans (hfirst other hmem)
      · rename_i hle
        split
        · exact h
        · rename_i hne
          refine List.pairwise_cons.mpr ⟨fun other hother => ?_, ih hrest⟩
          rcases mem_keys_updateEntries.mp hother with rfl | hmem
          · exact lt_of_le_of_ne (not_lt.mp hle) (Ne.symm hne)
          · exact hfirst other hmem

def empty : OrderedMap κ ν := ⟨[], List.Pairwise.nil⟩

def find (map : OrderedMap κ ν) (key : κ) : Option ν := map.entries.lookup key

def update (key : κ) (value : Option ν → ν) (map : OrderedMap κ ν) : OrderedMap κ ν :=
  ⟨updateEntries key value map.entries, sorted_updateEntries map.sorted⟩

def keys (map : OrderedMap κ ν) : List κ := map.entries.map Prod.fst

variable {map other : OrderedMap κ ν} {key : κ} {value : Option ν → ν}

@[simp] theorem find_empty (key : κ) : (empty : OrderedMap κ ν).find key = none := rfl

theorem lookup_eq_none_of_lt {entries : List (κ × ν)}
    (h : ∀ first ∈ entries.map Prod.fst, key < first) : entries.lookup key = none := by
  rw [List.lookup_eq_none_iff]
  intro entry hentry
  rw [bne_iff_ne]
  exact (h entry.1 (List.mem_map_of_mem hentry)).ne

theorem find_update_same : (map.update key value).find key = some (value (map.find key)) := by
  obtain ⟨entries, hsorted⟩ := map
  change (updateEntries key value entries).lookup key = some (value (entries.lookup key))
  induction entries with
  | nil => simp [updateEntries]
  | cons entry entries ih =>
      obtain ⟨first, found⟩ := entry
      obtain ⟨hfirst, hrest⟩ := List.pairwise_cons.mp hsorted
      rw [updateEntries]
      split
      · rename_i hlt
        have hnone : ((first, found) :: entries).lookup key = none := by
          refine lookup_eq_none_of_lt fun other hother => ?_
          rcases List.mem_cons.mp hother with rfl | hmem
          · exact hlt
          · exact hlt.trans (hfirst other hmem)
        rw [hnone, List.lookup_cons_self]
      · split
        · rename_i heq
          rw [heq, List.lookup_cons_self, List.lookup_cons_self]
        · rename_i hne
          rw [List.lookup_cons, List.lookup_cons, beq_eq_false_iff_ne.mpr hne]
          exact ih hrest

theorem find_update_ne {found : κ} (h : found ≠ key) :
    (map.update key value).find found = map.find found := by
  obtain ⟨entries, hsorted⟩ := map
  change (updateEntries key value entries).lookup found = entries.lookup found
  clear hsorted
  induction entries with
  | nil =>
      rw [updateEntries, List.lookup_cons, beq_eq_false_iff_ne.mpr h]
  | cons entry entries ih =>
      obtain ⟨first, kept⟩ := entry
      rw [updateEntries]
      split
      · rw [List.lookup_cons, beq_eq_false_iff_ne.mpr h]
      · split
        · rename_i heq
          rw [List.lookup_cons, List.lookup_cons, beq_eq_false_iff_ne.mpr (heq ▸ h)]
        · rw [List.lookup_cons, List.lookup_cons, ih]

theorem find_update (found : κ) : (map.update key value).find found =
    if found = key then some (value (map.find key)) else map.find found := by
  split
  · rename_i heq
    rw [heq, find_update_same]
  · rename_i hne
    exact find_update_ne hne

/-- A map is what its lookups find. -/
theorem eq_of_find (h : ∀ key, map.find key = other.find key) : map = other := by
  obtain ⟨entries, hsorted⟩ := map
  obtain ⟨others, hothers⟩ := other
  have hentries : entries = others := hsorted.eq_of_lookup hothers h
  subst hentries
  rfl

theorem mem_keys : key ∈ map.keys ↔ (map.find key).isSome = true := by
  constructor
  · intro hmem
    obtain ⟨entry, hentry, rfl⟩ := List.mem_map.mp hmem
    rw [find, map.sorted.lookup_of_mem hentry]
    rfl
  · intro hsome
    obtain ⟨value, hvalue⟩ := Option.isSome_iff_exists.mp hsome
    exact List.mem_map.mpr ⟨(key, value), (map.sorted.mem_iff (key, value)).mpr hvalue, rfl⟩

end OrderedMap

end DbtNova
