import Mathlib.Data.Finset.Filter
import Mathlib.Data.Finset.Insert
import Mathlib.Tactic.Common

/-!
# Maps from keys to sets

A map in which every key that occurs has a set, which may be empty. Pairs are
added one by one; a restriction drops the keys, and then the values, that are
not wanted. What a map holds does not depend on the order of the additions.
-/
namespace DbtNova

abbrev KeyedSets (κ ν : Type*) := κ → Option (Finset ν)

namespace KeyedSets

variable {κ ν : Type*} [DecidableEq κ] [DecidableEq ν]

def empty : KeyedSets κ ν := fun _ => none

/-- The set of a key; none for a key that does not occur. -/
def values (m : KeyedSets κ ν) (k : κ) : Finset ν := (m k).getD ∅

def add (m : KeyedSets κ ν) (pair : κ × ν) : KeyedSets κ ν := fun k =>
  if k = pair.1 then some (insert pair.2 (m.values k)) else m k

def addAll (m : KeyedSets κ ν) (pairs : List (κ × ν)) : KeyedSets κ ν :=
  pairs.foldl add m

def restrict (keys : Finset κ) (values : Finset ν) (m : KeyedSets κ ν) :
    KeyedSets κ ν := fun k =>
  if k ∈ keys then (m k).map (Finset.filter (· ∈ values)) else none

omit [DecidableEq κ] [DecidableEq ν] in
/-- Two maps are equal when they have the same keys and the same values. -/
theorem ext {m m' : KeyedSets κ ν} (hkeys : ∀ k, (m k).isSome ↔ (m' k).isSome)
    (hvalues : ∀ k v, v ∈ m.values k ↔ v ∈ m'.values k) : m = m' := by
  funext k
  have hkey := hkeys k
  have hset : m.values k = m'.values k := Finset.ext (hvalues k)
  unfold values at hset
  cases hm : m k with
  | none =>
      rw [hm] at hkey
      cases hm' : m' k with
      | none => rfl
      | some s => simp [hm'] at hkey
  | some s =>
      rw [hm] at hkey hset
      cases hm' : m' k with
      | none => simp [hm'] at hkey
      | some s' =>
          rw [hm'] at hset
          rw [show s = s' from hset]

variable {m : KeyedSets κ ν} {k : κ} {v : ν}

theorem add_isSome (m : KeyedSets κ ν) (pair : κ × ν) (k : κ) :
    (m.add pair k).isSome ↔ (m k).isSome ∨ pair.1 = k := by
  unfold add
  by_cases hk : k = pair.1
  · simp [hk]
  · simp [hk, Ne.symm hk]

theorem mem_add (m : KeyedSets κ ν) (pair : κ × ν) (k : κ) (v : ν) :
    v ∈ (m.add pair).values k ↔ v ∈ m.values k ∨ pair = (k, v) := by
  obtain ⟨key, value⟩ := pair
  unfold add
  by_cases hk : k = key
  · rw [hk]
    simp only [KeyedSets.values, if_true, Option.getD_some, Finset.mem_insert, Prod.mk.injEq,
      true_and]
    constructor
    · rintro (hv | hv)
      · exact .inr hv.symm
      · exact .inl hv
    · rintro (hv | hv)
      · exact .inr hv
      · exact .inl hv.symm
  · simp [KeyedSets.values, hk, Ne.symm hk]

theorem addAll_isSome (m : KeyedSets κ ν) (pairs : List (κ × ν)) (k : κ) :
    (m.addAll pairs k).isSome ↔ (m k).isSome ∨ ∃ v, (k, v) ∈ pairs := by
  unfold addAll
  induction pairs generalizing m with
  | nil => simp
  | cons pair pairs ih =>
      rw [List.foldl_cons, ih, add_isSome, or_assoc]
      apply or_congr_right
      obtain ⟨key, value⟩ := pair
      constructor
      · rintro (rfl | ⟨v, hv⟩)
        · exact ⟨value, List.mem_cons_self⟩
        · exact ⟨v, List.mem_cons_of_mem _ hv⟩
      · rintro ⟨v, hv⟩
        cases List.mem_cons.mp hv with
        | inl heq => exact .inl (Prod.mk.inj heq).1.symm
        | inr hv => exact .inr ⟨v, hv⟩

theorem mem_addAll (m : KeyedSets κ ν) (pairs : List (κ × ν)) (k : κ) (v : ν) :
    v ∈ (m.addAll pairs).values k ↔ v ∈ m.values k ∨ (k, v) ∈ pairs := by
  unfold addAll
  induction pairs generalizing m with
  | nil => simp
  | cons pair pairs ih =>
      rw [List.foldl_cons, ih, mem_add, or_assoc, List.mem_cons, eq_comm]

theorem addAll_append (m : KeyedSets κ ν) (pairs more : List (κ × ν)) :
    m.addAll (pairs ++ more) = (m.addAll pairs).addAll more := List.foldl_append

/-- Only which pairs are added matters. -/
theorem addAll_congr (m : KeyedSets κ ν) {pairs pairs' : List (κ × ν)}
    (h : ∀ pair, pair ∈ pairs ↔ pair ∈ pairs') : m.addAll pairs = m.addAll pairs' := by
  apply KeyedSets.ext
  · intro k
    simp only [addAll_isSome, h]
  · intro k v
    simp only [mem_addAll, h]

/-- Adding changes nothing exactly when every pair is there. -/
theorem addAll_eq_self_iff {pairs : List (κ × ν)} :
    m.addAll pairs = m ↔ ∀ k v, (k, v) ∈ pairs → v ∈ m.values k := by
  constructor
  · intro h k v hpair
    rw [← h, mem_addAll]
    exact .inr hpair
  · intro h
    apply KeyedSets.ext
    · intro k
      rw [addAll_isSome]
      constructor
      · rintro (hk | ⟨v, hv⟩)
        · exact hk
        · have hmem := h k v hv
          unfold values at hmem
          cases hk : m k with
          | none => simp [hk] at hmem
          | some s => rfl
      · exact .inl
    · intro k v
      rw [mem_addAll]
      exact or_iff_left_of_imp (h k v)

section Restrict
variable {keys : Finset κ} {values : Finset ν}

theorem restrict_isSome (m : KeyedSets κ ν) (k : κ) :
    (m.restrict keys values k).isSome ↔ k ∈ keys ∧ (m k).isSome := by
  unfold restrict
  by_cases hk : k ∈ keys
  · simp [hk]
  · simp [hk]

theorem mem_restrict (m : KeyedSets κ ν) (k : κ) (v : ν) :
    v ∈ (m.restrict keys values).values k ↔ k ∈ keys ∧ v ∈ values ∧ v ∈ m.values k := by
  unfold restrict KeyedSets.values
  by_cases hk : k ∈ keys
  · cases hm : m k with
    | none => simp [hk, hm]
    | some s => simp [hk, hm, and_comm]
  · simp [hk]

/-- Every pair whose key is wanted has its key in the map, and its value if wanted. -/
def Covers (keys : Finset κ) (values : Finset ν) (m : KeyedSets κ ν) (pairs : List (κ × ν)) :
    Prop :=
  ∀ k v, (k, v) ∈ pairs → k ∈ keys → (m k).isSome ∧ (v ∈ values → v ∈ m.values k)

omit [DecidableEq κ] [DecidableEq ν] in
theorem Covers.mono {pairs more : List (κ × ν)} (h : Covers keys values m more)
    (hsub : ∀ pair ∈ pairs, pair ∈ more) : Covers keys values m pairs :=
  fun k v hpair => h k v (hsub (k, v) hpair)

/-- Additions are lost on a restriction exactly when it covers them. -/
theorem restrict_addAll_iff {pairs : List (κ × ν)} :
    (m.addAll pairs).restrict keys values = m.restrict keys values ↔
      Covers keys values m pairs := by
  constructor
  · intro h k v hpair hk
    constructor
    · have hsome : ((m.addAll pairs).restrict keys values k).isSome :=
        (restrict_isSome _ k).mpr ⟨hk, (addAll_isSome m pairs k).mpr (.inr ⟨v, hpair⟩)⟩
      rw [h] at hsome
      exact ((restrict_isSome m k).mp hsome).2
    · intro hv
      have hmem : v ∈ ((m.addAll pairs).restrict keys values).values k :=
        (mem_restrict _ k v).mpr ⟨hk, hv, (mem_addAll m pairs k v).mpr (.inr hpair)⟩
      rw [h] at hmem
      exact ((mem_restrict m k v).mp hmem).2.2
  · intro h
    apply KeyedSets.ext
    · intro k
      rw [restrict_isSome, restrict_isSome, addAll_isSome]
      constructor
      · rintro ⟨hk, hkey | ⟨v, hpair⟩⟩
        · exact ⟨hk, hkey⟩
        · exact ⟨hk, (h k v hpair hk).1⟩
      · rintro ⟨hk, hkey⟩
        exact ⟨hk, .inl hkey⟩
    · intro k v
      rw [mem_restrict, mem_restrict, mem_addAll]
      constructor
      · rintro ⟨hk, hv, hmem | hpair⟩
        · exact ⟨hk, hv, hmem⟩
        · exact ⟨hk, hv, (h k v hpair hk).2 hv⟩
      · rintro ⟨hk, hv, hmem⟩
        exact ⟨hk, hv, .inl hmem⟩

end Restrict
end KeyedSets
end DbtNova
