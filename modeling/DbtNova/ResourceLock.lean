import Mathlib.Data.List.Basic
import Mathlib.Tactic.Common

/-!
# A resource under a lock with shared and exclusive holders

Each party of a system is at a point of its own program, and the point says whether the party
holds the lock, shared or exclusive. The resource satisfies its invariant whenever no party holds
the lock exclusively. An exclusive holder may break the invariant as long as what it knows of the
resource lets it restore the invariant before it lets the lock go. What a shared holder knows
stays true while it holds the lock.
-/
namespace DbtNova.ResourceLock

inductive Mode where
  | free
  | shared
  | exclusive
  deriving DecidableEq, Repr

variable {φ σ : Type*} (mode : φ → Mode)

/-- Beside an exclusive holder nobody holds the lock. -/
def Exclusion (parties : List φ) : Prop :=
  ∀ (i j : ℕ) (p q : φ), i ≠ j → parties[i]? = some p → parties[j]? = some q → mode p = .exclusive →
    mode q = .free

/-- The resource as its holders see it: `idle` is the invariant of the resource, `view` what a
holder knows. -/
structure Consistent (idle : σ → Prop) (view : σ → φ → Prop) (resource : σ) (parties : List φ) :
    Prop where
  exclusion : Exclusion mode parties
  idle_of : (∀ p ∈ parties, mode p ≠ .exclusive) → idle resource
  view_of : ∀ p ∈ parties, mode p ≠ .free → view resource p

section Set
variable {mode} {parties : List φ} {i j : ℕ} {p q p' : φ}

theorem getElem?_set_cases (hi : parties[i]? = some p) (hj : (parties.set i p')[j]? = some q) :
    (j = i ∧ q = p') ∨ (j ≠ i ∧ parties[j]? = some q) := by
  have hlt : i < parties.length := (List.getElem?_eq_some_iff.mp hi).1
  by_cases hij : j = i
  · subst hij
    rw [List.getElem?_set_self hlt] at hj
    exact Or.inl ⟨rfl, (Option.some.inj hj).symm⟩
  · rw [List.getElem?_set_ne (Ne.symm hij)] at hj
    exact Or.inr ⟨hij, hj⟩

/-- A party may take the lock when the others let it. -/
theorem Exclusion.set (h : Exclusion mode parties) (hi : parties[i]? = some p)
    (hexclusive : mode p' = .exclusive → ∀ (j : ℕ) q, j ≠ i → parties[j]? = some q → mode q = .free)
    (hshared : mode p' = .shared → ∀ (j : ℕ) q, j ≠ i → parties[j]? = some q → mode q ≠ .exclusive) :
    Exclusion mode (parties.set i p') := by
  intro j k q r hjk hj hk hmode
  rcases getElem?_set_cases hi hj with ⟨rfl, rfl⟩ | ⟨hji, hj'⟩
  · rcases getElem?_set_cases hi hk with ⟨rfl, -⟩ | ⟨hki, hk'⟩
    · exact absurd rfl hjk
    · exact hexclusive hmode k r hki hk'
  · rcases getElem?_set_cases hi hk with ⟨rfl, rfl⟩ | ⟨hki, hk'⟩
    · cases hfree : mode r with
      | free => rfl
      | shared => exact absurd hmode (hshared hfree j q hji hj')
      | exclusive =>
          rw [hexclusive hfree j q hji hj'] at hmode
          cases hmode
    · exact h j k q r hjk hj' hk' hmode

theorem Exclusion.others_free (h : Exclusion mode parties) (hi : parties[i]? = some p)
    (hmode : mode p = .exclusive) (hji : j ≠ i) (hj : parties[j]? = some q) : mode q = .free :=
  h i j p q (Ne.symm hji) hi hj hmode

theorem Exclusion.tail (h : Exclusion mode (p :: parties)) : Exclusion mode parties :=
  fun i j q r hij hi hj hmode => h (i + 1) (j + 1) q r (by omega) hi hj hmode

/-- What only exclusive holders have, only one of the parties has. -/
theorem Exclusion.filterMap_eq {β : Type*} {g : φ → Option β} (h : Exclusion mode parties)
    (hp : p ∈ parties) (hmode : mode p = .exclusive) (hg : ∀ q, mode q = .free → g q = none) :
    parties.filterMap g = (g p).toList := by
  induction parties with
  | nil => cases hp
  | cons q parties ih =>
      rcases List.mem_cons.mp hp with rfl | hrest
      · have hothers : parties.filterMap g = [] := by
          rw [List.filterMap_eq_nil_iff]
          intro r hr
          obtain ⟨j, hj⟩ := List.mem_iff_getElem?.mp hr
          exact hg r (h 0 (j + 1) p r (by omega) rfl hj hmode)
        cases hcase : g p with
        | none => rw [List.filterMap_cons_none hcase, hothers, Option.toList_none]
        | some b => rw [List.filterMap_cons_some hcase, hothers, Option.toList_some]
      · obtain ⟨j, hj⟩ := List.mem_iff_getElem?.mp hrest
        rw [List.filterMap_cons_none (hg q (h (j + 1) 0 p q (by omega) hj rfl hmode))]
        exact ih h.tail hrest

end Set

section Rules
variable {mode} {idle : σ → Prop} {view : σ → φ → Prop} {resource resource' : σ}
  {parties : List φ} {i : ℕ} {p p' : φ}

theorem Consistent.view_at (h : Consistent mode idle view resource parties)
    (hi : parties[i]? = some p) (hmode : mode p ≠ .free) : view resource p :=
  h.view_of p (List.mem_of_getElem? hi) hmode

theorem Consistent.not_exclusive {q : φ} (h : Consistent mode idle view resource parties)
    (hi : parties[i]? = some p) (hmode : mode p = .shared) (hq : q ∈ parties) :
    mode q ≠ .exclusive := by
  intro hexclusive
  obtain ⟨j, hj⟩ := List.mem_iff_getElem?.mp hq
  by_cases hji : j = i
  · subst hji
    rw [hi] at hj
    rw [← Option.some.inj hj, hmode] at hexclusive
    cases hexclusive
  · have hfree := h.exclusion j i q p hji hj hi hexclusive
    rw [hmode] at hfree
    cases hfree

/-- The exclusive holder works on, or restores the invariant and lets go. -/
theorem Consistent.exclusive_step (h : Consistent mode idle view resource parties)
    (hi : parties[i]? = some p) (hmode : mode p = .exclusive) (hmode' : mode p' ≠ .shared)
    (hheld : mode p' = .exclusive → view resource' p')
    (hfreed : mode p' = .free → idle resource') :
    Consistent mode idle view resource' (parties.set i p') where
  exclusion :=
    h.exclusion.set hi (fun _ j q hji hj => h.exclusion.others_free hi hmode hji hj)
      (fun hshared => absurd hshared hmode')
  idle_of hnone := by
    have hlt : i < parties.length := (List.getElem?_eq_some_iff.mp hi).1
    have hp' := hnone p' (List.mem_set hlt p')
    cases hcase : mode p' with
    | free => exact hfreed hcase
    | shared => exact absurd hcase hmode'
    | exclusive => exact absurd hcase hp'
  view_of q hq hne := by
    obtain ⟨j, hj⟩ := List.mem_iff_getElem?.mp hq
    rcases getElem?_set_cases hi hj with ⟨-, rfl⟩ | ⟨hji, hj'⟩
    · cases hcase : mode q with
      | free => exact absurd hcase hne
      | shared => exact absurd hcase hmode'
      | exclusive => exact hheld hcase
    · exact absurd (h.exclusion.others_free hi hmode hji hj') hne

/-- A party takes the lock for itself when nobody holds it. -/
theorem Consistent.acquire_exclusive (h : Consistent mode idle view resource parties)
    (hi : parties[i]? = some p) (hfree : ∀ q ∈ parties, mode q = .free)
    (hview : idle resource → mode p' ≠ .free → view resource p') :
    Consistent mode idle view resource (parties.set i p') where
  exclusion := by
    refine h.exclusion.set hi ?_ ?_
    · intro _ j q _ hj
      exact hfree q (List.mem_of_getElem? hj)
    · intro _ j q _ hj hexclusive
      rw [hfree q (List.mem_of_getElem? hj)] at hexclusive
      cases hexclusive
  idle_of _ := by
    refine h.idle_of ?_
    intro q hq hexclusive
    rw [hfree q hq] at hexclusive
    cases hexclusive
  view_of q hq hne := by
    obtain ⟨j, hj⟩ := List.mem_iff_getElem?.mp hq
    rcases getElem?_set_cases hi hj with ⟨-, rfl⟩ | ⟨-, hj'⟩
    · refine hview (h.idle_of ?_) hne
      intro r hr hexclusive
      rw [hfree r hr] at hexclusive
      cases hexclusive
    · exact absurd (hfree q (List.mem_of_getElem? hj')) hne

/-- Any other move leaves the resource as its holders see it. A party that reads holds the
lock shared, from before or because nobody holds it exclusively. -/
theorem Consistent.other_step (h : Consistent mode idle view resource parties)
    (hi : parties[i]? = some p) (hmode : mode p ≠ .exclusive) (hmode' : mode p' ≠ .exclusive)
    (hidle : idle resource → idle resource') (hframe : ∀ q, view resource q → view resource' q)
    (hshared : mode p' = .shared →
      mode p = .shared ∨ ∀ q ∈ parties, mode q ≠ .exclusive)
    (hview : mode p' = .shared → idle resource → (mode p = .shared → view resource p) →
      view resource' p') :
    Consistent mode idle view resource' (parties.set i p') where
  exclusion := by
    refine h.exclusion.set hi (fun hexclusive => absurd hexclusive hmode') ?_
    intro hcase j q hji hj hexclusive
    rcases hshared hcase with hheld | hnone
    · exact h.not_exclusive hi hheld (List.mem_of_getElem? hj) hexclusive
    · exact hnone q (List.mem_of_getElem? hj) hexclusive
  idle_of hnone := by
    refine hidle (h.idle_of ?_)
    intro q hq hexclusive
    obtain ⟨j, hj⟩ := List.mem_iff_getElem?.mp hq
    by_cases hji : j = i
    · subst hji
      rw [hi] at hj
      exact hmode (Option.some.inj hj ▸ hexclusive)
    · refine hnone q (List.mem_iff_getElem?.mpr ⟨j, ?_⟩) hexclusive
      rw [List.getElem?_set_ne (Ne.symm hji), hj]
  view_of q hq hne := by
    obtain ⟨j, hj⟩ := List.mem_iff_getElem?.mp hq
    rcases getElem?_set_cases hi hj with ⟨-, rfl⟩ | ⟨-, hj'⟩
    · cases hcase : mode q with
      | free => exact absurd hcase hne
      | shared =>
          refine hview hcase (h.idle_of fun r hr => ?_) fun hp => h.view_at hi (by rw [hp]; decide)
          rcases hshared hcase with hheld | hnone
          · exact h.not_exclusive hi hheld hr
          · exact hnone r hr
      | exclusive => exact absurd hcase hmode'
    · exact hframe q (h.view_of q (List.mem_of_getElem? hj') hne)

end Rules

end DbtNova.ResourceLock
