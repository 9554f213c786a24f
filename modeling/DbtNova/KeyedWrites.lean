import Mathlib.Data.List.Basic
import Mathlib.Data.List.Induction

/-!
# Writes under a key

Items are written one after the other into a map, each under a key computed from it, so that a
later item replaces an earlier one of its key. What is found under a key does not depend on the
order of the items exactly when the items of that key have one value.
-/
namespace DbtNova.KeyedWrites

variable {α κ β : Type*} [DecidableEq κ] {key : α → κ} {value : α → β} {k : κ}
  {items first second : List α} {item : α}

/-- The map as the list of its entries, of which the first of a key counts. -/
def writeAll (key : α → κ) (value : α → β) (items : List α) : List (κ × β) :=
  items.foldl (fun map item => (key item, value item) :: map) []

/-- The items of the key have one value. -/
def Agree (key : α → κ) (value : α → β) (k : κ) (items : List α) : Prop :=
  ∀ a ∈ items, ∀ b ∈ items, key a = k → key b = k → value a = value b

omit [DecidableEq κ] in
theorem writeAll_concat (items : List α) (item : α) :
    writeAll key value (items ++ [item]) = (key item, value item) :: writeAll key value items :=
  List.foldl_concat ..

theorem lookup_writeAll_eq_none : (writeAll key value items).lookup k = none ↔
    ∀ item ∈ items, key item ≠ k := by
  induction items using List.reverseRecOn with
  | nil => exact iff_of_true rfl fun _ hitem => absurd hitem List.not_mem_nil
  | append_singleton items item ih =>
      rw [writeAll_concat, List.lookup_cons]
      by_cases hkey : key item = k
      · refine iff_of_false (by simp [hkey]) fun h => ?_
        exact h item (List.mem_append_right _ (List.mem_singleton_self item)) hkey
      · have hne : (k == key item) = false := beq_false_of_ne (Ne.symm hkey)
        simp only [hne, ih, List.mem_append, List.mem_singleton]
        constructor
        · rintro h other (hold | rfl)
          · exact h other hold
          · exact hkey
        · exact fun h other hold => h other (Or.inl hold)

/-- What is found was written. -/
theorem exists_of_lookup_writeAll {v : β} (h : (writeAll key value items).lookup k = some v) :
    ∃ item ∈ items, key item = k ∧ value item = v := by
  induction items using List.reverseRecOn with
  | nil => cases h
  | append_singleton items item ih =>
      rw [writeAll_concat, List.lookup_cons] at h
      split at h
      · rename_i hkey
        exact ⟨item, List.mem_append_right _ (List.mem_singleton_self item),
          (beq_iff_eq.mp hkey).symm, Option.some.inj h⟩
      · obtain ⟨other, hother, hsame⟩ := ih h
        exact ⟨other, List.mem_append_left _ hother, hsame⟩

theorem lookup_writeAll_concat (h : key item = k) :
    (writeAll key value (items ++ [item])).lookup k = some (value item) := by
  rw [writeAll_concat, List.lookup_cons, h, beq_self_eq_true]

theorem Agree.lookup_writeAll (h : Agree key value k items) (hitem : item ∈ items)
    (hkey : key item = k) : (writeAll key value items).lookup k = some (value item) := by
  cases hfound : (writeAll key value items).lookup k with
  | none => exact absurd hkey (lookup_writeAll_eq_none.mp hfound item hitem)
  | some v =>
      obtain ⟨other, hother, hsame, rfl⟩ := exists_of_lookup_writeAll hfound
      exact congrArg some (h other hother item hitem hsame hkey)

omit [DecidableEq κ] in
theorem Agree.perm (h : Agree key value k items) (hperm : first.Perm items) :
    Agree key value k first :=
  fun a ha b hb => h a (hperm.mem_iff.mp ha) b (hperm.mem_iff.mp hb)

theorem lookup_writeAll_none_congr (h : first.Perm second) :
    (writeAll key value first).lookup k = none ↔ (writeAll key value second).lookup k = none := by
  rw [lookup_writeAll_eq_none, lookup_writeAll_eq_none]
  exact forall_congr' fun item => imp_congr_left h.mem_iff

theorem Agree.lookup_eq (h : Agree key value k items) (hfirst : first.Perm items)
    (hsecond : second.Perm items) :
    (writeAll key value first).lookup k = (writeAll key value second).lookup k := by
  cases hfound : (writeAll key value second).lookup k with
  | none => exact (lookup_writeAll_none_congr (hfirst.trans hsecond.symm)).mpr hfound
  | some v =>
      obtain ⟨item, hitem, hkey, rfl⟩ := exists_of_lookup_writeAll hfound
      exact (h.perm hfirst).lookup_writeAll
        (hfirst.mem_iff.mpr (hsecond.mem_iff.mp hitem)) hkey

/-- An order in which a given item is written last. -/
theorem exists_perm_last (hitem : item ∈ items) : ∃ others, (others ++ [item]).Perm items := by
  obtain ⟨before, after, rfl⟩ := List.append_of_mem hitem
  refine ⟨before ++ after, ?_⟩
  rw [List.append_assoc]
  exact (List.perm_append_singleton item after).append_left before

/-- The order of the writes does not matter exactly when the items of the key agree. -/
theorem lookup_writeAll_perm_iff :
    (∀ first second : List α, first.Perm items → second.Perm items →
        (writeAll key value first).lookup k = (writeAll key value second).lookup k) ↔
      Agree key value k items := by
  constructor
  · intro h a ha b hb hkeyA hkeyB
    obtain ⟨others, hothers⟩ := exists_perm_last ha
    obtain ⟨others', hothers'⟩ := exists_perm_last hb
    have hsame := h _ _ hothers hothers'
    rw [lookup_writeAll_concat hkeyA, lookup_writeAll_concat hkeyB] at hsame
    exact Option.some.inj hsame
  · exact fun h first second hfirst hsecond => h.lookup_eq hfirst hsecond

end DbtNova.KeyedWrites
