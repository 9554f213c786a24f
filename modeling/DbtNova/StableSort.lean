import Mathlib.Data.List.Sort
import Mathlib.Tactic.Common

/-!
# Stable sorting by a comparison

A stable sort keeps the order of the elements that compare equal. So two lists are sorted
alike when every class of equal elements comes in the same order in both of them: what lies
between the elements of a class does not matter.
-/
namespace StableSort

section Compare
variable {ι : Type*} (cmp : ι → ι → Ordering)

/-- The order that a comparison makes. -/
def Before (a b : ι) : Prop := (cmp a b).isLE = true

instance : DecidableRel (Before cmp) := fun _ _ => inferInstanceAs (Decidable (_ = true))

instance [Std.OrientedCmp cmp] : Std.Total (Before cmp) where
  total a b := by
    by_cases hle : Before cmp a b
    · exact Or.inl hle
    · apply Or.inr
      unfold Before
      rw [Std.OrientedCmp.lt_of_not_isLE hle]
      rfl

instance [Std.TransCmp cmp] : IsTrans ι (Before cmp) where
  trans _ _ _ hab hbc := Std.TransCmp.isLE_trans hab hbc

def sort (l : List ι) : List ι := l.insertionSort (Before cmp)

/-- The elements that compare equal to `a`, in their order. -/
def ties (a : ι) (l : List ι) : List ι := l.filter fun b => cmp a b == .eq

end Compare

section Elements
variable {ι : Type*} {cmp : ι → ι → Ordering} {a b : ι} {l : List ι}

theorem sort_perm (l : List ι) : (sort cmp l).Perm l := List.perm_insertionSort _ l

theorem mem_ties : b ∈ ties cmp a l ↔ b ∈ l ∧ cmp a b = .eq := by
  unfold ties
  rw [List.mem_filter, beq_iff_eq]

end Elements

section Sorting
variable {ι : Type*} {cmp : ι → ι → Ordering} [Std.TransCmp cmp] {a b : ι} {l l' : List ι}

theorem sort_pairwise (l : List ι) : (sort cmp l).Pairwise (Before cmp) :=
  List.pairwise_insertionSort _ l

theorem eq_of_before (hab : Before cmp a b) (hba : Before cmp b a) : cmp a b = .eq :=
  Std.OrientedCmp.isLE_antisymm hab hba

/-- Sorting does not move the elements of a class against each other. -/
theorem ties_sort (a : ι) (l : List ι) : ties cmp a (sort cmp l) = ties cmp a l := by
  have hclass : (ties cmp a l).Pairwise (Before cmp) := by
    apply List.pairwise_of_forall_mem_list
    intro b hb c hc
    have hba : cmp b a = .eq := Std.OrientedCmp.eq_symm (mem_ties.mp hb).2
    unfold Before
    rw [Std.TransCmp.eq_trans hba (mem_ties.mp hc).2]
    rfl
  have hsub : (ties cmp a l).Sublist (sort cmp l) :=
    List.sublist_insertionSort hclass List.filter_sublist
  have hkept : (ties cmp a l).Sublist (ties cmp a (sort cmp l)) := by
    have hfilter := hsub.filter fun b => cmp a b == .eq
    unfold ties at hfilter ⊢
    rwa [List.filter_filter, funext fun b => Bool.and_self _] at hfilter
  have hlength : (ties cmp a l).length = (ties cmp a (sort cmp l)).length :=
    ((sort_perm l).symm.filter _).length_eq
  exact (hkept.eq_of_length hlength).symm

/-- Sorted lists whose classes agree are equal. -/
theorem eq_of_ties (hl : l.Pairwise (Before cmp)) (hl' : l'.Pairwise (Before cmp))
    (h : ∀ a, ties cmp a l = ties cmp a l') : l = l' := by
  induction l generalizing l' with
  | nil =>
      cases l' with
      | nil => rfl
      | cons b l' =>
          have hb : b ∈ ties cmp b (b :: l') :=
            mem_ties.mpr ⟨List.mem_cons_self, Std.ReflCmp.compare_self⟩
          rw [← h b] at hb
          exact absurd hb List.not_mem_nil
  | cons a l ih =>
      have ha : a ∈ ties cmp a (a :: l) :=
        mem_ties.mpr ⟨List.mem_cons_self, Std.ReflCmp.compare_self⟩
      cases l' with
      | nil =>
          rw [h a] at ha
          exact absurd ha List.not_mem_nil
      | cons b l' =>
          rw [List.pairwise_cons] at hl hl'
          have hb : b ∈ ties cmp b (b :: l') :=
            mem_ties.mpr ⟨List.mem_cons_self, Std.ReflCmp.compare_self⟩
          rw [← h b] at hb
          rw [h a] at ha
          -- both heads are least, so they compare equal and lead the same class
          have hab : Before cmp a b := by
            cases List.mem_cons.mp (mem_ties.mp hb).1 with
            | inl heq =>
                rw [heq]
                exact Std.ReflCmp.isLE_rfl
            | inr hmem => exact hl.1 b hmem
          have hba : Before cmp b a := by
            cases List.mem_cons.mp (mem_ties.mp ha).1 with
            | inl heq =>
                rw [heq]
                exact Std.ReflCmp.isLE_rfl
            | inr hmem => exact hl'.1 a hmem
          have htie := eq_of_before hab hba
          have hheads := h a
          unfold ties at hheads
          rw [List.filter_cons_of_pos (p := fun c => cmp a c == .eq)
            (beq_iff_eq.mpr Std.ReflCmp.compare_self),
            List.filter_cons_of_pos (p := fun c => cmp a c == .eq)
              (beq_iff_eq.mpr htie)] at hheads
          obtain ⟨rfl, -⟩ := List.cons.inj hheads
          have htail : l = l' := by
            apply ih hl.2 hl'.2
            intro c
            have hclass := h c
            unfold ties at hclass ⊢
            by_cases hc : (cmp c a == .eq) = true
            · rw [List.filter_cons_of_pos (p := fun b => cmp c b == .eq) hc,
                List.filter_cons_of_pos (p := fun b => cmp c b == .eq) hc] at hclass
              exact (List.cons.inj hclass).2
            · rw [List.filter_cons_of_neg (p := fun b => cmp c b == .eq) hc,
                List.filter_cons_of_neg (p := fun b => cmp c b == .eq) hc] at hclass
              exact hclass
          rw [htail]

theorem sort_eq_of_ties (h : ∀ a, ties cmp a l = ties cmp a l') : sort cmp l = sort cmp l' := by
  apply eq_of_ties (sort_pairwise l) (sort_pairwise l')
  intro a
  rw [ties_sort, ties_sort, h]

/-- Where no two elements compare equal, the order of the list does not matter. -/
theorem sort_eq_of_perm (hperm : l.Perm l') (hl : ∀ a ∈ l, ∀ b ∈ l, cmp a b = .eq → a = b) :
    sort cmp l = sort cmp l' := by
  have hsorted : (sort cmp l).Perm (sort cmp l') :=
    ((sort_perm l).trans hperm).trans (sort_perm l').symm
  apply hsorted.eq_of_pairwise _ (sort_pairwise l) (sort_pairwise l')
  intro a b ha hb hab hba
  exact hl a ((sort_perm l).mem_iff.mp ha) b
    (hperm.mem_iff.mpr ((sort_perm l').mem_iff.mp hb)) (eq_of_before hab hba)

end Sorting

/-! ## Groups of elements -/

section Groups
variable {ι κ : Type*} {keys keys' : List κ}

theorem flatMap_eq_of_only {f : κ → List ι} (hkeys : keys.Nodup) {k : κ} (hk : k ∈ keys)
    (hothers : ∀ k' ∈ keys, k' ≠ k → f k' = []) : keys.flatMap f = f k := by
  obtain ⟨before, behind, rfl⟩ := List.append_of_mem hk
  obtain ⟨-, hbehind, hdisjoint⟩ := List.nodup_append.mp hkeys
  have hempty : ∀ part : List κ, (∀ k' ∈ part, k' ∈ before ++ k :: behind ∧ k' ≠ k) →
      part.flatMap f = [] := by
    intro part hpart
    rw [List.flatMap_eq_nil_iff]
    intro k' hk'
    exact hothers k' (hpart k' hk').1 (hpart k' hk').2
  rw [List.flatMap_append, List.flatMap_cons, hempty before, hempty behind, List.append_nil,
    List.nil_append]
  · intro k' hk'
    refine ⟨List.mem_append_right _ (List.mem_cons_of_mem k hk'), ?_⟩
    intro heq
    rw [heq] at hk'
    exact (List.nodup_cons.mp hbehind).1 hk'
  · intro k' hk'
    exact ⟨List.mem_append_left _ hk', hdisjoint k' hk' k List.mem_cons_self⟩

/-- At most one key has anything. -/
theorem flatMap_eq_of_perm {f : κ → List ι} (hperm : keys.Perm keys') (hkeys : keys.Nodup)
    (hone : ∀ k ∈ keys, ∀ k' ∈ keys, f k ≠ [] → f k' ≠ [] → k' = k) :
    keys.flatMap f = keys'.flatMap f := by
  by_cases hex : ∃ k ∈ keys, f k ≠ []
  · obtain ⟨k, hk, hne⟩ := hex
    have hothers : ∀ k' ∈ keys, k' ≠ k → f k' = [] := by
      intro k' hk' hother
      by_contra hfull
      exact hother (hone k hk k' hk' hne hfull)
    rw [flatMap_eq_of_only hkeys hk hothers,
      flatMap_eq_of_only (hperm.nodup_iff.mp hkeys) (hperm.mem_iff.mp hk)
        (fun k' hk' => hothers k' (hperm.mem_iff.mpr hk'))]
  · have hempty : ∀ k ∈ keys, f k = [] := by
      intro k hk
      by_contra hne
      exact hex ⟨k, hk, hne⟩
    rw [List.flatMap_eq_nil_iff.mpr hempty,
      List.flatMap_eq_nil_iff.mpr (fun k hk => hempty k (hperm.mem_iff.mpr hk))]

/-- Groups in any order sort alike where elements of two groups never compare equal. -/
theorem sort_flatMap_eq {cmp : ι → ι → Ordering} [Std.TransCmp cmp] {group : κ → List ι}
    (hperm : keys.Perm keys') (hkeys : keys.Nodup)
    (hties : ∀ k ∈ keys, ∀ k' ∈ keys, ∀ a ∈ group k, ∀ b ∈ group k', cmp a b = .eq → k' = k) :
    sort cmp (keys.flatMap group) = sort cmp (keys'.flatMap group) := by
  apply sort_eq_of_ties
  intro a
  have hparts : ∀ keys : List κ,
      ties cmp a (keys.flatMap group) = keys.flatMap fun k => ties cmp a (group k) :=
    fun keys => List.filter_flatMap ..
  rw [hparts, hparts]
  apply flatMap_eq_of_perm hperm hkeys
  intro k hk k' hk' hne hne'
  obtain ⟨b, hb⟩ := List.exists_mem_of_ne_nil _ hne
  obtain ⟨c, hc⟩ := List.exists_mem_of_ne_nil _ hne'
  obtain ⟨hb, hab⟩ := mem_ties.mp hb
  obtain ⟨hc, hac⟩ := mem_ties.mp hc
  exact hties k hk k' hk' b hb c hc (Std.TransCmp.eq_trans (Std.OrientedCmp.eq_symm hab) hac)

end Groups

end StableSort
