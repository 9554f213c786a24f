import Mathlib.Data.List.Sort
import Mathlib.Tactic.Common

/-!
# Pages of lists that are sorted anew for each page

Each page is a part of a list that is collected and sorted for it. `A` is what was
collected for a page and `B` for a later one. If `B` brings nothing new, the later page
goes on behind the earlier one, whatever the order. If it does, some order makes the two
pages overlap, or puts a later element before an earlier one.
-/
namespace Paging

variable {ι : Type*} (r : ι → ι → Prop) [DecidableRel r]

/-- Elements of the list that come together are the same. -/
def Separates (A : List ι) : Prop := ∀ a ∈ A, ∀ b ∈ A, r a b → r b a → a = b

/-- A slice by two ends that are cut off at a total, when no more elements are there. -/
theorem slice_eq {l : List ι} {total start limit : ℕ} (h : l.length ≤ total) :
    (l.drop (min start total)).take (min (min start total + limit) total - min start total) =
      (l.drop start).take limit := by
  by_cases hstart : start ≤ total
  · rw [Nat.min_eq_left hstart]
    by_cases hstop : start + limit ≤ total
    · rw [Nat.min_eq_left hstop, Nat.add_sub_cancel_left]
    · have hlength : (l.drop start).length ≤ total - start := by
        rw [List.length_drop]
        omega
      have htotal : min (start + limit) total = total := by omega
      rw [htotal, List.take_of_length_le hlength, List.take_of_length_le (by omega)]
  · have htotal : min start total = total := by omega
    have hlength : l.length ≤ start := by omega
    rw [htotal, List.drop_of_length_le h, List.drop_of_length_le hlength, List.take_nil,
      List.take_nil]

theorem stop_lt {total start limit : ℕ} :
    min (min start total + limit) total < total ↔ start + limit < total := by
  omega

section Sorted
variable {r} [Std.Total r] [IsTrans ι r] {A B : List ι} {a b : ι} {p q m : ℕ}

theorem sorted_of_lt (ha : (A.insertionSort r)[p]? = some a)
    (hb : b ∈ (A.insertionSort r).drop (p + 1)) : r a b := by
  obtain ⟨hp, hget⟩ := List.getElem?_eq_some_iff.mp ha
  have hsorted := List.pairwise_insertionSort r A
  rw [← List.take_append_drop (p + 1) (A.insertionSort r), List.pairwise_append] at hsorted
  apply hsorted.2.2 a _ b hb
  rw [← hget]
  exact List.mem_take_iff_getElem.mpr ⟨p, by omega, rfl⟩

theorem sorted_of_le (hb : (B.insertionSort r)[q]? = some b)
    (ha : a ∈ (B.insertionSort r).take (q + 1)) : r a b := by
  obtain ⟨hq, hget⟩ := List.getElem?_eq_some_iff.mp hb
  obtain ⟨i, hi, hai⟩ := List.mem_take_iff_getElem.mp ha
  rw [← hai, ← hget]
  have hle : i ≤ q := by omega
  cases Nat.lt_or_eq_of_le hle with
  | inl hlt =>
      exact List.pairwise_iff_getElem.mp (List.pairwise_insertionSort r B) i q (by omega) hq hlt
  | inr heq =>
      subst heq
      cases Std.Total.total (r := r) (B.insertionSort r)[i] (B.insertionSort r)[i] with
      | inl hrefl => exact hrefl
      | inr hrefl => exact hrefl

/-- Without newcomers a later place belongs to a later element. -/
theorem not_before (hB : B.Nodup) (hA : Separates r A) (hsub : B ⊆ A) (hp : p < m) (hq : m ≤ q)
    (ha : (A.insertionSort r)[p]? = some a) (hb : (B.insertionSort r)[q]? = some b) : ¬ r b a := by
  intro hba
  have hmem : a ∈ (A.insertionSort r).take (p + 1) := by
    obtain ⟨hlt, hget⟩ := List.getElem?_eq_some_iff.mp ha
    exact List.mem_take_iff_getElem.mpr ⟨p, by omega, hget⟩
  have hsubset : (B.insertionSort r).take (q + 1) ⊆ (A.insertionSort r).take (p + 1) := by
    intro c hc
    have hcA : c ∈ A.insertionSort r := by
      apply (List.mem_insertionSort r).mpr
      exact hsub ((List.mem_insertionSort r).mp (List.mem_of_mem_take hc))
    have hca : r c a := IsTrans.trans c b a (sorted_of_le hb hc) hba
    rw [← List.take_append_drop (p + 1) (A.insertionSort r), List.mem_append] at hcA
    cases hcA with
    | inl htake => exact htake
    | inr hdrop =>
        -- a place behind `a` only for `a` itself
        have hac := sorted_of_lt ha hdrop
        have heq := hA c ((List.mem_insertionSort r).mp (List.mem_of_mem_drop hdrop)) a
          ((List.mem_insertionSort r).mp (List.mem_of_mem_take hmem)) hca hac
        rw [heq]
        exact hmem
  have hnodup : ((B.insertionSort r).take (q + 1)).Nodup :=
    ((List.perm_insertionSort r B).nodup_iff.mpr hB).take
  have hlength := (List.subperm_of_subset hnodup hsubset).length_le
  obtain ⟨hq', -⟩ := List.getElem?_eq_some_iff.mp hb
  rw [List.length_take, List.length_take] at hlength
  omega

end Sorted

section Newcomers
variable {r} [Std.Total r] [IsTrans ι r] {l l₁ l₂ : List ι}

/-- A list sorts by its parts if one of them comes first. -/
theorem insertionSort_of_parts (hperm : l.Perm (l₁ ++ l₂)) (hl : Separates r l)
    (hlt : ∀ a ∈ l₁, ∀ b ∈ l₂, r a b) :
    l.insertionSort r = l₁.insertionSort r ++ l₂.insertionSort r := by
  have hsorted : (l.insertionSort r).Perm (l₁.insertionSort r ++ l₂.insertionSort r) :=
    ((List.perm_insertionSort r l).trans hperm).trans
      ((List.perm_insertionSort r l₁).symm.append (List.perm_insertionSort r l₂).symm)
  apply hsorted.eq_of_pairwise
  · intro a b ha hb hab hba
    have hbl : b ∈ l.insertionSort r := hsorted.mem_iff.mpr hb
    exact hl a ((List.mem_insertionSort r).mp ha) b ((List.mem_insertionSort r).mp hbl) hab hba
  · exact List.pairwise_insertionSort r l
  · rw [List.pairwise_append]
    refine ⟨List.pairwise_insertionSort r l₁, List.pairwise_insertionSort r l₂, ?_⟩
    intro a ha b hb
    exact hlt a ((List.mem_insertionSort r).mp ha) b ((List.mem_insertionSort r).mp hb)

end Newcomers

section Parts
variable {r} [Std.Total r] [IsTrans ι r] {A B C O N : List ι} {x : ι} {m : ℕ}

/-- A newcomer in front pushes the last element of the earlier page to the later one. -/
theorem pushed (hA : A.Perm (C ++ O)) (hB : B.Perm (x :: (C ++ N))) (hsepA : Separates r A)
    (hsepB : Separates r B) (hm : 0 < m) (hC : m ≤ C.length) (hx : ∀ c ∈ C ++ N, r x c)
    (hO : ∀ a ∈ C, ∀ b ∈ O, r a b) (hN : ∀ a ∈ C, ∀ b ∈ N, r a b) :
    ∃ y, (A.insertionSort r)[m - 1]? = some y ∧ (B.insertionSort r)[m]? = some y := by
  have hsepCN : Separates r (C ++ N) := fun a ha b hb =>
    hsepB a (hB.mem_iff.mpr (List.mem_cons_of_mem x ha)) b
      (hB.mem_iff.mpr (List.mem_cons_of_mem x hb))
  have hparts : B.Perm ([x] ++ (C ++ N)) := hB
  have hfront : ∀ a ∈ [x], ∀ b ∈ C ++ N, r a b := by
    intro a ha b hb
    rw [List.mem_singleton.mp ha]
    exact hx b hb
  have hsortA := insertionSort_of_parts hA hsepA hO
  have hsortB := insertionSort_of_parts hparts hsepB hfront
  have hsortCN := insertionSort_of_parts (List.Perm.refl (C ++ N)) hsepCN hN
  have hlength : m - 1 < (C.insertionSort r).length := by
    rw [List.length_insertionSort]
    omega
  refine ⟨(C.insertionSort r)[m - 1], ?_, ?_⟩
  · rw [hsortA, List.getElem?_append_left hlength]
    exact List.getElem?_eq_getElem hlength
  · have hsucc : m = (m - 1) + 1 := by omega
    rw [hsortB, hsortCN, List.insertionSort_cons, List.insertionSort_nil, List.orderedInsert_nil,
      List.singleton_append]
    conv_lhs => rw [hsucc]
    rw [List.getElem?_cons_succ, List.getElem?_append_left hlength]
    exact List.getElem?_eq_getElem hlength

/-- Where the two lists have too little in common, each page reaches what is its own. -/
theorem overtaken (hA : A.Perm (C ++ O)) (hB : B.Perm (C ++ N)) (hsepA : Separates r A)
    (hsepB : Separates r B) (hC : C.length < m) (hAm : m ≤ A.length) (hBm : m < B.length)
    (hO : ∀ a ∈ C, ∀ b ∈ O, r a b) (hN : ∀ a ∈ C, ∀ b ∈ N, r a b) :
    ∃ a ∈ O, ∃ b ∈ N, (A.insertionSort r)[m - 1]? = some a ∧ (B.insertionSort r)[m]? = some b := by
  have hsort : ∀ (k : ℕ) {l part : List ι}, l.Perm (C ++ part) → Separates r l →
      (∀ a ∈ C, ∀ b ∈ part, r a b) → C.length ≤ k → k < l.length →
      ∃ a ∈ part, (l.insertionSort r)[k]? = some a := by
    intro k l part hl hsep hfront hk hkl
    have hlength : k - (C.insertionSort r).length < (part.insertionSort r).length := by
      have htotal := hl.length_eq
      rw [List.length_append] at htotal
      rw [List.length_insertionSort, List.length_insertionSort]
      omega
    refine ⟨(part.insertionSort r)[k - (C.insertionSort r).length], ?_, ?_⟩
    · exact (List.mem_insertionSort r).mp (List.getElem_mem hlength)
    · rw [insertionSort_of_parts hl hsep hfront,
        List.getElem?_append_right (by rw [List.length_insertionSort]; exact hk)]
      exact List.getElem?_eq_getElem hlength
  obtain ⟨a, haO, ha⟩ := hsort (m - 1) hA hsepA hO (by omega) (by omega)
  obtain ⟨b, hbN, hb⟩ := hsort m hB hsepB hN (by omega) hBm
  exact ⟨a, haO, b, hbN, ha, hb⟩

end Parts

/-- Elements of a lower class come first. -/
def Respects (r : ι → ι → Prop) (rank : ι → ℕ) : Prop :=
  ∀ a b, rank a < rank b → r a b ∧ ¬ r b a

/-- The newcomer, then what both lists hold, then the rest. -/
def newcomerFirst [DecidableEq ι] (A B : List ι) (x c : ι) : ℕ :=
  if c = x then 0 else if c ∈ A ∧ c ∈ B then 1 else 2

/-- What both lists hold, then what is not in the first, then the rest. -/
def commonFirst [DecidableEq ι] (A B : List ι) (c : ι) : ℕ :=
  if c ∈ A then (if c ∈ B then 0 else 2) else 1

section Newcomer
variable [DecidableEq ι] {A B : List ι}

theorem perm_common_rest (A B : List ι) :
    A.Perm (A.filter (· ∈ B) ++ A.filter (· ∉ B)) := by
  have hsplit := (List.filter_append_perm (· ∈ B) A).symm
  simpa only [decide_not] using hsplit

theorem perm_common_new (hA : A.Nodup) (hB : B.Nodup) :
    B.Perm (A.filter (· ∈ B) ++ B.filter (· ∉ A)) := by
  have hcommon : (B.filter (· ∈ A)).Perm (A.filter (· ∈ B)) := by
    apply (List.perm_ext_iff_of_nodup (hB.filter _) (hA.filter _)).mpr
    intro c
    simp only [List.mem_filter, decide_eq_true_eq]
    exact And.comm
  exact (perm_common_rest B A).trans (hcommon.append_right _)

theorem mem_common {c : ι} : c ∈ A.filter (· ∈ B) ↔ c ∈ A ∧ c ∈ B := by
  simp only [List.mem_filter, decide_eq_true_eq]

theorem mem_own {c : ι} : c ∈ A.filter (· ∉ B) ↔ c ∈ A ∧ c ∉ B := by
  simp only [List.mem_filter, decide_eq_true_eq]

theorem newcomerFirst_newcomer {x c : ι} (hc : c ≠ x) :
    newcomerFirst A B x x < newcomerFirst A B x c := by
  unfold newcomerFirst
  rw [if_pos rfl, if_neg hc]
  split <;> omega

theorem newcomerFirst_common {x a b : ι} (ha : a ∈ A ∧ a ∈ B) (hax : a ≠ x)
    (hb : ¬ (b ∈ A ∧ b ∈ B)) (hbx : b ≠ x) :
    newcomerFirst A B x a < newcomerFirst A B x b := by
  unfold newcomerFirst
  rw [if_neg hax, if_pos ha, if_neg hbx, if_neg hb]
  omega

theorem commonFirst_common {a b : ι} (ha : a ∈ A ∧ a ∈ B) (hb : ¬ (b ∈ A ∧ b ∈ B)) :
    commonFirst A B a < commonFirst A B b := by
  unfold commonFirst
  rw [if_pos ha.1, if_pos ha.2]
  by_cases hbA : b ∈ A
  · rw [if_pos hbA, if_neg fun hbB => hb ⟨hbA, hbB⟩]
    omega
  · rw [if_neg hbA]
    omega

theorem commonFirst_new {a b : ι} (haA : a ∈ A) (haB : a ∉ B) (hb : b ∉ A) :
    commonFirst A B b < commonFirst A B a := by
  unfold commonFirst
  rw [if_neg hb, if_pos haA, if_neg haB]
  omega

section Ranked
variable {r : ι → ι → Prop} [DecidableRel r] [Std.Total r] [IsTrans ι r] {m : ℕ} {x : ι}
  (hA : A.Nodup) (hB : B.Nodup) (hsepA : Separates r A) (hsepB : Separates r B)
include hA hB hsepA hsepB

/-- A newcomer in front of many common elements pushes the last one over the edge. -/
theorem newcomer_pushes (hrank : Respects r (newcomerFirst A B x)) (hm : 0 < m)
    (hmany : m ≤ (A.filter (· ∈ B)).length) (hxB : x ∈ B) (hxA : x ∉ A) :
    ∃ y, (A.insertionSort r)[m - 1]? = some y ∧ (B.insertionSort r)[m]? = some y := by
  have hxN : x ∈ B.filter (· ∉ A) := mem_own.mpr ⟨hxB, hxA⟩
  have hfront : B.Perm (x :: (A.filter (· ∈ B) ++ (B.filter (· ∉ A)).erase x)) := by
    have herase := List.perm_cons_erase hxN
    exact ((perm_common_new hA hB).trans (herase.append_left _)).trans List.perm_middle
  have hnodupN : (B.filter (· ∉ A)).Nodup := hB.filter _
  apply pushed (perm_common_rest A B) hfront hsepA hsepB hm hmany
  · intro c hc
    have hcx : c ≠ x := by
      intro hcx
      rw [hcx, List.mem_append] at hc
      cases hc with
      | inl hcommonMem => exact hxA (mem_common.mp hcommonMem).1
      | inr herased => exact hnodupN.not_mem_erase herased
    exact (hrank x c (newcomerFirst_newcomer hcx)).1
  · intro a ha b hb
    have haC := mem_common.mp ha
    have hbO := mem_own.mp hb
    have hax : a ≠ x := fun hax => hxA (hax ▸ haC.1)
    have hbx : b ≠ x := fun hbx => hxA (hbx ▸ hbO.1)
    exact (hrank a b (newcomerFirst_common haC hax (fun hboth => hbO.2 hboth.2) hbx)).1
  · intro a ha b hb
    have haC := mem_common.mp ha
    have hbN := mem_own.mp (List.mem_of_mem_erase hb)
    have hax : a ≠ x := fun hax => hxA (hax ▸ haC.1)
    have hbx : b ≠ x := by
      intro hbx
      rw [hbx] at hb
      exact hnodupN.not_mem_erase hb
    exact (hrank a b (newcomerFirst_common haC hax (fun hboth => hbN.2 hboth.1) hbx)).1

/-- With few common elements a new one takes the place of an old one. -/
theorem newcomer_overtakes (hrank : Respects r (commonFirst A B))
    (hfew : (A.filter (· ∈ B)).length < m) (hAm : m ≤ A.length) (hBm : m < B.length) :
    ∃ a b, (A.insertionSort r)[m - 1]? = some a ∧ (B.insertionSort r)[m]? = some b ∧
      r b a ∧ ¬ r a b := by
  have hO : ∀ a ∈ A.filter (· ∈ B), ∀ b ∈ A.filter (· ∉ B), r a b := by
    intro a ha b hb
    have hbO := mem_own.mp hb
    exact (hrank a b (commonFirst_common (mem_common.mp ha) fun hboth => hbO.2 hboth.2)).1
  have hN : ∀ a ∈ A.filter (· ∈ B), ∀ b ∈ B.filter (· ∉ A), r a b := by
    intro a ha b hb
    have hbN := mem_own.mp hb
    exact (hrank a b (commonFirst_common (mem_common.mp ha) fun hboth => hbN.2 hboth.1)).1
  obtain ⟨a, haO, b, hbN, ha, hb⟩ :=
    overtaken (perm_common_rest A B) (perm_common_new hA hB) hsepA hsepB hfew hAm hBm hO hN
  have haO' := mem_own.mp haO
  exact ⟨a, b, ha, hb, hrank b a (commonFirst_new haO'.1 haO'.2 (mem_own.mp hbN).2)⟩

end Ranked

/-- A newcomer can be placed so that the two pages do not fit together. -/
theorem newcomer_breaks {m : ℕ} {x : ι} (hA : A.Nodup)
    (hB : B.Nodup) (hm : 0 < m) (hAm : m ≤ A.length) (hBm : m < B.length) (hxB : x ∈ B)
    (hxA : x ∉ A) :
    ∃ rank : ι → ℕ, ∀ (r : ι → ι → Prop) [DecidableRel r] [Std.Total r] [IsTrans ι r],
      Separates r A → Separates r B → Respects r rank →
      (∃ y, (A.insertionSort r)[m - 1]? = some y ∧ (B.insertionSort r)[m]? = some y) ∨
        ∃ a b, (A.insertionSort r)[m - 1]? = some a ∧ (B.insertionSort r)[m]? = some b ∧
          r b a ∧ ¬ r a b := by
  by_cases hmany : m ≤ (A.filter (· ∈ B)).length
  · refine ⟨newcomerFirst A B x, ?_⟩
    intro r _ _ _ hsepA hsepB hrank
    exact .inl (newcomer_pushes hA hB hsepA hsepB hrank hm hmany hxB hxA)
  · refine ⟨commonFirst A B, ?_⟩
    intro r _ _ _ hsepA hsepB hrank
    exact .inr (newcomer_overtakes hA hB hsepA hsepB hrank (Nat.lt_of_not_le hmany) hAm hBm)

end Newcomer

end Paging
