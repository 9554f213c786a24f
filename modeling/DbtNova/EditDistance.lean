import Mathlib.Order.Bounds.Defs
import Mathlib.Order.MinMax

/-!
# The edit distance

Two lists are one edit apart if one element was inserted, deleted or replaced, at any place. The
least number of edits between two lists obeys the recursion of the dynamic programme on their
heads. The recursion never asks for more than an edit sequence needs, because one edit changes its
value by at most one in front of every other list.
-/
namespace DbtNova.EditDistance

variable {α : Type*} {a b c u v : List α} {x y : α} {m n : ℕ}

inductive Edit : List α → List α → Prop
  | insertion (u v : List α) (x : α) : Edit (u ++ v) (u ++ x :: v)
  | deletion (u v : List α) (x : α) : Edit (u ++ x :: v) (u ++ v)
  | substitution (u v : List α) (x y : α) : Edit (u ++ x :: v) (u ++ y :: v)

/-- `n` edits in a row. -/
inductive Edits : ℕ → List α → List α → Prop
  | refl (a : List α) : Edits 0 a a
  | step {n : ℕ} {a b c : List α} : Edit a b → Edits n b c → Edits (n + 1) a c

theorem Edit.symm (h : Edit a b) : Edit b a := by
  cases h with
  | insertion u v x => exact .deletion u v x
  | deletion u v x => exact .insertion u v x
  | substitution u v x y => exact .substitution u v y x

theorem Edit.cons (h : Edit a b) (x : α) : Edit (x :: a) (x :: b) := by
  cases h with
  | insertion u v y => exact .insertion (x :: u) v y
  | deletion u v y => exact .deletion (x :: u) v y
  | substitution u v y z => exact .substitution (x :: u) v y z

theorem Edit.reverse (h : Edit a b) : Edit a.reverse b.reverse := by
  cases h with
  | insertion u v x =>
      simpa only [List.reverse_append, List.reverse_cons, List.append_assoc,
        List.singleton_append] using Edit.insertion v.reverse u.reverse x
  | deletion u v x =>
      simpa only [List.reverse_append, List.reverse_cons, List.append_assoc,
        List.singleton_append] using Edit.deletion v.reverse u.reverse x
  | substitution u v x y =>
      simpa only [List.reverse_append, List.reverse_cons, List.append_assoc,
        List.singleton_append] using Edit.substitution v.reverse u.reverse x y

theorem Edits.cons (h : Edits n a b) (x : α) : Edits n (x :: a) (x :: b) := by
  induction h with
  | refl a => exact .refl _
  | step hstep _ ih => exact .step (hstep.cons x) ih

theorem Edits.reverse (h : Edits n a b) : Edits n a.reverse b.reverse := by
  induction h with
  | refl a => exact .refl _
  | step hstep _ ih => exact .step hstep.reverse ih

theorem Edits.deletions (a : List α) : Edits a.length a [] := by
  induction a with
  | nil => exact .refl []
  | cons x a ih => exact .step (.deletion [] a x) ih

theorem Edits.insertions (b : List α) : Edits b.length [] b := by
  induction b with
  | nil => exact .refl []
  | cons x b ih => exact .step (.insertion [] [] x) (ih.cons x)

theorem edits_zero_iff : Edits 0 a b ↔ a = b := by
  constructor
  · intro h
    cases h
    rfl
  · rintro rfl
    exact .refl a

variable [DecidableEq α]

/-- The recursion of the dynamic programme. -/
def distance : List α → List α → ℕ
  | [], b => b.length
  | a, [] => a.length
  | x :: a, y :: b =>
      min (min (distance a (y :: b) + 1) (distance (x :: a) b + 1))
        (distance a b + if x = y then 0 else 1)
termination_by a b => a.length + b.length

@[simp] theorem distance_nil_left (b : List α) : distance [] b = b.length := by
  rw [distance]

@[simp] theorem distance_nil_right (a : List α) : distance a [] = a.length := by
  cases a <;> simp [distance]

theorem distance_cons_cons (x y : α) (a b : List α) :
    distance (x :: a) (y :: b) =
      min (min (distance a (y :: b) + 1) (distance (x :: a) b + 1))
        (distance a b + if x = y then 0 else 1) := by
  rw [distance]

/-! ### The recursion is reached -/

theorem edits_distance (a b : List α) : Edits (distance a b) a b := by
  induction a generalizing b with
  | nil => simpa only [distance_nil_left] using Edits.insertions b
  | cons x a iha =>
      induction b with
      | nil => simpa only [distance_nil_right] using Edits.deletions (x :: a)
      | cons y b ihb =>
          rw [distance_cons_cons]
          rcases min_choice (min (distance a (y :: b) + 1) (distance (x :: a) b + 1))
            (distance a b + if x = y then 0 else 1) with h | h
          · rw [h]
            rcases min_choice (distance a (y :: b) + 1) (distance (x :: a) b + 1) with h | h
            · rw [h]
              exact .step (.deletion [] a x) (iha (y :: b))
            · rw [h]
              exact .step (.insertion [] (x :: a) y) (ihb.cons y)
          · rw [h]
            split
            · next hxy =>
                subst hxy
                exact (iha b).cons x
            · exact .step (.substitution [] a x y) ((iha b).cons y)

/-! ### One edit changes it by at most one -/

theorem distance_cons_le (x : α) (a c : List α) : distance (x :: a) c ≤ distance a c + 1 := by
  cases c with
  | nil => simp
  | cons z c =>
      rw [distance_cons_cons]
      omega

theorem distance_le_cons_right (a : List α) (y : α) (c : List α) :
    distance a (y :: c) ≤ distance a c + 1 := by
  cases a with
  | nil => simp
  | cons x a =>
      rw [distance_cons_cons]
      omega

theorem distance_le_cons (x : α) (a c : List α) : distance a c ≤ distance (x :: a) c + 1 := by
  induction c with
  | nil =>
      simp only [distance_nil_right, List.length_cons]
      omega
  | cons z c ih =>
      have hright := distance_le_cons_right a z c
      rw [distance_cons_cons]
      omega

theorem distance_replace_le (x y : α) (a c : List α) :
    distance (x :: a) c ≤ distance (y :: a) c + 1 := by
  induction c with
  | nil => simp
  | cons z c ih =>
      have hfirst := distance_cons_le x a (z :: c)
      have hright := distance_le_cons_right (x :: a) z c
      have hsame : distance (x :: a) (z :: c) ≤ distance a c + 1 := by
        rw [distance_cons_cons]
        split <;> omega
      rw [distance_cons_cons y]
      omega

theorem distance_append_le (u : List α) (h : ∀ c, distance a c ≤ distance b c + 1) (c : List α) :
    distance (u ++ a) c ≤ distance (u ++ b) c + 1 := by
  induction u generalizing c with
  | nil => exact h c
  | cons x u ih =>
      induction c with
      | nil =>
          have hempty := h []
          simp only [distance_nil_right] at hempty
          simp only [List.cons_append, distance_nil_right, List.length_cons, List.length_append]
          omega
      | cons y c ihc =>
          have hrest := ih c
          have hall := ih (y :: c)
          simp only [List.cons_append] at ihc ⊢
          rw [distance_cons_cons, distance_cons_cons]
          omega

theorem distance_le_of_edit (h : Edit a b) (c : List α) : distance a c ≤ distance b c + 1 := by
  cases h with
  | insertion u v x => exact distance_append_le u (distance_le_cons x v) c
  | deletion u v x => exact distance_append_le u (distance_cons_le x v) c
  | substitution u v x y => exact distance_append_le u (distance_replace_le x y v) c

theorem distance_self (a : List α) : distance a a = 0 := by
  induction a with
  | nil => simp
  | cons x a ih =>
      rw [distance_cons_cons, ih, if_pos rfl]
      omega

theorem distance_le_of_edits (h : Edits n a b) : distance a b ≤ n := by
  induction h with
  | refl a => rw [distance_self]
  | step hstep _ ih => exact (distance_le_of_edit hstep _).trans (by omega)

/-- The recursion is the least number of edits. -/
theorem isLeast_distance (a b : List α) : IsLeast {n | Edits n a b} (distance a b) :=
  ⟨edits_distance a b, fun _ h => distance_le_of_edits h⟩

/-! ### Reversal, symmetry and bounds -/

theorem distance_reverse (a b : List α) : distance a.reverse b.reverse = distance a b := by
  apply le_antisymm
  · exact distance_le_of_edits (edits_distance a b).reverse
  · have h := (edits_distance a.reverse b.reverse).reverse
    simp only [List.reverse_reverse] at h
    exact distance_le_of_edits h

theorem distance_comm (a b : List α) : distance a b = distance b a := by
  induction a generalizing b with
  | nil => simp
  | cons x a iha =>
      induction b with
      | nil => simp
      | cons y b ihb =>
          have hcost : (if x = y then 0 else 1) = if y = x then 0 else 1 := by
            simp only [eq_comm]
          rw [distance_cons_cons, distance_cons_cons, iha, iha, ihb, hcost,
            min_comm (distance (y :: b) a + 1)]

theorem distance_eq_zero_iff : distance a b = 0 ↔ a = b := by
  constructor
  · intro h
    have hedits := edits_distance a b
    rw [h] at hedits
    exact edits_zero_iff.mp hedits
  · rintro rfl
    exact distance_self a

theorem distance_le_length (a b : List α) : distance a b ≤ max a.length b.length := by
  induction a generalizing b with
  | nil => simp
  | cons x a iha =>
      cases b with
      | nil => simp
      | cons y b =>
          have hrest := iha b
          rw [distance_cons_cons, List.length_cons, List.length_cons]
          split <;> omega

end DbtNova.EditDistance
