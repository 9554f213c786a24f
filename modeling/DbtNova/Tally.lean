import Mathlib.Data.List.Count
import Mathlib.Tactic.Common

/-!
# Tallies

Counting with a map that a loop fills: an entry starts at zero and grows by one each time its
key comes.
-/
namespace Tally

variable {α : Type*} [DecidableEq α]

/-- The entry of the key grows by one. -/
def bump : List (α × ℕ) → α → List (α × ℕ)
  | [], a => [(a, 1)]
  | (b, n) :: rest, a => if b = a then (b, n + 1) :: rest else (b, n) :: bump rest a

def tally (keys : List α) : List (α × ℕ) := keys.foldl bump []

/-- What the map says of a key. -/
def count (counts : List (α × ℕ)) (a : α) : ℕ := (counts.lookup a).getD 0

theorem count_cons (b : α) (n : ℕ) (rest : List (α × ℕ)) (a : α) :
    count ((b, n) :: rest) a = if b = a then n else count rest a := by
  unfold count
  rw [List.lookup_cons]
  by_cases h : b = a
  · rw [if_pos h, h, beq_self_eq_true]
    rfl
  · rw [if_neg h, beq_false_of_ne (Ne.symm h)]

theorem count_bump (counts : List (α × ℕ)) (a b : α) :
    count (bump counts a) b = count counts b + if a = b then 1 else 0 := by
  induction counts with
  | nil =>
      unfold bump
      rw [count_cons]
      split <;> rfl
  | cons entry rest ih =>
      obtain ⟨c, n⟩ := entry
      unfold bump
      split
      · rename_i h
        rw [count_cons, count_cons, h]
        split <;> omega
      · rename_i h
        rw [count_cons, count_cons, ih]
        split
        · rename_i hb
          rw [if_neg (fun hab => h (hb.trans hab.symm))]
          omega
        · rfl

theorem count_foldl (counts : List (α × ℕ)) (keys : List α) (a : α) :
    count (keys.foldl bump counts) a = count counts a + keys.count a := by
  induction keys generalizing counts with
  | nil => rfl
  | cons b keys ih =>
      rw [List.foldl_cons, ih, count_bump, List.count_cons]
      by_cases h : b = a
      · rw [h, if_pos rfl, beq_self_eq_true, if_pos rfl]
        omega
      · rw [if_neg h, beq_false_of_ne h, if_neg Bool.false_ne_true]
        omega

/-- The map says how often each key came. -/
theorem count_tally (keys : List α) (a : α) : count (tally keys) a = keys.count a := by
  unfold tally
  rw [count_foldl]
  exact Nat.zero_add _

end Tally
