import DbtNova.ColumnMatching
import DbtNova.EditDistance
import Mathlib.Algebra.Order.Field.Rat
import Mathlib.Tactic.Linarith

/-!
# The Levenshtein distance of two texts

`levenshtein_distance` and `levenshtein_similarity` of `utils/string.rs`. The loop keeps two rows
of the table and swaps them after each character of the first text, so that a row is written over
the one before the last. An index outside its row or text panics and gives no value.
-/
namespace DbtNova.StringDistance
open EditDistance

structure Rows where
  prevRow : List ℕ
  currRow : List ℕ

def setCell (aChars bChars : List Char) (i : ℕ) (rows : Rows) (j : ℕ) : Option Rows := do
  let x ← aChars[i - 1]?
  let y ← bChars[j - 1]?
  let cost := if x = y then 0 else 1
  let above ← rows.prevRow[j]?
  let left ← rows.currRow[j - 1]?
  let diagonal ← rows.prevRow[j - 1]?
  if j < rows.currRow.length then
    some { rows with
      currRow := rows.currRow.set j (min (min (above + 1) (left + 1)) (diagonal + cost)) }
  else none

/-- The body of the outer loop, with its swap. -/
def setRow (aChars bChars : List Char) (rows : Rows) (i : ℕ) : Option Rows :=
  if 0 < rows.currRow.length then do
    let rows ← (List.range' 1 bChars.length).foldlM (setCell aChars bChars i)
      { rows with currRow := rows.currRow.set 0 i }
    some ⟨rows.currRow, rows.prevRow⟩
  else none

def levenshteinDistance (a b : String) : Option ℕ :=
  let aLen := a.toList.length
  let bLen := b.toList.length
  if aLen = 0 then some bLen
  else if bLen = 0 then some aLen
  else do
    let rows ← (List.range' 1 aLen).foldlM (setRow a.toList b.toList)
      ⟨List.range (bLen + 1), List.replicate (bLen + 1) 0⟩
    rows.prevRow[bLen]?

def levenshteinSimilarity (a b : String) : Option ℚ :=
  let maxLen := max a.toList.length b.toList.length
  if maxLen = 0 then some 1
  else do
    let distance ← levenshteinDistance a b
    some (1 - (distance : ℚ) / (maxLen : ℚ))

/-! ### The table -/

section Table
variable {a b : List Char} {i j : ℕ} {x y : Char}

/-- The distance of the first `i` characters of `a` from the first `j` of `b`. -/
def table (a b : List Char) (i j : ℕ) : ℕ := distance (a.take i).reverse (b.take j).reverse

theorem table_zero_left (hj : j ≤ b.length) : table a b 0 j = j := by
  simp [table, hj]

theorem table_zero_right (hi : i ≤ a.length) : table a b i 0 = i := by
  simp [table, hi]

theorem reverse_take_succ (hx : a[i]? = some x) :
    (a.take (i + 1)).reverse = x :: (a.take i).reverse := by
  rw [List.take_add_one, hx, Option.toList_some, List.reverse_append, List.reverse_singleton,
    List.singleton_append]

theorem table_succ (hx : a[i]? = some x) (hy : b[j]? = some y) :
    table a b (i + 1) (j + 1) =
      min (min (table a b i (j + 1) + 1) (table a b (i + 1) j + 1))
        (table a b i j + if x = y then 0 else 1) := by
  simp only [table, reverse_take_succ hx, reverse_take_succ hy]
  exact distance_cons_cons x y _ _

theorem table_length (a b : List Char) : table a b a.length b.length = distance a b := by
  unfold table
  rw [List.take_length, List.take_length, distance_reverse]

end Table

/-! ### The two rows -/

section Loop
variable {a b : List Char} {i j n : ℕ} {prev curr : List ℕ}

/-- The cells of row `i` are known up to column `n`; those behind it may be stale. -/
structure IsRow (a b : List Char) (i n : ℕ) (row : List ℕ) : Prop where
  length_eq : row.length = b.length + 1
  cell : ∀ k ≤ n, row[k]? = some (table a b i k)

theorem isRow_first (a b : List Char) : IsRow a b 0 b.length (List.range (b.length + 1)) := by
  refine ⟨List.length_range, ?_⟩
  intro k hk
  rw [List.getElem?_range (by omega), table_zero_left hk]

/-- The first cell of a row needs nothing of the row before the last. -/
theorem isRow_zero (hcurr : curr.length = b.length + 1) (hi : i ≤ a.length) :
    IsRow a b i 0 (curr.set 0 i) := by
  refine ⟨by rw [List.length_set, hcurr], ?_⟩
  intro k hk
  obtain rfl : k = 0 := by omega
  rw [List.getElem?_set_self (by omega), table_zero_right hi]

theorem IsRow.set (hrow : IsRow a b i n curr) (hn : n + 1 ≤ b.length) :
    IsRow a b i (n + 1) (curr.set (n + 1) (table a b i (n + 1))) := by
  refine ⟨by rw [List.length_set, hrow.length_eq], ?_⟩
  intro k hk
  by_cases hlast : k = n + 1
  · subst hlast
    exact List.getElem?_set_self (by rw [hrow.length_eq]; omega)
  · rw [List.getElem?_set_ne (by omega)]
    exact hrow.cell k (by omega)

theorem setCell_eq (hi : i < a.length) (hj : j < b.length) (hprev : IsRow a b i b.length prev)
    (hcurr : IsRow a b (i + 1) j curr) :
    setCell a b (i + 1) ⟨prev, curr⟩ (j + 1) =
      some ⟨prev, curr.set (j + 1) (table a b (i + 1) (j + 1))⟩ := by
  have hx := List.getElem?_eq_getElem hi
  have hy := List.getElem?_eq_getElem hj
  have habove := hprev.cell (j + 1) hj
  have hdiagonal := hprev.cell j hj.le
  have hleft := hcurr.cell j le_rfl
  have hlength : j + 1 < curr.length := by
    rw [hcurr.length_eq]
    omega
  rw [table_succ hx hy]
  simp only [setCell, Nat.add_sub_cancel, hx, hy, habove, hdiagonal, hleft, hlength, if_true,
    Option.bind_eq_bind, Option.bind_some]

theorem foldlM_setCell (hi : i < a.length) (hprev : IsRow a b i b.length prev)
    (hcurr : IsRow a b (i + 1) 0 curr) (hn : n ≤ b.length) :
    ∃ row, (List.range' 1 n).foldlM (setCell a b (i + 1)) ⟨prev, curr⟩ = some ⟨prev, row⟩ ∧
      IsRow a b (i + 1) n row := by
  induction n with
  | zero => exact ⟨curr, rfl, hcurr⟩
  | succ n ih =>
      obtain ⟨row, hfold, hrow⟩ := ih (by omega)
      refine ⟨_, ?_, hrow.set hn⟩
      rw [List.range'_1_concat, List.foldlM_append, hfold, Nat.add_comm 1 n]
      simp only [Option.bind_eq_bind, Option.bind_some, List.foldlM_cons, List.foldlM_nil]
      rw [setCell_eq hi hn hprev hrow]
      rfl

theorem setRow_eq (hi : i < a.length) (hprev : IsRow a b i b.length prev)
    (hcurr : curr.length = b.length + 1) :
    ∃ row, setRow a b ⟨prev, curr⟩ (i + 1) = some ⟨row, prev⟩ ∧
      IsRow a b (i + 1) b.length row := by
  obtain ⟨row, hfold, hrow⟩ := foldlM_setCell hi hprev (isRow_zero hcurr hi) le_rfl
  refine ⟨row, ?_, hrow⟩
  have hpos : 0 < curr.length := by omega
  simp only [setRow, hpos, if_true, hfold, Option.bind_eq_bind, Option.bind_some]

theorem foldlM_setRow (hprev : IsRow a b 0 b.length prev) (hcurr : curr.length = b.length + 1)
    (hn : n ≤ a.length) :
    ∃ rows, (List.range' 1 n).foldlM (setRow a b) ⟨prev, curr⟩ = some rows ∧
      IsRow a b n b.length rows.prevRow ∧ rows.currRow.length = b.length + 1 := by
  induction n with
  | zero => exact ⟨⟨prev, curr⟩, rfl, hprev, hcurr⟩
  | succ n ih =>
      obtain ⟨⟨before, stale⟩, hfold, hbefore, hstale⟩ := ih (by omega)
      obtain ⟨row, hset, hrow⟩ := setRow_eq hn hbefore hstale
      refine ⟨⟨row, before⟩, ?_, hrow, hbefore.length_eq⟩
      rw [List.range'_1_concat, List.foldlM_append, hfold, Nat.add_comm 1 n]
      simp only [Option.bind_eq_bind, Option.bind_some, List.foldlM_cons, List.foldlM_nil]
      rw [hset]
      rfl

end Loop

/-- No index is out of bounds, and the last cell is the distance. -/
theorem levenshteinDistance_eq (a b : String) :
    levenshteinDistance a b = some (distance a.toList b.toList) := by
  simp only [levenshteinDistance]
  split
  · next ha => rw [List.length_eq_zero_iff.mp ha, distance_nil_left]
  · split
    · next hb => rw [List.length_eq_zero_iff.mp hb, distance_nil_right]
    · obtain ⟨rows, hfold, hrow, -⟩ := foldlM_setRow (isRow_first a.toList b.toList)
        (List.length_replicate (a := 0)) le_rfl
      simp only [hfold, Option.bind_eq_bind, Option.bind_some]
      rw [hrow.cell _ le_rfl, table_length]

/-! ### The rows of the column matcher -/

section Rows
variable {u v : List Char} {x : Char}

/-- The cells of the row of `u` from the column of `v` on; `bs` is what is left of the text. -/
def rowFrom (u : List Char) : List Char → List Char → List ℕ
  | v, [] => [distance u v]
  | v, b :: bs => distance u v :: rowFrom u (b :: v) bs

theorem rowFrom_nil (bs : List Char) :
    rowFrom [] v bs = List.range' v.length (bs.length + 1) := by
  induction bs generalizing v with
  | nil => simp [rowFrom]
  | cons b bs ih => rw [rowFrom, ih, distance_nil_left, List.range'_succ]; rfl

theorem rowFrom_eq_cons (u v bs : List Char) : ∃ row, rowFrom u v bs = distance u v :: row := by
  cases bs with
  | nil => exact ⟨[], rfl⟩
  | cons b bs => exact ⟨rowFrom u (b :: v) bs, rfl⟩

theorem distanceRow_eq (bs : List Char) :
    distance (x :: u) v ::
        ColumnMatching.distanceRow x bs (rowFrom u v bs) (distance (x :: u) v) =
      rowFrom (x :: u) v bs := by
  induction bs generalizing v with
  | nil => rfl
  | cons b bs ih =>
      have hrest := ih (v := b :: v)
      obtain ⟨row, hrow⟩ := rowFrom_eq_cons u (b :: v) bs
      rw [rowFrom, rowFrom, ← hrest, hrow, ColumnMatching.distanceRow, ← distance_cons_cons]

theorem foldl_distanceRow (as bs : List Char) :
    (as.zipIdx (u.length + 1)).foldl
        (fun previous c => c.2 :: ColumnMatching.distanceRow c.1 bs previous c.2)
        (rowFrom u [] bs) =
      rowFrom (as.reverse ++ u) [] bs := by
  induction as generalizing u with
  | nil => rfl
  | cons a as ih =>
      have hrow := distanceRow_eq (x := a) (u := u) (v := []) bs
      rw [distance_nil_right, List.length_cons] at hrow
      have hrest := ih (u := a :: u)
      rw [List.length_cons] at hrest
      rw [List.zipIdx_cons, List.foldl_cons, hrow, hrest, List.reverse_cons, List.append_assoc,
        List.singleton_append]

theorem getLastD_rowFrom (bs : List Char) (d : ℕ) :
    (rowFrom u v bs).getLastD d = distance u (bs.reverse ++ v) := by
  induction bs generalizing v d with
  | nil => rfl
  | cons b bs ih =>
      rw [rowFrom, List.getLastD_cons, ih, List.reverse_cons, List.append_assoc,
        List.singleton_append]

end Rows

/-- The distance that columns are matched with is the same. -/
theorem columnMatching_levenshteinDistance (a b : List Char) :
    ColumnMatching.levenshteinDistance a b = distance a b := by
  unfold ColumnMatching.levenshteinDistance
  split
  · next ha => rw [List.isEmpty_iff.mp ha, distance_nil_left]
  · split
    · next hb => rw [List.isEmpty_iff.mp hb, distance_nil_right]
    · have hfirst : List.range (b.length + 1) = rowFrom [] [] b := by
        rw [rowFrom_nil, List.range_eq_range']
        rfl
      have hrows := foldl_distanceRow (u := []) a b
      rw [List.length_nil, Nat.zero_add] at hrows
      rw [hfirst, hrows, getLastD_rowFrom, List.append_nil, List.append_nil, distance_reverse]

/-! ### The similarity -/

theorem levenshteinSimilarity_eq (a b : String) :
    levenshteinSimilarity a b =
      some (1 - (distance a.toList b.toList : ℚ) / (max a.toList.length b.toList.length : ℕ)) := by
  simp only [levenshteinSimilarity]
  split
  · next h =>
      rw [h, Nat.cast_zero, div_zero, sub_zero]
  · rw [levenshteinDistance_eq]
    rfl

theorem levenshtein_edit_distance (a b : String) :
    ∃ d, levenshteinDistance a b = some d ∧ IsLeast {n | Edits n a.toList b.toList} d ∧
      levenshteinDistance b a = some d ∧
      ∃ s : ℚ, levenshteinSimilarity a b = some s ∧ levenshteinSimilarity b a = some s ∧
        0 ≤ s ∧ s ≤ 1 ∧ (s = 1 ↔ a = b) := by
  refine ⟨distance a.toList b.toList, levenshteinDistance_eq a b, isLeast_distance _ _, ?_, _,
    levenshteinSimilarity_eq a b, ?_, ?_, ?_, ?_⟩
  · rw [levenshteinDistance_eq, distance_comm]
  · rw [levenshteinSimilarity_eq, distance_comm, max_comm]
  · have hle : (distance a.toList b.toList : ℚ) ≤ (max a.toList.length b.toList.length : ℕ) :=
      Nat.cast_le.mpr (distance_le_length _ _)
    exact sub_nonneg.mpr (div_le_one_of_le₀ hle (Nat.cast_nonneg _))
  · have hpos : (0 : ℚ) ≤ distance a.toList b.toList / (max a.toList.length b.toList.length : ℕ) :=
      div_nonneg (Nat.cast_nonneg _) (Nat.cast_nonneg _)
    linarith
  · rw [sub_eq_self, div_eq_zero_iff, Nat.cast_eq_zero, Nat.cast_eq_zero, distance_eq_zero_iff,
      String.toList_inj]
    constructor
    · rintro (h | h)
      · exact h
      · have ha : a.toList = [] := List.length_eq_zero_iff.mp (by omega)
        have hb : b.toList = [] := List.length_eq_zero_iff.mp (by omega)
        exact String.toList_inj.mp (ha.trans hb.symm)
    · exact Or.inl

end DbtNova.StringDistance
