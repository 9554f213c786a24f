import DbtNova.Error
import DbtNova.Paging

/-!
# Pages of a list

The listing tools answer a request with a slice of a list that they collect in full, behind its
length. An offset beyond the configured maximum is refused.
-/
namespace DbtNova.RowPages

structure SuccessResponse (σ : Type*) where
  data : σ
  count : ℕ
  total : Option ℕ
  truncated : Option Bool

section Model
variable {ρ : Type*}

def offsetExceeded (maxOffset : ℕ) : DbtNovaError :=
  .invalidParams ("Offset exceeds maximum of " ++ toString maxOffset)

/-- The end of each listing tool, behind its rows. -/
def pageRows (limit offset : ℕ) (rows : List ρ) : SuccessResponse (List ρ) :=
  let total := rows.length
  let start := min offset total
  let stop := min (start + limit) total
  let results := (rows.drop start).take (stop - start)
  { data := results
    count := results.length
    total := some total
    truncated := if stop < total then some true else none }

end Model

/-! ## Going through the pages -/

section Pages
variable {ρ σ τ : Type*}

/-- What a request shows; nothing if it is refused. -/
def shownItems (shown : σ → List τ) : Result (SuccessResponse σ) → List τ
  | .error _ => []
  | .ok page => shown page.data

/-- The answers to all offsets are the slices of one list. -/
structure PagesOf (answer : ℕ → Result (SuccessResponse σ)) (shown : σ → List τ)
    (item : ρ → Option τ) (items : List ρ) (maxOffset limit : ℕ) : Prop where
  slice : ∀ offset ≤ maxOffset, ∃ page, answer offset = .ok page ∧
    shown page.data = ((items.drop offset).take limit).filterMap item ∧
      page.total = some items.length ∧
        (page.truncated = some true ↔ offset + limit < items.length)
  refused : ∀ offset, maxOffset < offset → answer offset = .error (offsetExceeded maxOffset)
  /-- The first pages make up the beginning of the list, as far as offsets are accepted. -/
  whole : ∀ n, (List.range n).flatMap (fun k => shownItems shown (answer (k * limit))) =
    (items.take (min n (maxOffset / limit + 1) * limit)).filterMap item

theorem PagesOf.of_slice {answer : ℕ → Result (SuccessResponse σ)} {shown : σ → List τ}
    {item : ρ → Option τ} {items : List ρ} {maxOffset limit : ℕ} (hlimit : 0 < limit)
    (slice : ∀ offset ≤ maxOffset, ∃ page, answer offset = .ok page ∧
      shown page.data = ((items.drop offset).take limit).filterMap item ∧
        page.total = some items.length ∧
          (page.truncated = some true ↔ offset + limit < items.length))
    (refused : ∀ offset, maxOffset < offset → answer offset = .error (offsetExceeded maxOffset)) :
    PagesOf answer shown item items maxOffset limit := by
  refine ⟨slice, refused, ?_⟩
  intro n
  induction n with
  | zero => simp
  | succ n ih =>
      rw [List.range_succ, List.flatMap_append, ih, List.flatMap_singleton]
      by_cases hn : n ≤ maxOffset / limit
      · obtain ⟨page, hpage, hshown, -, -⟩ :=
          slice (n * limit) ((Nat.le_div_iff_mul_le hlimit).mp hn)
        have hmin : min n (maxOffset / limit + 1) = n := by omega
        have hnext : min (n + 1) (maxOffset / limit + 1) = n + 1 := by omega
        rw [hpage, hmin, hnext, Nat.succ_mul, List.take_add, List.filterMap_append]
        exact congrArg _ hshown
      · have hbeyond : maxOffset < n * limit := by
          apply Nat.not_le.mp
          intro hle
          exact hn ((Nat.le_div_iff_mul_le hlimit).mpr hle)
        have hmin : min n (maxOffset / limit + 1) = min (n + 1) (maxOffset / limit + 1) := by omega
        rw [refused _ hbeyond, hmin]
        exact List.append_nil _

/-- Where all offsets that are needed are accepted, the pages show every item in its place. -/
theorem PagesOf.all {answer : ℕ → Result (SuccessResponse σ)} {shown : σ → List τ}
    {item : ρ → Option τ} {items : List ρ} {maxOffset limit : ℕ}
    (h : PagesOf answer shown item items maxOffset limit) {n : ℕ}
    (hpages : items.length ≤ n * limit)
    (hoffsets : items.length ≤ (maxOffset / limit + 1) * limit) :
    (List.range n).flatMap (fun k => shownItems shown (answer (k * limit))) =
      items.filterMap item := by
  rw [h.whole, List.take_of_length_le]
  rcases Nat.le_total n (maxOffset / limit + 1) with hn | hn
  · rwa [Nat.min_eq_left hn]
  · rwa [Nat.min_eq_right hn]

theorem pageRows_slice (limit offset : ℕ) (rows : List ρ) :
    (pageRows limit offset rows).data = (rows.drop offset).take limit ∧
      ((pageRows limit offset rows).truncated = some true ↔ offset + limit < rows.length) := by
  constructor
  · exact Paging.slice_eq (Nat.le_refl _)
  · rw [← Paging.stop_lt]
    unfold pageRows
    dsimp only
    split
    · rename_i hstop
      exact iff_of_true rfl hstop
    · rename_i hstop
      exact iff_of_false (Option.some_ne_none true ∘ Eq.symm) hstop

/-- A tool that refuses offsets and otherwise shows a slice of its rows. -/
theorem pagesOf_rows {rows : List ρ} {maxOffset limit : ℕ} (hlimit : 0 < limit)
    {answer : ℕ → Result (SuccessResponse (List ρ))}
    (hpage : ∀ offset ≤ maxOffset, answer offset = .ok (pageRows limit offset rows))
    (refused : ∀ offset, maxOffset < offset → answer offset = .error (offsetExceeded maxOffset)) :
    PagesOf answer id some rows maxOffset limit := by
  apply PagesOf.of_slice hlimit _ refused
  intro offset hoffset
  obtain ⟨hdata, htruncated⟩ := pageRows_slice limit offset rows
  refine ⟨_, hpage offset hoffset, ?_, rfl, htruncated⟩
  rw [List.filterMap_some]
  exact hdata

end Pages

end DbtNova.RowPages
