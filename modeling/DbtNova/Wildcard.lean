import Mathlib.Tactic.Common

/-!
# Wildcard patterns

Patterns over an alphabet with one separator letter: a letter, a run without the
separator, any run, and one letter that is not the separator. `Matches` says what
a pattern means; `matchTokens` decides it row by row, one row for each token and
one cell for each position of the text.
-/
namespace DbtNova.Wildcard

inductive Token (α : Type*) where
  | char (a : α)
  | star
  | globStar
  | question
  deriving DecidableEq, Repr

variable {α : Type*} (sep : α)

/-- The texts one token stands for. -/
def Token.Accepts : Token α → List α → Prop
  | .char a, u => u = [a]
  | .star, u => sep ∉ u
  | .globStar, _ => True
  | .question, u => ∃ a, a ≠ sep ∧ u = [a]

def Matches : List (Token α) → List α → Prop
  | [], u => u = []
  | t :: ts, u => ∃ v w, u = v ++ w ∧ t.Accepts sep v ∧ Matches ts w

variable {sep}

theorem matches_append {ts ss : List (Token α)} {u : List α} :
    Matches sep (ts ++ ss) u ↔ ∃ v w, u = v ++ w ∧ Matches sep ts v ∧ Matches sep ss w := by
  induction ts generalizing u with
  | nil => simp [Matches]
  | cons t ts ih =>
      simp only [List.cons_append, Matches, ih]
      constructor
      · intro h
        obtain ⟨v, w, rfl, hv, x, y, rfl, hx, hy⟩ := h
        exact ⟨v ++ x, y, by simp, ⟨v, x, rfl, hv, hx⟩, hy⟩
      · intro h
        obtain ⟨v, w, rfl, ⟨x, y, rfl, hx, hy⟩, hw⟩ := h
        exact ⟨x, y ++ w, by simp, hx, y, w, rfl, hy, hw⟩

/-- A pattern that begins with letters matches only texts that begin with them. -/
theorem Matches.starts_with {letters : List α} {ts : List (Token α)} {u : List α}
    (h : Matches sep (letters.map .char ++ ts) u) : letters <+: u := by
  induction letters generalizing u with
  | nil => exact List.nil_prefix
  | cons a letters ih =>
      obtain ⟨v, w, rfl, hv, hw⟩ := h
      obtain rfl : v = [a] := hv
      exact List.cons_prefix_cons.mpr ⟨rfl, ih hw⟩

theorem matches_snoc {ts : List (Token α)} {t : Token α} {u : List α} :
    Matches sep (ts ++ [t]) u ↔ ∃ v w, u = v ++ w ∧ Matches sep ts v ∧ t.Accepts sep w := by
  rw [matches_append]
  simp [Matches]

/-! ## What one more token does at one position -/

theorem matches_snoc_nil {ts : List (Token α)} {t : Token α} :
    Matches sep (ts ++ [t]) [] ↔ Matches sep ts [] ∧ (t = .star ∨ t = .globStar) := by
  rw [matches_snoc]
  constructor
  · intro h
    obtain ⟨v, w, huvw, hv, hw⟩ := h
    obtain ⟨rfl, rfl⟩ := List.append_eq_nil_iff.mp huvw.symm
    refine ⟨hv, ?_⟩
    cases t with
    | char a => simp [Token.Accepts] at hw
    | star => exact .inl rfl
    | globStar => exact .inr rfl
    | question => simp [Token.Accepts] at hw
  · intro h
    rcases h with ⟨hv, rfl | rfl⟩
    · exact ⟨[], [], rfl, hv, by simp [Token.Accepts]⟩
    · exact ⟨[], [], rfl, hv, trivial⟩

theorem matches_snoc_char {ts : List (Token α)} {a c : α} {u : List α} :
    Matches sep (ts ++ [.char a]) (u ++ [c]) ↔ a = c ∧ Matches sep ts u := by
  rw [matches_snoc]
  constructor
  · intro h
    obtain ⟨v, w, huvw, hv, rfl⟩ := h
    obtain ⟨rfl, hc⟩ := List.append_inj' huvw rfl
    exact ⟨(List.cons.inj hc).1.symm, hv⟩
  · intro h
    obtain ⟨rfl, hu⟩ := h
    exact ⟨u, [a], rfl, hu, rfl⟩

theorem matches_snoc_question {ts : List (Token α)} {c : α} {u : List α} :
    Matches sep (ts ++ [.question]) (u ++ [c]) ↔ c ≠ sep ∧ Matches sep ts u := by
  rw [matches_snoc]
  constructor
  · intro h
    obtain ⟨v, w, huvw, hv, a, ha, rfl⟩ := h
    obtain ⟨rfl, hc⟩ := List.append_inj' huvw rfl
    obtain rfl := (List.cons.inj hc).1
    exact ⟨ha, hv⟩
  · intro h
    obtain ⟨hc, hu⟩ := h
    exact ⟨u, [c], rfl, hu, c, hc, rfl⟩

/-- The last letter of a text is either left over or taken by the run. -/
theorem append_eq_snoc {u v w : List α} {c : α} (h : u ++ [c] = v ++ w) :
    (w = [] ∧ v = u ++ [c]) ∨ ∃ x, w = x ++ [c] ∧ u = v ++ x := by
  rcases List.eq_nil_or_concat w with rfl | ⟨x, d, rfl⟩
  · exact .inl ⟨rfl, by simpa using h.symm⟩
  · rw [List.concat_eq_append, ← List.append_assoc] at h
    obtain ⟨rfl, hd⟩ := List.append_inj' h rfl
    refine .inr ⟨x, ?_, rfl⟩
    rw [List.concat_eq_append, hd]

theorem matches_snoc_star {ts : List (Token α)} {c : α} {u : List α} :
    Matches sep (ts ++ [.star]) (u ++ [c]) ↔
      Matches sep ts (u ++ [c]) ∨ (c ≠ sep ∧ Matches sep (ts ++ [.star]) u) := by
  simp only [matches_snoc]
  constructor
  · intro h
    obtain ⟨v, w, huvw, hv, hw⟩ := h
    rcases append_eq_snoc huvw with ⟨rfl, rfl⟩ | ⟨x, rfl, rfl⟩
    · exact .inl hv
    · simp only [Token.Accepts, List.mem_append, List.mem_singleton, not_or] at hw
      exact .inr ⟨fun h => hw.2 h.symm, v, x, rfl, hv, hw.1⟩
  · intro h
    rcases h with hu | ⟨hc, v, w, rfl, hv, hw⟩
    · exact ⟨u ++ [c], [], by simp, hu, by simp [Token.Accepts]⟩
    · refine ⟨v, w ++ [c], by simp, hv, ?_⟩
      simp only [Token.Accepts, List.mem_append, List.mem_singleton, not_or]
      exact ⟨hw, fun h => hc h.symm⟩

theorem matches_snoc_globStar {ts : List (Token α)} {c : α} {u : List α} :
    Matches sep (ts ++ [.globStar]) (u ++ [c]) ↔
      Matches sep ts (u ++ [c]) ∨ Matches sep (ts ++ [.globStar]) u := by
  simp only [matches_snoc]
  constructor
  · intro h
    obtain ⟨v, w, huvw, hv, -⟩ := h
    rcases append_eq_snoc huvw with ⟨rfl, rfl⟩ | ⟨x, rfl, rfl⟩
    · exact .inl hv
    · exact .inr ⟨v, x, rfl, hv, trivial⟩
  · intro h
    rcases h with hu | ⟨v, w, rfl, hv, -⟩
    · exact ⟨u ++ [c], [], by simp, hu, trivial⟩
    · exact ⟨v, w ++ [c], by simp, hv, trivial⟩

/-! ## Rows of the table -/

/-- The cells of a row behind its first one decide `p` at each longer text. -/
def Decides (p : List α → Prop) : List α → List α → List Bool → Prop
  | _, [], [] => True
  | done, c :: cs, b :: row => (b = true ↔ p (done ++ [c])) ∧ Decides p (done ++ [c]) cs row
  | _, _, _ => False

theorem decides_last {p : List α → Prop} {done cs : List α} {first : Bool} {row : List Bool}
    (hfirst : first = true ↔ p done) (hrow : Decides p done cs row) :
    (first :: row).getLastD false = true ↔ p (done ++ cs) := by
  induction cs generalizing done first row with
  | nil =>
      cases row with
      | nil => simpa using hfirst
      | cons b row => exact hrow.elim
  | cons c cs ih =>
      cases row with
      | nil => exact hrow.elim
      | cons b row =>
          have hlast := ih hrow.1 hrow.2
          rw [List.append_assoc, List.singleton_append] at hlast
          simpa using hlast

theorem decides_replicate (done cs : List α) :
    Decides (Matches sep []) done cs (List.replicate cs.length false) := by
  induction cs generalizing done with
  | nil => trivial
  | cons c cs ih => exact ⟨by simp [Matches], ih (done ++ [c])⟩

/-! ## The table -/

variable [DecidableEq α] (sep)

/-- One cell, from the cell above, the one before that, and the one to the left. -/
def cell (t : Token α) (c : α) (above diagonal left : Bool) : Bool :=
  match t with
  | .star => above || (c != sep && left)
  | .globStar => above || left
  | .question => c != sep && diagonal
  | .char a => a == c && diagonal

def advance (t : Token α) : Bool → Bool → List α → List Bool → List Bool
  | diagonal, left, c :: cs, above :: row =>
      let here := cell sep t c above diagonal left
      here :: advance t above here cs row
  | _, _, _, _ => []

def nextRow (t : Token α) (text : List α) : List Bool → List Bool
  | [] => []
  | first :: row =>
      let here := (t == .star || t == .globStar) && first
      here :: advance sep t first here text row

def matchTokens (ts : List (Token α)) (text : List α) : Bool :=
  (ts.foldl (fun row t => nextRow sep t text row)
    (true :: List.replicate text.length false)).getLastD false

variable {sep}

theorem cell_iff {ts : List (Token α)} {t : Token α} {c : α} {done : List α}
    {above diagonal left : Bool} (habove : above = true ↔ Matches sep ts (done ++ [c]))
    (hdiagonal : diagonal = true ↔ Matches sep ts done)
    (hleft : left = true ↔ Matches sep (ts ++ [t]) done) :
    cell sep t c above diagonal left = true ↔ Matches sep (ts ++ [t]) (done ++ [c]) := by
  cases t with
  | char a => simp [cell, matches_snoc_char, hdiagonal]
  | star => simp [cell, matches_snoc_star, habove, hleft]
  | globStar => simp [cell, matches_snoc_globStar, habove, hleft]
  | question => simp [cell, matches_snoc_question, hdiagonal]

theorem advance_decides {ts : List (Token α)} {t : Token α} {done cs : List α}
    {row : List Bool} {diagonal left : Bool} (hdiagonal : diagonal = true ↔ Matches sep ts done)
    (hleft : left = true ↔ Matches sep (ts ++ [t]) done)
    (hrow : Decides (Matches sep ts) done cs row) :
    Decides (Matches sep (ts ++ [t])) done cs (advance sep t diagonal left cs row) := by
  induction cs generalizing done row diagonal left with
  | nil =>
      cases row with
      | nil => trivial
      | cons b row => exact hrow.elim
  | cons c cs ih =>
      cases row with
      | nil => exact hrow.elim
      | cons b row =>
          have hcell := cell_iff hrow.1 hdiagonal hleft
          exact ⟨hcell, ih hrow.1 hcell hrow.2⟩

/-- The rows for `ts` and then for `ss` decide `ts ++ ss`. -/
theorem rows_decide (ts ss : List (Token α)) {text : List α} {first : Bool} {row : List Bool}
    (hfirst : first = true ↔ Matches sep ts [])
    (hrow : Decides (Matches sep ts) [] text row) :
    ∃ first' row', ss.foldl (fun row t => nextRow sep t text row) (first :: row) =
        first' :: row' ∧ (first' = true ↔ Matches sep (ts ++ ss) []) ∧
      Decides (Matches sep (ts ++ ss)) [] text row' := by
  induction ss generalizing ts first row with
  | nil => exact ⟨first, row, rfl, by simpa using hfirst, by simpa using hrow⟩
  | cons t ss ih =>
      have hhere : ((t == .star || t == .globStar) && first) = true ↔
          Matches sep (ts ++ [t]) [] := by
        rw [matches_snoc_nil, ← hfirst]
        simp [and_comm]
      have hnext := ih (ts ++ [t]) hhere (advance_decides hfirst hhere hrow)
      simpa [nextRow] using hnext

/-- The table decides the meaning of the pattern. -/
theorem matchTokens_iff (ts : List (Token α)) (text : List α) :
    matchTokens sep ts text = true ↔ Matches sep ts text := by
  obtain ⟨first, row, hrows, hfirst, hrow⟩ :=
    rows_decide [] ts (by simp [Matches] : true = true ↔ Matches sep [] [])
      (decides_replicate [] text)
  rw [matchTokens, hrows]
  simpa using decides_last hfirst hrow

end DbtNova.Wildcard
