import DbtNova.SqlStructure
import Mathlib.Data.String.Basic

/-!
# Comparing the structure of two statements

Two signatures match when no field of one has an entry that the field of the other
misses. The fields hold sets of texts, in order, so what a set lists depends on its
members only.
-/
namespace DbtNova.SqlComparison
open PrintedSql SqlStructure

/-! ## Sets of texts -/

theorem lt_iff (a b : String) : Text.lt a b = true ↔ a < b := by
  unfold Text.lt
  rw [List.lex_eq_true_iff_lex, String.lt_iff_toList_lt]
  have hchars : ∀ c d : Char, decide (c.toNat < d.toNat) = true ↔ c < d := fun c d =>
    decide_eq_true_iff.trans UInt32.lt_iff_toNat_lt.symm
  constructor
  · exact List.Lex.imp (fun c d hlt => (hchars c d).mp hlt) _ _
  · exact List.Lex.imp (fun c d hlt => (hchars c d).mpr hlt) _ _

theorem mem_insertSorted {x a : String} {xs : List String} :
    x ∈ Text.insertSorted a xs ↔ x = a ∨ x ∈ xs := by
  induction xs with
  | nil => exact List.mem_cons
  | cons b bs ih =>
      unfold Text.insertSorted
      split_ifs with hlt heq
      · exact List.mem_cons
      · rw [heq, List.mem_cons, ← or_assoc, or_self]
      · rw [List.mem_cons, ih, List.mem_cons]
        exact or_left_comm

theorem mem_sortedSet {x : String} {xs : List String} : x ∈ Text.sortedSet xs ↔ x ∈ xs := by
  induction xs with
  | nil => exact Iff.rfl
  | cons a xs ih =>
      have hinsert : Text.sortedSet (a :: xs) = Text.insertSorted a (Text.sortedSet xs) := rfl
      rw [hinsert, mem_insertSorted, ih, List.mem_cons]

theorem insertSorted_pairwise {a : String} {xs : List String} (h : xs.Pairwise (· < ·)) :
    (Text.insertSorted a xs).Pairwise (· < ·) := by
  induction h with
  | nil => exact List.pairwise_singleton _ a
  | @cons b bs hb hbs ih =>
      unfold Text.insertSorted
      split_ifs with hlt heq
      · rw [lt_iff] at hlt
        refine List.pairwise_cons.mpr ⟨fun x hx => ?_, List.pairwise_cons.mpr ⟨hb, hbs⟩⟩
        cases List.mem_cons.mp hx with
        | inl hxb => exact hxb ▸ hlt
        | inr hmem => exact hlt.trans (hb x hmem)
      · exact List.pairwise_cons.mpr ⟨hb, hbs⟩
      · rw [lt_iff, not_lt] at hlt
        refine List.pairwise_cons.mpr ⟨fun x hx => ?_, ih⟩
        cases mem_insertSorted.mp hx with
        | inl hxa => exact hxa ▸ lt_of_le_of_ne hlt (Ne.symm heq)
        | inr hmem => exact hb x hmem

theorem sortedSet_pairwise (xs : List String) : (Text.sortedSet xs).Pairwise (· < ·) := by
  induction xs with
  | nil => exact .nil
  | cons a xs ih => exact insertSorted_pairwise ih

/-- A set lists its members, whatever the order they came in. -/
theorem sortedSet_eq_iff {xs ys : List String} :
    Text.sortedSet xs = Text.sortedSet ys ↔ ∀ x, x ∈ xs ↔ x ∈ ys := by
  constructor
  · intro h x
    rw [← mem_sortedSet, h, mem_sortedSet]
  · intro h
    apply (sortedSet_pairwise xs).eq_of_mem_iff (sortedSet_pairwise ys)
    intro x
    rw [mem_sortedSet, mem_sortedSet, h]

/-! ## Differences -/

structure SqlStructureDiff where
  missingTables : List String
  unexpectedTables : List String
  missingJoins : List String
  unexpectedJoins : List String
  missingSelect : List String
  unexpectedSelect : List String
  missingFilters : List String
  unexpectedFilters : List String
  missingGroupBy : List String
  unexpectedGroupBy : List String
  deriving DecidableEq, Repr

def SqlStructureDiff.isEmpty (diff : SqlStructureDiff) : Bool :=
  diff.missingTables.isEmpty && diff.unexpectedTables.isEmpty && diff.missingJoins.isEmpty &&
    diff.unexpectedJoins.isEmpty && diff.missingSelect.isEmpty && diff.unexpectedSelect.isEmpty &&
    diff.missingFilters.isEmpty && diff.unexpectedFilters.isEmpty &&
    diff.missingGroupBy.isEmpty && diff.unexpectedGroupBy.isEmpty

structure SqlStructureComparison where
  isMatch : Bool
  expected : SqlStructureSignature
  actual : SqlStructureSignature
  diff : SqlStructureDiff
  deriving DecidableEq, Repr

def missingValues (actual expected : List String) : List String :=
  expected.filter fun value => !actual.contains value

def unexpectedValues (actual expected : List String) : List String :=
  actual.filter fun value => !expected.contains value

def compareSqlStructureSignatures (actual expected : SqlStructureSignature) :
    SqlStructureComparison :=
  let diff : SqlStructureDiff := {
    missingTables := missingValues actual.tables expected.tables
    unexpectedTables := unexpectedValues actual.tables expected.tables
    missingJoins := missingValues actual.joins expected.joins
    unexpectedJoins := unexpectedValues actual.joins expected.joins
    missingSelect := missingValues actual.select expected.select
    unexpectedSelect := unexpectedValues actual.select expected.select
    missingFilters := missingValues actual.filters expected.filters
    unexpectedFilters := unexpectedValues actual.filters expected.filters
    missingGroupBy := missingValues actual.groupBy expected.groupBy
    unexpectedGroupBy := unexpectedValues actual.groupBy expected.groupBy }
  { isMatch := diff.isEmpty, expected, actual, diff }

/-- The comparison of two statements that are parsed. -/
def compareSqlStructure (actual expected : Query Literal) :
    Except String SqlStructureComparison := do
  let actual ← signatureForQuery actual
  let expected ← signatureForQuery expected
  return compareSqlStructureSignatures actual expected

theorem missingValues_isEmpty {actual expected : List String} :
    (missingValues actual expected).isEmpty = true ↔ expected ⊆ actual := by
  unfold missingValues
  rw [List.isEmpty_iff, List.filter_eq_nil_iff]
  apply forall₂_congr
  intro value _
  rw [Bool.not_eq_true', Bool.not_eq_false, List.contains_iff_mem]

theorem unexpectedValues_eq (actual expected : List String) :
    unexpectedValues actual expected = missingValues expected actual := rfl

/-- The members of every field agree. -/
def SameEntries (a b : SqlStructureSignature) : Prop :=
  (∀ x, x ∈ a.tables ↔ x ∈ b.tables) ∧ (∀ x, x ∈ a.joins ↔ x ∈ b.joins) ∧
    (∀ x, x ∈ a.select ↔ x ∈ b.select) ∧ (∀ x, x ∈ a.filters ↔ x ∈ b.filters) ∧
    (∀ x, x ∈ a.groupBy ↔ x ∈ b.groupBy)

theorem isMatch_iff (actual expected : SqlStructureSignature) :
    (compareSqlStructureSignatures actual expected).isMatch = true ↔
      SameEntries actual expected := by
  have hfield : ∀ xs ys : List String, (ys ⊆ xs ∧ xs ⊆ ys) ↔ ∀ x, x ∈ xs ↔ x ∈ ys :=
    fun xs ys => ⟨fun h x => ⟨fun hx => h.2 hx, fun hy => h.1 hy⟩,
      fun h => ⟨fun x hy => (h x).mpr hy, fun x hx => (h x).mp hx⟩⟩
  unfold compareSqlStructureSignatures SqlStructureDiff.isEmpty SameEntries
  simp only [Bool.and_eq_true, unexpectedValues_eq, missingValues_isEmpty, ← hfield, and_assoc]

/-! ## Statements that have a signature -/

mutual

/-- The body is a SELECT, and so is that of every derived table. -/
def queryGradable : Query Literal → Bool
  | .select body => selectGradable body
  | .query inner => queryGradable inner
  | .other => false

def selectGradable : Select Literal → Bool
  | .mk tables _ _ _ _ _ _ => tablesGradable tables

def tablesGradable : List (TableWithJoins Literal) → Bool
  | [] => true
  | table :: tables => tableGradable table && tablesGradable tables

def tableGradable : TableWithJoins Literal → Bool
  | .mk relation joins => factorGradable relation && joinsGradable joins

def joinsGradable : List (Join Literal) → Bool
  | [] => true
  | .mk relation _ :: joins => factorGradable relation && joinsGradable joins

def factorGradable : TableFactor Literal → Bool
  | .derived subquery _ => queryGradable subquery
  | .nestedJoin inner _ => tableGradable inner
  | .pivot source _ _ => factorGradable source
  | .table _ _ | .tableFunction _ _ | .function _ _ | .unnest _ _ | .other _ => true

end

/-- Both parts of a walk succeed, or the walk fails. -/
theorem walk_ok {x y : Except String TableRefs} {join : TableRefs → TableRefs → TableRefs} :
    (∃ refs, (do
        let first ← x
        let others ← y
        return join first others : Except String TableRefs) = .ok refs) ↔
      (∃ refs, x = .ok refs) ∧ ∃ refs, y = .ok refs := by
  cases x with
  | error message => exact iff_of_false (fun ⟨_, h⟩ => nomatch h) fun h => nomatch h.1
  | ok first =>
      cases y with
      | error message => exact iff_of_false (fun ⟨_, h⟩ => nomatch h) fun h => nomatch h.2
      | ok others => exact iff_of_true ⟨_, rfl⟩ ⟨⟨_, rfl⟩, _, rfl⟩

theorem map_ok {α β : Type} {x : Except String α} {f : α → β} :
    (∃ b, x.map f = .ok b) ↔ ∃ a, x = .ok a := by
  cases x with
  | error message => exact iff_of_false (fun ⟨_, h⟩ => nomatch h) fun ⟨_, h⟩ => nomatch h
  | ok a => exact iff_of_true ⟨_, rfl⟩ ⟨_, rfl⟩

mutual

theorem signatureForQuery_ok : ∀ query : Query Literal,
    (∃ signature, signatureForQuery query = .ok signature) ↔ queryGradable query = true
  | .select (.mk tables projection selection prewhere having qualify groupBy) => by
      rw [signatureForQuery, queryGradable, selectGradable, ← collectTables_ok tables
        (qualifierAliases tables), ← @map_ok _ _ _ SqlStructureSignature.refs, select_refs, map_ok]
  | .query inner => by
      rw [signatureForQuery, queryGradable, signatureForQuery_ok inner]
  | .other => iff_of_false (fun ⟨_, h⟩ => by rw [signatureForQuery] at h; cases h)
      (by rw [queryGradable]; exact Bool.false_ne_true)

theorem collectTables_ok : ∀ (tables : List (TableWithJoins Literal)) (aliases : Aliases),
    (∃ refs, collectTables tables aliases = .ok refs) ↔ tablesGradable tables = true
  | [], aliases => iff_of_true ⟨_, by rw [collectTables]⟩ (by rw [tablesGradable])
  | table :: tables, aliases => by
      rw [collectTables, tablesGradable, Bool.and_eq_true, ← collectTableWithJoins_ok table aliases,
        ← collectTables_ok tables aliases]
      exact walk_ok

theorem collectTableWithJoins_ok : ∀ (table : TableWithJoins Literal) (aliases : Aliases),
    (∃ refs, collectTableWithJoins table aliases = .ok refs) ↔ tableGradable table = true
  | .mk relation joins, aliases => by
      rw [collectTableWithJoins, tableGradable, Bool.and_eq_true,
        ← collectTableFactorRefs_ok relation aliases, ← collectJoins_ok joins aliases]
      exact walk_ok

theorem collectJoins_ok : ∀ (joins : List (Join Literal)) (aliases : Aliases),
    (∃ refs, collectJoins joins aliases = .ok refs) ↔ joinsGradable joins = true
  | [], aliases => iff_of_true ⟨_, by rw [collectJoins]⟩ (by rw [joinsGradable])
  | .mk relation operator :: joins, aliases => by
      rw [collectJoins, joinsGradable, Bool.and_eq_true,
        ← collectTableFactorRefs_ok relation aliases, ← collectJoins_ok joins aliases]
      exact walk_ok

theorem collectTableFactorRefs_ok : ∀ (factor : TableFactor Literal) (aliases : Aliases),
    (∃ refs, collectTableFactorRefs factor aliases = .ok refs) ↔ factorGradable factor = true
  | .derived subquery label, aliases => by
      rw [derived_refs, map_ok, factorGradable, signatureForQuery_ok subquery]
  | .nestedJoin inner label, aliases => by
      rw [collectTableFactorRefs, factorGradable, collectTableWithJoins_ok inner aliases]
  | .pivot source label printed, aliases => by
      rw [collectTableFactorRefs, factorGradable, collectTableFactorRefs_ok source aliases]
  | .table name label, aliases => iff_of_true ⟨_, by rw [collectTableFactorRefs]⟩
      (by rw [factorGradable])
  | .tableFunction value label, aliases => iff_of_true ⟨_, by rw [collectTableFactorRefs]⟩
      (by rw [factorGradable])
  | .function name label, aliases => iff_of_true ⟨_, by rw [collectTableFactorRefs]⟩
      (by rw [factorGradable])
  | .unnest values label, aliases => iff_of_true ⟨_, by rw [collectTableFactorRefs]⟩
      (by rw [factorGradable])
  | .other printed, aliases => iff_of_true ⟨_, by rw [collectTableFactorRefs]⟩
      (by rw [factorGradable])

end

end DbtNova.SqlComparison
