import DbtNova.Json
import DbtNova.StableSort
import Mathlib.Algebra.Order.Field.Basic

/-!
# Indicator rows

The rows of `search_indicator`, their order, and what the reranker does to them,
`reorder_indicator_rows_with_reranker` of `tools/search/indicators.rs`. Scores are those of an
ordered field in place of `f32`.
-/
namespace DbtNova.IndicatorRows

structure IndicatorGrainSummary where
  primaryKey : List String
  timeField : Option String
  dimensions : List String

structure IndicatorExecutionMetadata where
  indicatorSource : String
  executionSurface : String
  queryable : Bool
  directSqlQueryable : Bool
  queryableVia : String
  executionNote : Option String

structure IndicatorScoreExplain (K : Type*) where
  matchBase : K
  queryCoverage : K
  baseMatchScore : K
  genericLabelBonus : Option K
  parentSynonymBonus : Option K
  metadataSupportBonus : Option K
  phraseMatchBonus : Option K
  timeFieldBonus : Option K
  dimensionBonus : Option K
  parentCoherenceBonus : Option K
  rrfBonus : Option K
  rerankerBonus : Option K
  finalScore : K

structure IndicatorSearchRow (K : Type*) where
  indicatorName : String
  indicatorType : String
  canonical : Bool
  matchType : String
  score : K
  description : Option String
  expression : Option String
  field : Option String
  parentUniqueId : String
  parentName : String
  parentResourceType : String
  relationName : Option String
  execution : IndicatorExecutionMetadata
  domains : List String
  grain : IndicatorGrainSummary
  supportSignals : Option JsonValue
  explain : Option (IndicatorScoreExplain K)

section Rerank
variable {K : Type*} [Field K] [LinearOrder K]

/-- `f32::EPSILON`. -/
def f32Epsilon : K := ((2 ^ 23 : ℕ) : K)⁻¹

def nonZeroOption (value : K) : Option K :=
  if f32Epsilon < max value (-value) then some value else none

/-- A head row with the reranker's score added, behind its index and that score. -/
def rescored (rerankScores : List (ℕ × K)) (weight : K) (row : IndicatorSearchRow K) (idx : ℕ) :
    ℕ × K × IndicatorSearchRow K :=
  -- the first entry of an index counts
  let rerankScore := (rerankScores.lookup idx).getD 0
  let score := row.score + rerankScore * weight
  (idx, rerankScore,
    { row with
      score := score
      explain := row.explain.map fun explain =>
        { explain with
          rerankerBonus := nonZeroOption (rerankScore * weight)
          finalScore := score } })

def compareHeadRows (left right : ℕ × K × IndicatorSearchRow K) : Ordering :=
  (compare right.2.2.score left.2.2.score).then <|
    (compare right.2.1 left.2.1).then (compare left.1 right.1)

def reorderIndicatorRowsWithReranker (rows : List (IndicatorSearchRow K)) (topN : ℕ)
    (rerankedHits : List (ℕ × K)) (indicatorRerankerScoreWeight : K) :
    List (IndicatorSearchRow K) :=
  let head := rows.take topN
  let tail := rows.drop topN
  let headRows := head.mapIdx fun idx row =>
    rescored rerankedHits indicatorRerankerScoreWeight row idx
  (StableSort.sort compareHeadRows headRows).map (fun entry => entry.2.2) ++ tail

end Rerank

/-! ## Nothing is lost -/

/-- The same indicator, possibly under another score. -/
structure SameIndicator {K : Type*} (row row' : IndicatorSearchRow K) : Prop where
  same : row' = { row with score := row'.score, explain := row'.explain }
  explained : row'.explain.isSome = row.explain.isSome

section Reorder
variable {K : Type*} [Field K] [LinearOrder K]

theorem rescored_same (rerankScores : List (ℕ × K)) (weight : K) (row : IndicatorSearchRow K)
    (idx : ℕ) : SameIndicator row (rescored rerankScores weight row idx).2.2 :=
  ⟨rfl, Option.isSome_map⟩

/-- Every row is there again, once. -/
theorem reorder_perm (rows : List (IndicatorSearchRow K)) (topN : ℕ)
    (rerankedHits : List (ℕ × K)) (weight : K) :
    ∃ rows', List.Forall₂ SameIndicator rows rows' ∧
      (reorderIndicatorRowsWithReranker rows topN rerankedHits weight).Perm rows' := by
  let headRows := (rows.take topN).mapIdx fun idx row => rescored rerankedHits weight row idx
  refine ⟨headRows.map (fun entry => entry.2.2) ++ rows.drop topN, ?_, ?_⟩
  · have hhead : List.Forall₂ SameIndicator (rows.take topN)
        (headRows.map fun entry => entry.2.2) := by
      rw [List.forall₂_iff_get]
      refine ⟨by rw [List.length_map, List.length_mapIdx], ?_⟩
      intro i hi hi'
      simp only [headRows, List.get_eq_getElem, List.getElem_map, List.getElem_mapIdx]
      exact rescored_same _ _ _ _
    have htail : List.Forall₂ SameIndicator (rows.drop topN) (rows.drop topN) :=
      List.forall₂_same.mpr fun _ _ => ⟨rfl, rfl⟩
    have hboth := List.rel_append hhead htail
    dsimp only at hboth
    rwa [List.take_append_drop] at hboth
  · exact ((StableSort.sort_perm headRows).map _).append_right _

end Reorder

end DbtNova.IndicatorRows
