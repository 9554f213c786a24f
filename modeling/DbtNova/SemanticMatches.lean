import DbtNova.StoreScan

/-!
# Matching declared measures and metrics

`match_nova_semantics` of `manifest/search/semantic.rs`: which of the measures and metrics that an
entity declares share tokens with a query, and how.
-/
namespace DbtNova.SemanticMatches
open StoreScan

inductive SemanticMatchType
  | name | synonym | field | description | expression
deriving DecidableEq

def SemanticMatchType.asStr : SemanticMatchType → String
  | .name => "name"
  | .synonym => "synonym"
  | .field => "field"
  | .description => "description"
  | .expression => "expression"

def SemanticMatchType.rank : SemanticMatchType → ℕ
  | .name => 5
  | .synonym => 4
  | .field => 3
  | .description => 2
  | .expression => 1

structure SemanticPreviewItem where
  name : String
  description : Option String
  expression : Option String
  field : Option String
  canonical : Bool
  matchType : SemanticMatchType
  matchedTokenCount : ℕ
  queryTokenCount : ℕ

structure SemanticMatchInfo where
  matchType : SemanticMatchType
  matchedTokenCount : ℕ

structure NovaSemanticMatches where
  measures : List SemanticPreviewItem
  metrics : List SemanticPreviewItem

/-- A query's tokens, each once, and the tokens of a value. -/
structure QueryTokens where
  tokenSet : List String
  tokenize : String → List String

def tokenMatchCount (query : QueryTokens) (value : String) : ℕ :=
  if value.isEmpty || query.tokenSet.isEmpty then 0
  else query.tokenSet.countP fun token => (query.tokenize value).contains token

/-- `max_by`: the last of the greatest elements. -/
def maxBy {α : Type*} (cmp : α → α → Ordering) (l : List α) : Option α :=
  l.foldl (fun best a =>
    match best with
    | none => some a
    | some b => if cmp b a = .gt then some b else some a) none

/-- The value as a match of this type, if it shares tokens with the query. -/
def matchInfo (query : QueryTokens) (matchType : SemanticMatchType) (value : String) :
    Option SemanticMatchInfo :=
  let matchedTokenCount := tokenMatchCount query value
  if 0 < matchedTokenCount then some ⟨matchType, matchedTokenCount⟩ else none

def compareCounts (left right : SemanticMatchInfo) : Ordering :=
  compare left.matchedTokenCount right.matchedTokenCount

def compareInfos (left right : SemanticMatchInfo) : Ordering :=
  (compare left.matchType.rank right.matchType.rank).then (compareCounts left right)

/-- The name counts before the synonyms, and these before the other values. -/
def bestMatchInfo (query : QueryTokens) (directValues : List (Option String × SemanticMatchType))
    (synonyms : List String) : Option SemanticMatchInfo :=
  let matchesOf := fun values : List (Option String × SemanticMatchType) =>
    values.filterMap fun value => value.1.bind (matchInfo query value.2)
  let nameMatch := maxBy compareCounts
    (matchesOf (directValues.filter fun value => value.2 = .name))
  let synonymMatch := maxBy compareCounts (synonyms.filterMap (matchInfo query .synonym))
  nameMatch.or <| synonymMatch.or <|
    maxBy compareInfos
      (matchesOf (directValues.filter fun value => value.2 ≠ .name ∧ value.2 ≠ .synonym))

def matchMeasure (query : QueryTokens) (entityCanonical : Bool) (measure : ArchivedNovaMeasure) :
    Option SemanticPreviewItem :=
  (bestMatchInfo query
    [(some measure.name, .name), (measure.field, .field), (measure.description, .description),
      (measure.expression, .expression)] measure.synonyms).map fun info =>
    { name := measure.name
      description := measure.description
      expression := measure.expression
      field := measure.field
      canonical := entityCanonical || measure.canonical
      matchType := info.matchType
      matchedTokenCount := info.matchedTokenCount
      queryTokenCount := query.tokenSet.length }

def matchMetric (query : QueryTokens) (entityCanonical : Bool) (metric : ArchivedNovaMetric) :
    Option SemanticPreviewItem :=
  (bestMatchInfo query
    [(some metric.name, .name), (metric.description, .description),
      (metric.expression, .expression)] metric.synonyms).map fun info =>
    { name := metric.name
      description := metric.description
      expression := metric.expression
      field := none
      canonical := entityCanonical || metric.canonical
      matchType := info.matchType
      matchedTokenCount := info.matchedTokenCount
      queryTokenCount := query.tokenSet.length }

def comparePreviewItems (left right : SemanticPreviewItem) : Ordering :=
  (compare right.matchType.rank left.matchType.rank).then <|
    (compare right.matchedTokenCount left.matchedTokenCount).then <|
      (compare right.queryTokenCount left.queryTokenCount).then <|
        (compare right.canonical left.canonical).then (compare left.name right.name)

def matchNovaSemantics (nova : ArchivedNovaMeta) (query : QueryTokens) : NovaSemanticMatches :=
  if query.tokenSet.isEmpty then ⟨[], []⟩
  else
    { measures := StableSort.sort comparePreviewItems
        (nova.measures.filterMap (matchMeasure query nova.canonical))
      metrics := StableSort.sort comparePreviewItems
        (nova.metric.toList.filterMap (matchMetric query nova.canonical) ++
          nova.metrics.filterMap (matchMetric query nova.canonical)) }

/-! ## The matches of an entity -/

section Matches
variable {query : QueryTokens} {nova : ArchivedNovaMeta} {canonical : Bool}

theorem matchMeasure_name {measure : ArchivedNovaMeasure} {item : SemanticPreviewItem}
    (h : matchMeasure query canonical measure = some item) : item.name = measure.name := by
  obtain ⟨info, -, rfl⟩ := Option.map_eq_some_iff.mp h
  rfl

theorem matchMetric_name {metric : ArchivedNovaMetric} {item : SemanticPreviewItem}
    (h : matchMetric query canonical metric = some item) : item.name = metric.name := by
  obtain ⟨info, -, rfl⟩ := Option.map_eq_some_iff.mp h
  rfl

/-- A query without tokens matches nothing. -/
theorem bestMatchInfo_of_isEmpty (h : query.tokenSet.isEmpty = true)
    (directValues : List (Option String × SemanticMatchType)) (synonyms : List String) :
    bestMatchInfo query directValues synonyms = none := by
  have hinfo : ∀ matchType value, matchInfo query matchType value = none := by
    intro matchType value
    unfold matchInfo tokenMatchCount
    rw [h, Bool.or_true]
    rfl
  have hnone : ∀ values : List (Option String × SemanticMatchType),
      values.filterMap (fun value => value.1.bind (matchInfo query value.2)) = [] := by
    intro values
    apply List.filterMap_eq_nil_iff.mpr
    intro value _
    cases value.1 with
    | none => rfl
    | some text => exact hinfo value.2 text
  have hsynonyms : synonyms.filterMap (matchInfo query .synonym) = [] :=
    List.filterMap_eq_nil_iff.mpr fun value _ => hinfo .synonym value
  unfold bestMatchInfo
  dsimp only
  rw [hnone, hnone, hsynonyms]
  rfl

/-- The matches of the measures, up to their order. -/
theorem measures_perm (nova : ArchivedNovaMeta) (query : QueryTokens) :
    (matchNovaSemantics nova query).measures.Perm
      (nova.measures.filterMap (matchMeasure query nova.canonical)) := by
  unfold matchNovaSemantics
  split
  · rename_i hempty
    have hnone : nova.measures.filterMap (matchMeasure query nova.canonical) = [] := by
      apply List.filterMap_eq_nil_iff.mpr
      intro measure _
      unfold matchMeasure
      rw [bestMatchInfo_of_isEmpty hempty]
      rfl
    rw [hnone]
  · exact StableSort.sort_perm _

/-- The matches of the metrics, up to their order. -/
theorem metrics_perm (nova : ArchivedNovaMeta) (query : QueryTokens) :
    (matchNovaSemantics nova query).metrics.Perm
      (nova.metric.toList.filterMap (matchMetric query nova.canonical) ++
        nova.metrics.filterMap (matchMetric query nova.canonical)) := by
  unfold matchNovaSemantics
  split
  · rename_i hempty
    have hnone : ∀ metrics : List ArchivedNovaMetric,
        metrics.filterMap (matchMetric query nova.canonical) = [] := by
      intro metrics
      apply List.filterMap_eq_nil_iff.mpr
      intro metric _
      unfold matchMetric
      rw [bestMatchInfo_of_isEmpty hempty]
      rfl
    rw [hnone, hnone]
    exact List.Perm.refl _
  · exact StableSort.sort_perm _

end Matches

end DbtNova.SemanticMatches
