import DbtNova.IndicatorInventory
import DbtNova.NameJoin
import DbtNova.SemanticMatches

/-!
# Rows for matching indicators

`search_indicator_rows_from_store` of `tools/search/indicators.rs`. The matches of an entity are
sorted and then joined to its declarations again, by name.
-/
namespace DbtNova.IndicatorMatches
open StoreScan IndicatorRows IndicatorInventory SemanticMatches

/-- The weights that the score of a row depends on. -/
structure IndicatorRankingConfig (K : Type*) where
  genericLabelBonusOneToken : K
  genericLabelBonusTwoTokens : K
  genericLabelBonusThreePlusTokens : K
  parentSynonymBonusOneToken : K
  parentSynonymBonusTwoTokens : K
  parentSynonymBonusThreePlusTokens : K

structure IndicatorSearch (K : Type*) where
  store : EntityStore
  toLowercase : String → String
  /-- `tokenize_alnum_lowercase` with the configured length -/
  tokenize : String → List String
  indicatorConfig : IndicatorRankingConfig K
  /-- What the metadata of an entity say to these tokens -/
  collectMetadataSupportSignals : ArchivedEntity → List String → Option JsonValue
  metadataSupportBonus : Option JsonValue → K
  phraseMatchBonus : Option JsonValue → K

structure IndicatorSearchContext (K : Type*) where
  uniqueId : String
  entity : ArchivedEntity
  nova : ArchivedNovaMeta
  includeExplain : Bool
  query : QueryTokens
  supportSignals : Option JsonValue
  metadataSupportBonus : K
  phraseMatchBonus : K
  indicatorConfig : IndicatorRankingConfig K

/-- A grain with something in it. -/
def grainUsable (grain : NovaGrain) : Bool :=
  !grain.primaryKey.isEmpty || !grain.dimensions.isEmpty ||
    grain.timeField.any fun field => !(Text.trim field).isEmpty

def preferredGrainForScoring (nova : ArchivedNovaMeta) : Option NovaGrain :=
  (nova.grain.filter grainUsable).or <|
    ((nova.metric.bind ArchivedNovaMetric.grain).filter grainUsable).or <|
      (nova.metrics.filterMap ArchivedNovaMetric.grain).find? grainUsable

def fullyCoveredTokenCount (query : QueryTokens) (value : String) : Option ℕ :=
  let tokens := query.tokenize value
  if !tokens.isEmpty && tokens.all fun token => query.tokenSet.contains token then
    some tokens.length
  else none

section Model
variable {K : Type*} [Field K] [LinearOrder K]

def genericIndicatorLabelMatchBonus (indicatorName : String) (query : QueryTokens)
    (config : IndicatorRankingConfig K) : K :=
  match fullyCoveredTokenCount query indicatorName with
  | none => 0
  | some 1 => config.genericLabelBonusOneToken
  | some 2 => config.genericLabelBonusTwoTokens
  | some _ => config.genericLabelBonusThreePlusTokens

def parentSynonymMatchBonus (nova : ArchivedNovaMeta) (query : QueryTokens)
    (config : IndicatorRankingConfig K) : K :=
  match (nova.synonyms.filterMap (fullyCoveredTokenCount query)).max? with
  | none => 0
  | some 1 => config.parentSynonymBonusOneToken
  | some 2 => config.parentSynonymBonusTwoTokens
  | some _ => config.parentSynonymBonusThreePlusTokens

def indicatorMatchExplainWithGrain (context : IndicatorSearchContext K) (indicatorName : String)
    (matched : SemanticPreviewItem) (preferredGrain : Option NovaGrain) :
    IndicatorScoreExplain K :=
  let queryTokenCount := context.query.tokenSet.length
  let coverage : K :=
    if queryTokenCount = 0 then 0
    else RankFusion.usizeToF32 matched.matchedTokenCount / RankFusion.usizeToF32 queryTokenCount
  let matchBase : K := (matched.matchType.rank : K)
  let genericLabelBonus :=
    genericIndicatorLabelMatchBonus indicatorName context.query context.indicatorConfig
  let parentSynonymBonus :=
    parentSynonymMatchBonus context.nova context.query context.indicatorConfig
  let timeFieldBonus : K :=
    if preferredGrain.any fun grain =>
        grain.timeField.any fun field => !(Text.trim field).isEmpty then ((2 : ℕ) : K)⁻¹
    else 0
  let dimensionBonus : K :=
    if preferredGrain.any fun grain => !grain.dimensions.isEmpty then ((4 : ℕ) : K)⁻¹ else 0
  let score := matchBase + coverage * ((4 : ℕ) : K)
    + (if matched.canonical then ((3 : ℕ) : K) / ((2 : ℕ) : K) else 0)
    + (if context.nova.canonical then ((3 : ℕ) : K) / ((4 : ℕ) : K) else 0)
    + genericLabelBonus + parentSynonymBonus + context.metadataSupportBonus
    + context.phraseMatchBonus + timeFieldBonus + dimensionBonus
    + (if context.entity.description.any fun text => !(Text.trim text).isEmpty then
        ((10 : ℕ) : K)⁻¹ else 0)
  { matchBase := matchBase
    queryCoverage := coverage
    baseMatchScore := score
    genericLabelBonus := nonZeroOption genericLabelBonus
    parentSynonymBonus := nonZeroOption parentSynonymBonus
    metadataSupportBonus := nonZeroOption context.metadataSupportBonus
    phraseMatchBonus := nonZeroOption context.phraseMatchBonus
    timeFieldBonus := nonZeroOption timeFieldBonus
    dimensionBonus := nonZeroOption dimensionBonus
    parentCoherenceBonus := none
    rrfBonus := none
    rerankerBonus := none
    finalScore := score }

def indicatorMatchExplain (context : IndicatorSearchContext K) (indicatorName : String)
    (matched : SemanticPreviewItem) : IndicatorScoreExplain K :=
  indicatorMatchExplainWithGrain context indicatorName matched
    (preferredGrainForScoring context.nova)

def buildMeasureIndicatorRow (context : IndicatorSearchContext K) (measure : ArchivedNovaMeasure)
    (matched : SemanticPreviewItem) : IndicatorSearchRow K :=
  let explainPayload := indicatorMatchExplain context measure.name matched
  { indicatorName := measure.name
    indicatorType := "measure"
    canonical := matched.canonical
    matchType := matched.matchType.asStr
    score := explainPayload.finalScore
    description := measure.description
    expression := measure.expression
    field := measure.field
    parentUniqueId := context.uniqueId
    parentName := context.entity.name.getD context.uniqueId
    parentResourceType := context.entity.resourceType.getD "unknown"
    relationName := context.entity.relationName
    execution := indicatorExecutionMetadata context.entity
    domains := context.nova.domains
    grain := grainSummary context.nova.grain
    supportSignals := context.supportSignals
    explain := if context.includeExplain then some explainPayload else none }

def buildMetricIndicatorRow (context : IndicatorSearchContext K) (metric : ArchivedNovaMetric)
    (matched : SemanticPreviewItem) : IndicatorSearchRow K :=
  let preferredGrain := metric.grain.or context.nova.grain
  let explainPayload :=
    indicatorMatchExplainWithGrain context metric.name matched preferredGrain
  { indicatorName := metric.name
    indicatorType := "metric"
    canonical := matched.canonical
    matchType := matched.matchType.asStr
    score := explainPayload.finalScore
    description := metric.description
    expression := metric.expression
    field := none
    parentUniqueId := context.uniqueId
    parentName := context.entity.name.getD context.uniqueId
    parentResourceType := context.entity.resourceType.getD "unknown"
    relationName := context.entity.relationName
    execution := indicatorExecutionMetadata context.entity
    domains := context.nova.domains
    grain := grainSummary preferredGrain
    supportSignals := context.supportSignals
    explain := if context.includeExplain then some explainPayload else none }

def measureRows (context : IndicatorSearchContext K) (matched : NovaSemanticMatches) :
    List (IndicatorSearchRow K) :=
  matched.measures.filterMap fun item =>
    (context.nova.measures.find? fun measure => measure.name == item.name).map fun measure =>
      buildMeasureIndicatorRow context measure item

/-- The row of the single metric: with the first match of its name, whosever it is. -/
def singleMetricRow (context : IndicatorSearchContext K) (matched : NovaSemanticMatches) :
    List (IndicatorSearchRow K) :=
  (context.nova.metric.bind fun metric =>
    (matched.metrics.find? fun item => item.name == metric.name).map fun item =>
      buildMetricIndicatorRow context metric item).toList

def metricRows (context : IndicatorSearchContext K) (matched : NovaSemanticMatches) :
    List (IndicatorSearchRow K) :=
  matched.metrics.filterMap fun item =>
    (context.nova.metrics.find? fun metric => metric.name == item.name).map fun metric =>
      buildMetricIndicatorRow context metric item

/-- The rows of one entity. -/
def indicatorRows (context : IndicatorSearchContext K) (indicatorFilter : Option (List String)) :
    List (IndicatorSearchRow K) :=
  let matched := matchNovaSemantics context.nova context.query
  (if indicatorTypeSelected indicatorFilter "measure" then measureRows context matched else []) ++
    if indicatorTypeSelected indicatorFilter "metric" then
      singleMetricRow context matched ++ metricRows context matched
    else []

def searchContext (search : IndicatorSearch K) (tokens : List String) (includeExplain : Bool)
    (uniqueId : String) (entity : ArchivedEntity) (nova : ArchivedNovaMeta) :
    IndicatorSearchContext K :=
  let supportSignals := search.collectMetadataSupportSignals entity tokens
  { uniqueId := uniqueId
    entity := entity
    nova := nova
    includeExplain := includeExplain
    query := { tokenSet := tokens.dedup, tokenize := search.tokenize }
    supportSignals := supportSignals
    metadataSupportBonus := search.metadataSupportBonus supportSignals
    phraseMatchBonus := search.phraseMatchBonus supportSignals
    indicatorConfig := search.indicatorConfig }

/-- The loop of `search_indicator_rows_from_store` at one entity. -/
def indicatorRowsOf (search : IndicatorSearch K) (tokens : List String)
    (indicatorFilter : Option (List String)) (includeExplain : Bool) (uniqueId : String)
    (entity : ArchivedEntity) : List (IndicatorSearchRow K) :=
  match entity.novaMeta with
  | none => []
  | some nova =>
      indicatorRows (searchContext search tokens includeExplain uniqueId entity nova)
        indicatorFilter

def compareIndicatorRows (left right : IndicatorSearchRow K) : Ordering :=
  (RankFusion.compareScoresDesc left.score right.score).then <|
    (compare left.parentUniqueId right.parentUniqueId).then <|
      (compare left.indicatorType right.indicatorType).then
        (compare left.indicatorName right.indicatorName)

def searchIndicatorRowsFromStore (search : IndicatorSearch K) (tokens : List String)
    (resourceFilter : Option (List String)) (indicatorFilter : Option (List String))
    (includeExplain : Bool) : Result (List (IndicatorSearchRow K)) :=
  (scanRows search.store search.toLowercase resourceFilter
    (indicatorRowsOf search tokens indicatorFilter includeExplain)).map
      (StableSort.sort compareIndicatorRows)

end Model

/-! ## One row for each matching declaration -/

section Declarations
variable {K : Type*} [Field K] [LinearOrder K]

/-- Each matching declaration with its own match. -/
def declaredRows (context : IndicatorSearchContext K) (indicatorFilter : Option (List String)) :
    List (IndicatorSearchRow K) :=
  (if indicatorTypeSelected indicatorFilter "measure" then
    context.nova.measures.filterMap fun measure =>
      (matchMeasure context.query context.nova.canonical measure).map
        (buildMeasureIndicatorRow context measure)
    else []) ++
  if indicatorTypeSelected indicatorFilter "metric" then
    (context.nova.metric.toList ++ context.nova.metrics).filterMap fun metric =>
      (matchMetric context.query context.nova.canonical metric).map
        (buildMetricIndicatorRow context metric)
  else []

/-- Every matching measure says the same as the first one of its name. -/
def MeasuresAlike (context : IndicatorSearchContext K) : Prop :=
  ∀ measure ∈ context.nova.measures,
    (matchMeasure context.query context.nova.canonical measure).isSome = true →
      ∀ first, context.nova.measures.find? (fun other => other.name == measure.name) = some first →
        first.description = measure.description ∧ first.expression = measure.expression ∧
          first.field = measure.field

/-- Every matching metric of the list says the same as the first one of its name. -/
def MetricsAlike (context : IndicatorSearchContext K) : Prop :=
  ∀ metric ∈ context.nova.metrics,
    (matchMetric context.query context.nova.canonical metric).isSome = true →
      ∀ first, context.nova.metrics.find? (fun other => other.name == metric.name) = some first →
        first.description = metric.description ∧ first.expression = metric.expression ∧
          grainSummary (first.grain.or context.nova.grain) =
            grainSummary (metric.grain.or context.nova.grain)

/-- The single metric has its name in common with one of the list, and one of that name matches. -/
def MetricsClash (context : IndicatorSearchContext K) : Prop :=
  ∃ single, context.nova.metric = some single ∧
    (∃ metric ∈ context.nova.metrics, metric.name = single.name) ∧
      ∃ metric ∈ single :: context.nova.metrics, metric.name = single.name ∧
        (matchMetric context.query context.nova.canonical metric).isSome = true

def measureJoin (context : IndicatorSearchContext K) :
    NameJoin.Join ArchivedNovaMeasure SemanticPreviewItem (IndicatorSearchRow K) String
      (Option String × Option String × Option String) where
  key := fun measure => measure.name
  matchOf := matchMeasure context.query context.nova.canonical
  matchKey := SemanticPreviewItem.name
  build := buildMeasureIndicatorRow context
  rowKey := IndicatorSearchRow.indicatorName
  look := fun measure => (measure.description, measure.expression, measure.field)
  rowLook := fun row => (row.description, row.expression, row.field)
  matchKey_eq := matchMeasure_name
  rowKey_eq := fun _ _ => rfl
  rowLook_eq := fun _ _ => rfl
  build_congr := by
    intro measure other item hname hlook
    rw [Prod.mk.injEq, Prod.mk.injEq] at hlook
    obtain ⟨hdescription, hexpression, hfield⟩ := hlook
    unfold buildMeasureIndicatorRow
    rw [hname, hdescription, hexpression, hfield]

/-- The score of a metric depends on its grain as far as the row shows it. -/
theorem explain_congr (context : IndicatorSearchContext K) (indicatorName : String)
    (matched : SemanticPreviewItem) {grain other : Option NovaGrain}
    (h : grainSummary grain = grainSummary other) :
    indicatorMatchExplainWithGrain context indicatorName matched grain =
      indicatorMatchExplainWithGrain context indicatorName matched other := by
  have htime : ∀ (grain : Option NovaGrain) (p : String → Bool),
      (grain.any fun grain => grain.timeField.any p) = (grainSummary grain).timeField.any p := by
    intro grain p
    cases grain with
    | none => rfl
    | some grain => rfl
  have hdimensions : ∀ grain : Option NovaGrain,
      (grain.any fun grain => !grain.dimensions.isEmpty) =
        !(grainSummary grain).dimensions.isEmpty := by
    intro grain
    cases grain with
    | none => rfl
    | some grain => rfl
  unfold indicatorMatchExplainWithGrain
  rw [htime, htime, hdimensions, hdimensions, h]

def metricJoin (context : IndicatorSearchContext K) :
    NameJoin.Join ArchivedNovaMetric SemanticPreviewItem (IndicatorSearchRow K) String
      (Option String × Option String × IndicatorGrainSummary) where
  key := fun metric => metric.name
  matchOf := matchMetric context.query context.nova.canonical
  matchKey := SemanticPreviewItem.name
  build := buildMetricIndicatorRow context
  rowKey := IndicatorSearchRow.indicatorName
  look := fun metric =>
    (metric.description, metric.expression, grainSummary (metric.grain.or context.nova.grain))
  rowLook := fun row => (row.description, row.expression, row.grain)
  matchKey_eq := matchMetric_name
  rowKey_eq := fun _ _ => rfl
  rowLook_eq := fun _ _ => rfl
  build_congr := by
    intro metric other item hname hlook
    rw [Prod.mk.injEq, Prod.mk.injEq] at hlook
    obtain ⟨hdescription, hexpression, hgrain⟩ := hlook
    unfold buildMetricIndicatorRow
    dsimp only
    rw [hname, hdescription, hexpression, hgrain, explain_congr context _ item hgrain]

variable {context : IndicatorSearchContext K}

theorem measureRows_perm_iff :
    (measureRows context (matchNovaSemantics context.nova context.query)).Perm
        ((measureJoin context).declared context.nova.measures) ↔ MeasuresAlike context := by
  have hfound := (measures_perm context.nova context.query).filterMap
    ((measureJoin context).joinRow context.nova.measures)
  have halike : (measureJoin context).Alike context.nova.measures ↔ MeasuresAlike context := by
    unfold NameJoin.Join.Alike MeasuresAlike measureJoin NameJoin.Join.first
    simp only [Prod.mk.injEq]
  rw [← halike, ← NameJoin.Join.joined_perm_iff]
  exact ⟨hfound.symm.trans, hfound.trans⟩

theorem metricRows_perm_iff :
    (singleMetricRow context (matchNovaSemantics context.nova context.query) ++
        metricRows context (matchNovaSemantics context.nova context.query)).Perm
        ((metricJoin context).declared (context.nova.metric.toList ++ context.nova.metrics)) ↔
      ¬ MetricsClash context ∧ MetricsAlike context := by
  have halike : (metricJoin context).Alike context.nova.metrics ↔ MetricsAlike context := by
    unfold NameJoin.Join.Alike MetricsAlike metricJoin NameJoin.Join.first
    simp only [Prod.mk.injEq]
  rw [← halike]
  exact NameJoin.Join.rows_perm_iff (J := metricJoin context) context.nova.metric
    context.nova.metrics _ (metrics_perm context.nova context.query)

omit [Field K] [LinearOrder K] in
/-- Rows of two types are told apart. -/
theorem append_perm_iff {measures measures' metrics metrics' : List (IndicatorSearchRow K)}
    (h : ∀ row ∈ measures ++ measures', row.indicatorType = "measure")
    (h' : ∀ row ∈ metrics ++ metrics', row.indicatorType = "metric") :
    (measures ++ metrics).Perm (measures' ++ metrics') ↔
      measures.Perm measures' ∧ metrics.Perm metrics' := by
  rw [List.forall_mem_append] at h h'
  have hkeep : ∀ (type : String) (rows : List (IndicatorSearchRow K)),
      (∀ row ∈ rows, row.indicatorType = type) →
        rows.filter (fun row => row.indicatorType == type) = rows :=
    fun type rows hrows => List.filter_eq_self.mpr fun row hrow => beq_iff_eq.mpr (hrows row hrow)
  have hdrop : ∀ (type other : String) (rows : List (IndicatorSearchRow K)), other ≠ type →
      (∀ row ∈ rows, row.indicatorType = other) →
        rows.filter (fun row => row.indicatorType == type) = [] := by
    intro type other rows hne hrows
    apply List.filter_eq_nil_iff.mpr
    intro row hrow hsame
    exact hne ((hrows row hrow).symm.trans (beq_iff_eq.mp hsame))
  have hmetric : ("metric" : String) ≠ "measure" := by decide
  constructor
  · intro hperm
    have hmeasures := hperm.filter fun row => row.indicatorType == "measure"
    have hmetrics := hperm.filter fun row => row.indicatorType == "metric"
    rw [List.filter_append, List.filter_append, hkeep _ _ h.1, hkeep _ _ h.2,
      hdrop _ _ _ hmetric h'.1, hdrop _ _ _ hmetric h'.2, List.append_nil,
      List.append_nil] at hmeasures
    rw [List.filter_append, List.filter_append, hkeep _ _ h'.1, hkeep _ _ h'.2,
      hdrop _ _ _ hmetric.symm h.1, hdrop _ _ _ hmetric.symm h.2, List.nil_append,
      List.nil_append] at hmetrics
    exact ⟨hmeasures, hmetrics⟩
  · intro hperm
    exact hperm.1.append hperm.2

theorem measureRows_type (matched : NovaSemanticMatches) :
    ∀ row ∈ measureRows context matched, row.indicatorType = "measure" := by
  intro row hrow
  obtain ⟨item, -, hbuilt⟩ := List.mem_filterMap.mp hrow
  obtain ⟨measure, -, rfl⟩ := Option.map_eq_some_iff.mp hbuilt
  rfl

theorem metricRows_type (matched : NovaSemanticMatches) :
    ∀ row ∈ singleMetricRow context matched ++ metricRows context matched,
      row.indicatorType = "metric" := by
  intro row hrow
  rcases List.mem_append.mp hrow with h | h
  · obtain ⟨metric, -, hbuilt⟩ := Option.bind_eq_some_iff.mp (Option.mem_toList.mp h)
    obtain ⟨item, -, rfl⟩ := Option.map_eq_some_iff.mp hbuilt
    rfl
  · obtain ⟨item, -, hbuilt⟩ := List.mem_filterMap.mp h
    obtain ⟨metric, -, rfl⟩ := Option.map_eq_some_iff.mp hbuilt
    rfl

theorem declared_measure_type (measures : List ArchivedNovaMeasure) :
    ∀ row ∈ (measureJoin context).declared measures, row.indicatorType = "measure" := by
  intro row hrow
  obtain ⟨measure, -, hbuilt⟩ := List.mem_filterMap.mp hrow
  obtain ⟨item, -, rfl⟩ := Option.map_eq_some_iff.mp hbuilt
  rfl

theorem declared_metric_type (metrics : List ArchivedNovaMetric) :
    ∀ row ∈ (metricJoin context).declared metrics, row.indicatorType = "metric" := by
  intro row hrow
  obtain ⟨metric, -, hbuilt⟩ := List.mem_filterMap.mp hrow
  obtain ⟨item, -, rfl⟩ := Option.map_eq_some_iff.mp hbuilt
  rfl

/-- The rows of an entity are those of its matching declarations if the names allow for it. -/
theorem indicatorRows_perm_iff (indicatorFilter : Option (List String)) :
    (indicatorRows context indicatorFilter).Perm (declaredRows context indicatorFilter) ↔
      (indicatorTypeSelected indicatorFilter "measure" = true → MeasuresAlike context) ∧
        (indicatorTypeSelected indicatorFilter "metric" = true →
          ¬ MetricsClash context ∧ MetricsAlike context) := by
  rw [← measureRows_perm_iff, ← metricRows_perm_iff]
  unfold indicatorRows declaredRows
  dsimp only
  rw [append_perm_iff]
  · refine and_congr ?_ ?_
    · split
      · rename_i hselected
        exact ⟨fun h _ => h, fun h => h hselected⟩
      · rename_i hselected
        exact iff_of_true (List.Perm.refl []) fun h => absurd h hselected
    · split
      · rename_i hselected
        exact ⟨fun h _ => h, fun h => h hselected⟩
      · rename_i hselected
        exact iff_of_true (List.Perm.refl []) fun h => absurd h hselected
  · intro row hrow
    rw [List.mem_append, List.mem_ite_nil_right, List.mem_ite_nil_right] at hrow
    rcases hrow with ⟨-, h⟩ | ⟨-, h⟩
    · exact measureRows_type _ row h
    · exact declared_measure_type _ row h
  · intro row hrow
    rw [List.mem_append, List.mem_ite_nil_right, List.mem_ite_nil_right] at hrow
    rcases hrow with ⟨-, h⟩ | ⟨-, h⟩
    · exact metricRows_type _ row h
    · exact declared_metric_type _ row h

theorem indicatorRowsOf_parent {search : IndicatorSearch K} {tokens : List String}
    {indicatorFilter : Option (List String)} {includeExplain : Bool} :
    ∀ id entity, ∀ row ∈ indicatorRowsOf search tokens indicatorFilter includeExplain id entity,
      row.parentUniqueId = id := by
  intro id entity row hrow
  unfold indicatorRowsOf at hrow
  split at hrow
  · exact absurd hrow List.not_mem_nil
  · unfold indicatorRows at hrow
    dsimp only at hrow
    rw [List.mem_append, List.mem_ite_nil_right, List.mem_ite_nil_right, List.mem_append] at hrow
    rcases hrow with ⟨-, h⟩ | ⟨-, h | h⟩
    · obtain ⟨item, -, hbuilt⟩ := List.mem_filterMap.mp h
      obtain ⟨measure, -, rfl⟩ := Option.map_eq_some_iff.mp hbuilt
      rfl
    · obtain ⟨metric, -, hbuilt⟩ := Option.bind_eq_some_iff.mp (Option.mem_toList.mp h)
      obtain ⟨item, -, rfl⟩ := Option.map_eq_some_iff.mp hbuilt
      rfl
    · obtain ⟨item, -, hbuilt⟩ := List.mem_filterMap.mp h
      obtain ⟨metric, -, rfl⟩ := Option.map_eq_some_iff.mp hbuilt
      rfl

/-- The rows of a search with this parent are those of the parent's entity, sorted. -/
theorem rows_of_entity {search : IndicatorSearch K} {tokens : List String}
    {resourceFilter indicatorFilter : Option (List String)} {includeExplain : Bool}
    {rows : List (IndicatorSearchRow K)} {id : String} {entity : ArchivedEntity}
    {nova : ArchivedNovaMeta}
    (hrows : searchIndicatorRowsFromStore search tokens resourceFilter indicatorFilter
      includeExplain = .ok rows)
    (hid : id ∈ search.store.ids) (hentity : search.store.getArchived id = .ok (some entity))
    (hallowed : SearchPages.resourceTypeAllowedForSearch search.toLowercase entity.resourceType
      resourceFilter = true)
    (hnova : entity.novaMeta = some nova) :
    (rows.filter fun row => row.parentUniqueId == id).Perm
      (indicatorRows (searchContext search tokens includeExplain id entity nova)
        indicatorFilter) := by
  obtain ⟨found, hfound, rfl⟩ := map_eq_ok.mp hrows
  obtain ⟨-, rfl⟩ := scanRows_eq_ok.mp hfound
  have hfilter := (@StableSort.sort_perm _ compareIndicatorRows
    (search.store.ids.flatMap (rowsAt search.store search.toLowercase resourceFilter
      (indicatorRowsOf search tokens indicatorFilter includeExplain)))).filter
        fun row => row.parentUniqueId == id
  rw [filter_parent indicatorRowsOf_parent hid] at hfilter
  have hrow : rowsAt search.store search.toLowercase resourceFilter
      (indicatorRowsOf search tokens indicatorFilter includeExplain) id =
        indicatorRows (searchContext search tokens includeExplain id entity nova)
          indicatorFilter := by
    unfold rowsAt
    rw [hentity]
    unfold entityRows
    dsimp only
    rw [if_pos hallowed]
    unfold indicatorRowsOf
    rw [hnova]
  rwa [hrow] at hfilter

end Declarations

/-- The rows of an entity correspond to its matching declarations exactly if all matching
declarations of a name say the same, and the single metric does not share its name. -/
theorem indicator_rows_iff {K : Type*} [Field K] [LinearOrder K] (search : IndicatorSearch K)
    (tokens : List String) (resourceFilter indicatorFilter : Option (List String))
    (includeExplain : Bool) (rows : List (IndicatorSearchRow K)) (id : String)
    (entity : ArchivedEntity) (nova : ArchivedNovaMeta)
    (hrows : searchIndicatorRowsFromStore search tokens resourceFilter indicatorFilter
      includeExplain = .ok rows)
    (hid : id ∈ search.store.ids) (hentity : search.store.getArchived id = .ok (some entity))
    (hallowed : SearchPages.resourceTypeAllowedForSearch search.toLowercase entity.resourceType
      resourceFilter = true)
    (hnova : entity.novaMeta = some nova) :
    (rows.filter fun row => row.parentUniqueId == id).Perm
        (declaredRows (searchContext search tokens includeExplain id entity nova)
          indicatorFilter) ↔
      (indicatorTypeSelected indicatorFilter "measure" = true →
          MeasuresAlike (searchContext search tokens includeExplain id entity nova)) ∧
        (indicatorTypeSelected indicatorFilter "metric" = true →
          ¬ MetricsClash (searchContext search tokens includeExplain id entity nova) ∧
            MetricsAlike (searchContext search tokens includeExplain id entity nova)) := by
  have hentityRows := rows_of_entity hrows hid hentity hallowed hnova
  rw [← indicatorRows_perm_iff]
  exact ⟨hentityRows.symm.trans, hentityRows.trans⟩

section Revenue

/-- The single metric is listed again. -/
def revenueTwice : ArchivedNovaMeta where
  metric := some { name := "revenue", expression := some "sum(a)" }
  metrics := [{ name := "revenue", expression := some "sum(b)" }]

def revenueEntity : ArchivedEntity where
  novaMeta := some revenueTwice

def revenueSearch : IndicatorSearch ℚ where
  store :=
    { ids := ["model.a"]
      ids_nodup := List.nodup_singleton _
      getArchived := fun _ => .ok (some revenueEntity) }
  toLowercase := id
  tokenize := fun text => [text]
  indicatorConfig := ⟨1, 1, 1, 1, 1, 1⟩
  collectMetadataSupportSignals := fun _ _ => none
  metadataSupportBonus := fun _ => 0
  phraseMatchBonus := fun _ => 0

theorem revenueSearch_rows : ∃ rows,
    searchIndicatorRowsFromStore revenueSearch ["revenue"] none none false = .ok rows ∧
      rows.length = 3 := by
  have hlength : (searchIndicatorRowsFromStore revenueSearch ["revenue"] none none
      false).toOption.map List.length = some 3 := by
    decide +kernel
  cases hrows : searchIndicatorRowsFromStore revenueSearch ["revenue"] none none false with
  | error error =>
      rw [hrows] at hlength
      contradiction
  | ok rows =>
      rw [hrows] at hlength
      exact ⟨rows, rfl, Option.some.inj hlength⟩

theorem indicator_rows_revenue : ∃ rows,
    searchIndicatorRowsFromStore revenueSearch ["revenue"] none none false = .ok rows ∧
      ((rows.filter fun row => row.parentUniqueId == "model.a").Perm
          (declaredRows (searchContext revenueSearch ["revenue"] false "model.a" revenueEntity
            revenueTwice) none) ↔
        (indicatorTypeSelected none "measure" = true →
            MeasuresAlike (searchContext revenueSearch ["revenue"] false "model.a" revenueEntity
              revenueTwice)) ∧
          (indicatorTypeSelected none "metric" = true →
            ¬ MetricsClash (searchContext revenueSearch ["revenue"] false "model.a"
                revenueEntity revenueTwice) ∧
              MetricsAlike (searchContext revenueSearch ["revenue"] false "model.a" revenueEntity
                revenueTwice))) := by
  obtain ⟨rows, hrows, -⟩ := revenueSearch_rows
  exact ⟨rows, hrows, indicator_rows_iff revenueSearch ["revenue"] none none false rows "model.a"
    revenueEntity revenueTwice hrows (List.mem_singleton_self _) rfl rfl rfl⟩

/-- Two declarations match, and there are three rows. -/
theorem revenue_row_repeated :
    ¬ ∀ (search : IndicatorSearch ℚ) (tokens : List String) (rows : List (IndicatorSearchRow ℚ))
      (id : String) (entity : ArchivedEntity) (nova : ArchivedNovaMeta),
      searchIndicatorRowsFromStore search tokens none none false = .ok rows →
        search.store.ids = [id] → search.store.getArchived id = .ok (some entity) →
          entity.novaMeta = some nova →
            rows.Perm (declaredRows (searchContext search tokens false id entity nova) none) := by
  intro h
  obtain ⟨rows, hrows, hlength⟩ := revenueSearch_rows
  have hperm := h revenueSearch ["revenue"] rows "model.a" revenueEntity revenueTwice hrows rfl rfl
    rfl
  have hdeclared : (declaredRows (searchContext revenueSearch ["revenue"] false "model.a"
      revenueEntity revenueTwice) none).length = 2 := by
    decide
  have hcount := hperm.length_eq
  rw [hlength, hdeclared] at hcount
  contradiction

end Revenue

end DbtNova.IndicatorMatches
