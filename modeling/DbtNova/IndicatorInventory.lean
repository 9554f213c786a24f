import DbtNova.IndicatorRows
import DbtNova.RowPages
import DbtNova.StoreScan

/-!
# Listing indicators

`indicator_inventory` of `tools/search/indicators.rs`: the measures and metrics that the metadata
of the entities declare.
-/
namespace DbtNova.IndicatorInventory
open StoreScan RowPages SearchPages IndicatorRows

structure ManifestSearch (K : Type*) where
  config : RankFusion.SearchConfig K
  store : EntityStore
  toLowercase : String → String

structure IndicatorInventoryParams where
  indicatorTypes : List String
  resourceTypes : List String
  canonicalOnly : Bool
  limit : Option ℕ
  offset : ℕ

structure IndicatorInventoryRow where
  indicatorName : String
  indicatorType : String
  canonical : Bool
  synonyms : List String
  description : Option String
  expression : Option String
  field : Option String
  measureType : Option String
  template : Option Bool
  parentUniqueId : String
  parentName : String
  parentResourceType : String
  relationName : Option String
  execution : IndicatorExecutionMetadata
  domains : List String
  grain : IndicatorGrainSummary

def semanticLayerIndicatorExecution (source : String) : IndicatorExecutionMetadata where
  indicatorSource := source
  executionSurface := "semantic_layer"
  queryable := true
  directSqlQueryable := false
  queryableVia := "metricflow"
  executionNote := some "Use MetricFlow or the dbt Semantic Layer for execution."

def indicatorExecutionMetadata (entity : ArchivedEntity) : IndicatorExecutionMetadata :=
  if entity.resourceType = some "metric" then semanticLayerIndicatorExecution "dbt_metric"
  else if entity.resourceType = some "semantic_model" then
    semanticLayerIndicatorExecution "dbt_semantic_model"
  else if entity.relationName.isSome then
    { indicatorSource := "nova_meta"
      executionSurface := "relation"
      queryable := true
      directSqlQueryable := true
      queryableVia := "relation_name"
      executionNote := none }
  else
    { indicatorSource := "nova_meta"
      executionSurface := "metadata_only"
      queryable := false
      directSqlQueryable := false
      queryableVia := "none"
      executionNote :=
        some "No deterministic relation or Semantic Layer execution surface is available." }

def grainSummary : Option NovaGrain → IndicatorGrainSummary
  | none => ⟨[], none, []⟩
  | some grain => ⟨grain.primaryKey, grain.timeField, grain.dimensions⟩

def inventoryIndicatorIsCanonical (entityCanonical indicatorCanonical : Bool) : Bool :=
  entityCanonical || indicatorCanonical

/-- The types one after the other; blank ones are passed over. -/
def insertIndicatorTypes (normalized : List String) : List String → Result (List String)
  | [] => .ok normalized
  | value :: values =>
      let candidate := Text.toAsciiLowercase (Text.trim value)
      if candidate.isEmpty then insertIndicatorTypes normalized values
      else if candidate = "metric" ∨ candidate = "measure" then
        insertIndicatorTypes (normalized.insert candidate) values
      else
        .error (.invalidParams ("Unsupported indicator type '" ++ value ++
          "'. Expected one of: metric, measure"))

def normalizedIndicatorTypeFilter (indicatorTypes : List String) :
    Result (Option (List String)) :=
  (insertIndicatorTypes [] indicatorTypes).map fun normalized =>
    if normalized.isEmpty then none else some normalized

def indicatorTypeSelected (indicatorFilter : Option (List String)) (indicatorType : String) :
    Bool :=
  indicatorFilter.all fun values => values.contains indicatorType

def buildMeasureInventoryRow (uniqueId : String) (entity : ArchivedEntity)
    (nova : ArchivedNovaMeta) (measure : ArchivedNovaMeasure) (canonical : Bool) :
    IndicatorInventoryRow where
  indicatorName := measure.name
  indicatorType := "measure"
  canonical := canonical
  synonyms := measure.synonyms
  description := measure.description
  expression := measure.expression
  field := measure.field
  measureType := measure.measureType
  template := none
  parentUniqueId := uniqueId
  parentName := entity.name.getD uniqueId
  parentResourceType := entity.resourceType.getD "unknown"
  relationName := entity.relationName
  execution := indicatorExecutionMetadata entity
  domains := nova.domains
  grain := grainSummary nova.grain

def buildMetricInventoryRow (uniqueId : String) (entity : ArchivedEntity)
    (nova : ArchivedNovaMeta) (metric : ArchivedNovaMetric) (canonical : Bool) :
    IndicatorInventoryRow where
  indicatorName := metric.name
  indicatorType := "metric"
  canonical := canonical
  synonyms := metric.synonyms
  description := metric.description
  expression := metric.expression
  field := none
  measureType := none
  template := some metric.template
  parentUniqueId := uniqueId
  parentName := entity.name.getD uniqueId
  parentResourceType := entity.resourceType.getD "unknown"
  relationName := entity.relationName
  execution := indicatorExecutionMetadata entity
  domains := nova.domains
  grain := grainSummary (metric.grain.or nova.grain)

def compareIndicatorInventoryRows (left right : IndicatorInventoryRow) : Ordering :=
  (compare right.canonical left.canonical).then <|
    (compare left.parentUniqueId right.parentUniqueId).then <|
      (compare left.indicatorType right.indicatorType).then
        (compare left.indicatorName right.indicatorName)

/-- A declaration's row, unless only canonical ones are asked for. -/
def inventoryRow (nova : ArchivedNovaMeta) (canonicalOnly indicatorCanonical : Bool)
    (build : Bool → IndicatorInventoryRow) : Option IndicatorInventoryRow :=
  let canonical := inventoryIndicatorIsCanonical nova.canonical indicatorCanonical
  if canonicalOnly && !canonical then none else some (build canonical)

/-- What the loop of `indicator_inventory_rows_from_store` collects from an entity. -/
def indicatorInventoryRowsOf (indicatorFilter : Option (List String)) (canonicalOnly : Bool)
    (uniqueId : String) (entity : ArchivedEntity) : List IndicatorInventoryRow :=
  match entity.novaMeta with
  | none => []
  | some nova =>
      let measureRow := fun measure : ArchivedNovaMeasure =>
        inventoryRow nova canonicalOnly measure.canonical
          (buildMeasureInventoryRow uniqueId entity nova measure)
      let metricRow := fun metric : ArchivedNovaMetric =>
        inventoryRow nova canonicalOnly metric.canonical
          (buildMetricInventoryRow uniqueId entity nova metric)
      (if indicatorTypeSelected indicatorFilter "measure" then nova.measures.filterMap measureRow
        else []) ++
      (if indicatorTypeSelected indicatorFilter "metric" then
          nova.metric.toList.filterMap metricRow ++ nova.metrics.filterMap metricRow
        else [])

section Model
variable {K : Type*}

def indicatorInventoryRowsFromStore (search : ManifestSearch K)
    (resourceFilter : Option (List String)) (indicatorFilter : Option (List String))
    (canonicalOnly : Bool) : Result (List IndicatorInventoryRow) :=
  (scanRows search.store search.toLowercase resourceFilter
    (indicatorInventoryRowsOf indicatorFilter canonicalOnly)).map
      (StableSort.sort compareIndicatorInventoryRows)

/-- All rows that a request is about. -/
def indicatorInventoryList (search : ManifestSearch K) (params : IndicatorInventoryParams) :
    Result (List IndicatorInventoryRow) :=
  match normalizedIndicatorTypeFilter params.indicatorTypes with
  | .error error => .error error
  | .ok indicatorFilter =>
      indicatorInventoryRowsFromStore search
        (normalizedResourceTypeFilter search.toLowercase params.resourceTypes) indicatorFilter
        params.canonicalOnly

def indicatorInventory (search : ManifestSearch K) (params : IndicatorInventoryParams) :
    Result (SuccessResponse (List IndicatorInventoryRow)) :=
  if search.config.maxOffset < params.offset then
    .error (offsetExceeded search.config.maxOffset)
  else
    (indicatorInventoryList search params).map
      (pageRows (pageLimit search.config params.limit) params.offset)

end Model

/-! ## The list behind the pages -/

instance : Std.TransCmp compareIndicatorInventoryRows :=
  inferInstanceAs (Std.TransCmp (compareLex
    (fun left right => compareOn IndicatorInventoryRow.canonical right left)
    (compareLex (compareOn IndicatorInventoryRow.parentUniqueId)
      (compareLex (compareOn IndicatorInventoryRow.indicatorType)
        (compareOn IndicatorInventoryRow.indicatorName)))))

theorem inventory_parent {left right : IndicatorInventoryRow}
    (h : compareIndicatorInventoryRows left right = .eq) :
    left.parentUniqueId = right.parentUniqueId := by
  unfold compareIndicatorInventoryRows at h
  rw [Ordering.then_eq_eq, Ordering.then_eq_eq] at h
  exact Std.LawfulEqOrd.eq_of_compare h.2.1

theorem inventoryRow_parent {nova : ArchivedNovaMeta} {canonicalOnly indicatorCanonical : Bool}
    {build : Bool → IndicatorInventoryRow} {row : IndicatorInventoryRow} {id : String}
    (h : inventoryRow nova canonicalOnly indicatorCanonical build = some row)
    (hbuild : ∀ canonical, (build canonical).parentUniqueId = id) : row.parentUniqueId = id := by
  unfold inventoryRow at h
  dsimp only at h
  split at h
  · contradiction
  · rw [← Option.some.inj h]
    exact hbuild _

theorem row_parent {indicatorFilter : Option (List String)} {canonicalOnly : Bool} :
    ∀ id entity, ∀ row ∈ indicatorInventoryRowsOf indicatorFilter canonicalOnly id entity,
      row.parentUniqueId = id := by
  intro id entity row hrow
  unfold indicatorInventoryRowsOf at hrow
  cases hnova : entity.novaMeta with
  | none =>
      rw [hnova] at hrow
      exact absurd hrow List.not_mem_nil
  | some nova =>
      rw [hnova] at hrow
      dsimp only at hrow
      rw [List.mem_append, List.mem_ite_nil_right, List.mem_ite_nil_right, List.mem_append] at hrow
      rcases hrow with ⟨-, h⟩ | ⟨-, h | h⟩
      all_goals
        obtain ⟨_, -, hbuilt⟩ := List.mem_filterMap.mp h
        exact inventoryRow_parent hbuilt fun _ => rfl

section Lists
variable {K : Type*} {search : ManifestSearch K}

def ManifestSearch.reordered (search : ManifestSearch K) {ids : List String}
    (h : search.store.ids.Perm ids) : ManifestSearch K :=
  { search with store := search.store.reordered h }

theorem indicatorInventoryList_reordered (params : IndicatorInventoryParams) {ids : List String}
    (h : search.store.ids.Perm ids) :
    (indicatorInventoryList search params).toOption =
      (indicatorInventoryList (search.reordered h) params).toOption := by
  unfold indicatorInventoryList
  cases normalizedIndicatorTypeFilter params.indicatorTypes with
  | error error => rfl
  | ok indicatorFilter =>
      exact sorted_scan_eq IndicatorInventoryRow.parentUniqueId row_parent
        (fun _ _ => inventory_parent) h

theorem indicatorInventory_pages {params : IndicatorInventoryParams}
    {rows : List IndicatorInventoryRow} (h : indicatorInventoryList search params = .ok rows) :
    PagesOf (fun offset => indicatorInventory search { params with offset := offset }) id some rows
      search.config.maxOffset (pageLimit search.config params.limit) := by
  apply pagesOf_rows (zero_lt_pageLimit _ _)
  · intro offset hoffset
    unfold indicatorInventory
    rw [if_neg (Nat.not_lt.mpr hoffset)]
    have hlist : indicatorInventoryList search { params with offset := offset } = .ok rows := h
    rw [hlist]
    rfl
  · intro offset hoffset
    unfold indicatorInventory
    exact if_pos hoffset

end Lists

end DbtNova.IndicatorInventory
