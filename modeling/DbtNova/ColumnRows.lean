import DbtNova.RowPages
import DbtNova.StoreScan

/-!
# Searching and listing columns

`search_columns` and `column_inventory` of `tools/search/columns.rs`. Scores are those of an
ordered field in place of `f32`.
-/
namespace DbtNova.ColumnRows
open StoreScan RowPages SearchPages

structure ManifestSearch (K : Type*) where
  config : RankFusion.SearchConfig K
  maxQueryLength : ℕ
  store : EntityStore
  /-- `tokenize_alnum_lowercase` with the configured length -/
  tokenize : String → List String
  toLowercase : String → String

structure SearchColumnsParams (K : Type*) where
  query : String
  resourceTypes : List String
  roles : List String
  semanticTypes : List String
  minScore : Option K
  limit : Option ℕ
  offset : ℕ

structure ColumnInventoryParams where
  resourceTypes : List String
  roles : List String
  semanticTypes : List String
  annotatedOnly : Bool
  limit : Option ℕ
  offset : ℕ

structure ColumnSearchMatch (K : Type*) where
  matchType : String
  matchedValue : Option String
  score : K

structure ColumnInventoryRow where
  columnName : String
  annotated : Bool
  description : Option String
  role : Option String
  semanticType : Option String
  synonyms : List String
  exampleValues : List String
  primaryKey : Bool
  parentUniqueId : String
  parentName : String
  parentResourceType : String
  relationName : Option String
  domains : List String

structure ColumnSearchRow (K : Type*) extends ColumnInventoryRow where
  matchType : String
  score : K
  matchedValue : Option String

def normalizedValueFilter (toLowercase : String → String) (values : List String) :
    Option (List String) :=
  normalizedResourceTypeFilter toLowercase values

/-- The last of several summaries of one name counts. -/
def columnSummary (entity : ArchivedEntity) (columnName : String) :
    Option ArchivedColumnMetaSummary :=
  entity.columnMeta.reverse.find? fun summary => summary.name == columnName

def columnIsAnnotated (summary : Option ArchivedColumnMetaSummary) : Bool :=
  summary.any fun summary =>
    summary.role.isSome || summary.semanticType.isSome || !summary.synonyms.isEmpty ||
      !summary.exampleValues.isEmpty

def columnMatchesFilters (toLowercase : String → String)
    (summary : Option ArchivedColumnMetaSummary) (roleFilter : Option (List String))
    (semanticTypeFilter : Option (List String)) (annotatedOnly : Bool) : Bool :=
  if annotatedOnly && !columnIsAnnotated summary then false
  else
    resourceTypeAllowedForSearch toLowercase
        (summary.bind ArchivedColumnMetaSummary.role) roleFilter &&
      resourceTypeAllowedForSearch toLowercase
        (summary.bind ArchivedColumnMetaSummary.semanticType) semanticTypeFilter

def buildColumnInventoryRow (uniqueId : String) (entity : ArchivedEntity) (columnName : String)
    (summary : Option ArchivedColumnMetaSummary) : ColumnInventoryRow where
  columnName := columnName
  annotated := columnIsAnnotated summary
  description := summary.bind ArchivedColumnMetaSummary.description
  role := summary.bind ArchivedColumnMetaSummary.role
  semanticType := summary.bind ArchivedColumnMetaSummary.semanticType
  synonyms := (summary.map ArchivedColumnMetaSummary.synonyms).getD []
  exampleValues := (summary.map ArchivedColumnMetaSummary.exampleValues).getD []
  primaryKey := summary.any ArchivedColumnMetaSummary.primaryKey
  parentUniqueId := uniqueId
  parentName := entity.name.getD uniqueId
  parentResourceType := entity.resourceType.getD "unknown"
  relationName := entity.relationName
  domains := (entity.novaMeta.map ArchivedNovaMeta.domains).getD []

def compareColumnInventoryRows (left right : ColumnInventoryRow) : Ordering :=
  (compare left.parentUniqueId right.parentUniqueId).then
    (compare left.columnName right.columnName)

/-- The loop of `column_inventory_rows_from_store` over the columns of an entity. -/
def columnInventoryRowsOf (toLowercase : String → String) (roleFilter : Option (List String))
    (semanticTypeFilter : Option (List String)) (annotatedOnly : Bool) (uniqueId : String)
    (entity : ArchivedEntity) : List ColumnInventoryRow :=
  entity.columnNames.filterMap fun columnName =>
    let summary := columnSummary entity columnName
    if columnMatchesFilters toLowercase summary roleFilter semanticTypeFilter annotatedOnly then
      some (buildColumnInventoryRow uniqueId entity columnName summary)
    else none

section Model
variable {K : Type*} [Field K] [LinearOrder K]

def consider (best : Option (ColumnSearchMatch K)) (candidate : ColumnSearchMatch K) :
    Option (ColumnSearchMatch K) :=
  match best with
  | none => some candidate
  | some current => if candidate.score ≤ current.score then some current else some candidate

/-- A candidate of this type, if the value shares tokens with the query. -/
def valueMatch (tokenize : String → List String) (tokenSet : List String) (matchType : String)
    (base : K) (value : String) : Option (ColumnSearchMatch K) :=
  (tokenOverlapCount tokenize tokenSet value).map fun overlap =>
    { matchType := matchType
      matchedValue := some value
      score := base + RankFusion.usizeToF32 overlap }

def bestColumnSearchMatch (tokenize : String → List String) (tokenSet : List String)
    (columnName : String) (summary : Option ArchivedColumnMetaSummary) :
    Option (ColumnSearchMatch K) :=
  let matchOf := fun matchType base (values : List String) =>
    values.filterMap (valueMatch (K := K) tokenize tokenSet matchType base)
  let candidates :=
    matchOf "name" ((6 : ℕ) : K) [columnName] ++
      match summary with
      | none => []
      | some summary =>
          matchOf "synonym" (((11 : ℕ) : K) / ((2 : ℕ) : K)) summary.synonyms ++
            matchOf "description" (((5 : ℕ) : K) / ((2 : ℕ) : K)) summary.description.toList ++
            matchOf "role" ((4 : ℕ) : K) summary.role.toList ++
            matchOf "semantic_type" (((9 : ℕ) : K) / ((2 : ℕ) : K)) summary.semanticType.toList ++
            matchOf "example_value" (((17 : ℕ) : K) / ((4 : ℕ) : K)) summary.exampleValues
  candidates.foldl consider none

def columnParentContextBonus (tokenize : String → List String) (tokenSet : List String)
    (entity : ArchivedEntity) : K :=
  let bonus := fun (values : List String) (weight : K) =>
    ((values.filterMap (tokenOverlapCount tokenize tokenSet)).map fun count =>
      RankFusion.usizeToF32 count * weight).sum
  let nameBonus := bonus entity.name.toList ((5 : ℕ) : K)⁻¹
  let relationBonus := bonus entity.relationName.toList ((10 : ℕ) : K)⁻¹
  let domainBonus := bonus ((entity.novaMeta.map ArchivedNovaMeta.domains).getD [])
    (((3 : ℕ) : K) / ((20 : ℕ) : K))
  let useCaseBonus := bonus ((entity.novaMeta.map ArchivedNovaMeta.useCases).getD [])
    ((10 : ℕ) : K)⁻¹
  min (nameBonus + relationBonus + domainBonus + useCaseBonus) (((3 : ℕ) : K) / ((2 : ℕ) : K))

def buildColumnSearchRow (tokenize : String → List String) (tokenSet : List String)
    (uniqueId : String) (entity : ArchivedEntity) (columnName : String)
    (summary : Option ArchivedColumnMetaSummary) (searchMatch : ColumnSearchMatch K) :
    ColumnSearchRow K :=
  { buildColumnInventoryRow uniqueId entity columnName summary with
    matchType := searchMatch.matchType
    score := max (searchMatch.score + columnParentContextBonus tokenize tokenSet entity) 0
    matchedValue := searchMatch.matchedValue }

def compareColumnSearchRows (left right : ColumnSearchRow K) : Ordering :=
  (RankFusion.compareScoresDesc left.score right.score).then <|
    (compare left.parentUniqueId right.parentUniqueId).then <|
      (compare left.columnName right.columnName).then (compare left.matchType right.matchType)

/-- The loop of `search_column_rows_from_store` over the columns of an entity. -/
def columnSearchRowsOf (search : ManifestSearch K) (tokenSet : List String)
    (roleFilter : Option (List String)) (semanticTypeFilter : Option (List String))
    (uniqueId : String) (entity : ArchivedEntity) : List (ColumnSearchRow K) :=
  entity.columnNames.filterMap fun columnName =>
    let summary := columnSummary entity columnName
    if columnMatchesFilters search.toLowercase summary roleFilter semanticTypeFilter false then
      (bestColumnSearchMatch search.tokenize tokenSet columnName summary).map
        (buildColumnSearchRow search.tokenize tokenSet uniqueId entity columnName summary)
    else none

def searchColumnRowsFromStore (search : ManifestSearch K) (tokenSet : List String)
    (resourceFilter : Option (List String)) (roleFilter : Option (List String))
    (semanticTypeFilter : Option (List String)) : Result (List (ColumnSearchRow K)) :=
  (scanRows search.store search.toLowercase resourceFilter
    (columnSearchRowsOf search tokenSet roleFilter semanticTypeFilter)).map
      (StableSort.sort compareColumnSearchRows)

def columnInventoryRowsFromStore (search : ManifestSearch K)
    (resourceFilter : Option (List String)) (roleFilter : Option (List String))
    (semanticTypeFilter : Option (List String)) (annotatedOnly : Bool) :
    Result (List ColumnInventoryRow) :=
  (scanRows search.store search.toLowercase resourceFilter
    (columnInventoryRowsOf search.toLowercase roleFilter semanticTypeFilter annotatedOnly)).map
      (StableSort.sort compareColumnInventoryRows)

def searchColumns (search : ManifestSearch K) (params : SearchColumnsParams K) :
    Result (SuccessResponse (List (ColumnSearchRow K))) :=
  if search.maxQueryLength < params.query.length then
    .error (.invalidParams ("Query exceeds maximum length of " ++ toString search.maxQueryLength ++
      " characters"))
  else if search.config.maxOffset < params.offset then
    .error (offsetExceeded search.config.maxOffset)
  else
    let tokens := search.tokenize params.query
    if tokens.isEmpty then .error (.invalidParams "Query too short or invalid")
    else
      (searchColumnRowsFromStore search tokens
        (normalizedResourceTypeFilter search.toLowercase params.resourceTypes)
        (normalizedValueFilter search.toLowercase params.roles)
        (normalizedValueFilter search.toLowercase params.semanticTypes)).map fun rows =>
          pageRows (pageLimit search.config params.limit) params.offset
            (rows.filter fun row =>
              params.minScore.all fun minScore => decide (minScore ≤ row.score))

def columnInventory (search : ManifestSearch K) (params : ColumnInventoryParams) :
    Result (SuccessResponse (List ColumnInventoryRow)) :=
  if search.config.maxOffset < params.offset then
    .error (offsetExceeded search.config.maxOffset)
  else
    (columnInventoryRowsFromStore search
      (normalizedResourceTypeFilter search.toLowercase params.resourceTypes)
      (normalizedValueFilter search.toLowercase params.roles)
      (normalizedValueFilter search.toLowercase params.semanticTypes) params.annotatedOnly).map
        (pageRows (pageLimit search.config params.limit) params.offset)

end Model

/-! ## The lists behind the pages -/

instance : Std.TransCmp compareColumnInventoryRows :=
  inferInstanceAs (Std.TransCmp (compareLex (compareOn ColumnInventoryRow.parentUniqueId)
    (compareOn ColumnInventoryRow.columnName)))

theorem inventory_parent {left right : ColumnInventoryRow}
    (h : compareColumnInventoryRows left right = .eq) :
    left.parentUniqueId = right.parentUniqueId := by
  unfold compareColumnInventoryRows at h
  rw [Ordering.then_eq_eq] at h
  exact Std.LawfulEqOrd.eq_of_compare h.1

section Lists
variable {K : Type*} [Field K] [LinearOrder K] {search : ManifestSearch K}

instance : Std.TransCmp (compareColumnSearchRows (K := K)) :=
  inferInstanceAs (Std.TransCmp (compareLex
    (fun left right => compareOn (fun row : ColumnSearchRow K => row.score) right left)
    (compareLex (compareOn fun row => row.parentUniqueId)
      (compareLex (compareOn fun row => row.columnName) (compareOn fun row => row.matchType)))))

omit [Field K] in
theorem search_parent {left right : ColumnSearchRow K}
    (h : compareColumnSearchRows left right = .eq) :
    left.parentUniqueId = right.parentUniqueId := by
  unfold compareColumnSearchRows at h
  rw [Ordering.then_eq_eq, Ordering.then_eq_eq] at h
  exact Std.LawfulEqOrd.eq_of_compare h.2.1

def ManifestSearch.reordered (search : ManifestSearch K) {ids : List String}
    (h : search.store.ids.Perm ids) : ManifestSearch K :=
  { search with store := search.store.reordered h }

/-- All rows that a request of `search_columns` is about. -/
def columnSearchList (search : ManifestSearch K) (params : SearchColumnsParams K) :
    Result (List (ColumnSearchRow K)) :=
  if search.maxQueryLength < params.query.length then
    .error (.invalidParams ("Query exceeds maximum length of " ++ toString search.maxQueryLength ++
      " characters"))
  else if (search.tokenize params.query).isEmpty then
    .error (.invalidParams "Query too short or invalid")
  else
    (searchColumnRowsFromStore search (search.tokenize params.query)
      (normalizedResourceTypeFilter search.toLowercase params.resourceTypes)
      (normalizedValueFilter search.toLowercase params.roles)
      (normalizedValueFilter search.toLowercase params.semanticTypes)).map
        (List.filter fun row => params.minScore.all fun minScore => decide (minScore ≤ row.score))

/-- All rows that a request of `column_inventory` is about. -/
def columnInventoryList (search : ManifestSearch K) (params : ColumnInventoryParams) :
    Result (List ColumnInventoryRow) :=
  columnInventoryRowsFromStore search
    (normalizedResourceTypeFilter search.toLowercase params.resourceTypes)
    (normalizedValueFilter search.toLowercase params.roles)
    (normalizedValueFilter search.toLowercase params.semanticTypes) params.annotatedOnly

omit [Field K] [LinearOrder K] in
theorem inventory_row_parent {toLowercase : String → String}
    {roleFilter semanticTypeFilter : Option (List String)} {annotatedOnly : Bool} :
    ∀ id entity, ∀ row ∈ columnInventoryRowsOf toLowercase roleFilter semanticTypeFilter
      annotatedOnly id entity, row.parentUniqueId = id := by
  intro id entity row hrow
  obtain ⟨columnName, -, hbuilt⟩ := List.mem_filterMap.mp hrow
  dsimp only at hbuilt
  split at hbuilt
  · rw [← Option.some.inj hbuilt]
    rfl
  · contradiction

theorem search_row_parent {tokenSet : List String}
    {roleFilter semanticTypeFilter : Option (List String)} :
    ∀ id entity, ∀ row ∈ columnSearchRowsOf search tokenSet roleFilter semanticTypeFilter id entity,
      row.parentUniqueId = id := by
  intro id entity row hrow
  obtain ⟨columnName, -, hbuilt⟩ := List.mem_filterMap.mp hrow
  dsimp only at hbuilt
  split at hbuilt
  · obtain ⟨searchMatch, -, rfl⟩ := Option.map_eq_some_iff.mp hbuilt
    rfl
  · contradiction

omit [Field K] [LinearOrder K] in
theorem columnInventoryList_reordered (params : ColumnInventoryParams) {ids : List String}
    (h : search.store.ids.Perm ids) :
    (columnInventoryList search params).toOption =
      (columnInventoryList (search.reordered h) params).toOption :=
  sorted_scan_eq ColumnInventoryRow.parentUniqueId inventory_row_parent
    (fun _ _ => inventory_parent) h

theorem columnSearchList_reordered (params : SearchColumnsParams K) {ids : List String}
    (h : search.store.ids.Perm ids) :
    (columnSearchList search params).toOption =
      (columnSearchList (search.reordered h) params).toOption := by
  have hrows : ∀ tokenSet resourceFilter roleFilter semanticTypeFilter,
      (searchColumnRowsFromStore search tokenSet resourceFilter roleFilter
        semanticTypeFilter).toOption =
      (searchColumnRowsFromStore (search.reordered h) tokenSet resourceFilter roleFilter
        semanticTypeFilter).toOption := by
    intro tokenSet resourceFilter roleFilter semanticTypeFilter
    exact sorted_scan_eq (fun row => row.parentUniqueId) search_row_parent
      (fun _ _ => search_parent) h
  unfold columnSearchList
  have hsame : (search.reordered h).maxQueryLength = search.maxQueryLength ∧
      (search.reordered h).tokenize = search.tokenize ∧
        (search.reordered h).toLowercase = search.toLowercase := ⟨rfl, rfl, rfl⟩
  rw [hsame.1, hsame.2.1, hsame.2.2]
  split
  · rfl
  · split
    · rfl
    · rw [toOption_map, toOption_map, hrows]

omit [Field K] [LinearOrder K] in
theorem columnInventory_pages {params : ColumnInventoryParams} {rows : List ColumnInventoryRow}
    (h : columnInventoryList search params = .ok rows) :
    PagesOf (fun offset => columnInventory search { params with offset := offset }) id some rows
      search.config.maxOffset (pageLimit search.config params.limit) := by
  apply pagesOf_rows (zero_lt_pageLimit _ _)
  · intro offset hoffset
    unfold columnInventory
    rw [if_neg (Nat.not_lt.mpr hoffset)]
    unfold columnInventoryList at h
    rw [h]
    rfl
  · intro offset hoffset
    unfold columnInventory
    exact if_pos hoffset

theorem searchColumns_pages {params : SearchColumnsParams K} {rows : List (ColumnSearchRow K)}
    (h : columnSearchList search params = .ok rows) :
    PagesOf (fun offset => searchColumns search { params with offset := offset }) id some rows
      search.config.maxOffset (pageLimit search.config params.limit) := by
  unfold columnSearchList at h
  by_cases hquery : search.maxQueryLength < params.query.length
  · rw [if_pos hquery] at h
    contradiction
  · by_cases htokens : (search.tokenize params.query).isEmpty = true
    · rw [if_neg hquery, if_pos htokens] at h
      contradiction
    · rw [if_neg hquery, if_neg htokens] at h
      apply pagesOf_rows (zero_lt_pageLimit _ _)
      · intro offset hoffset
        unfold searchColumns
        dsimp only
        rw [if_neg hquery, if_neg (Nat.not_lt.mpr hoffset), if_neg htokens]
        obtain ⟨found, hfound, rfl⟩ := map_eq_ok.mp h
        rw [hfound]
        rfl
      · intro offset hoffset
        unfold searchColumns
        dsimp only
        rw [if_neg hquery, if_pos hoffset]

end Lists

end DbtNova.ColumnRows
