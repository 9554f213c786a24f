import DbtNova.ColumnLineageOrder
import DbtNova.LineageCache
import DbtNova.Tally
import Mathlib.Data.Set.Finite.Lattice

/-!
# The impact of a change

`get_impact` of `tools/lineage.rs` counts what another tool answers: `get_lineage`, or
`get_column_lineage` where a column is named. Both cut their answers at a limit.
-/
namespace DbtNova.Impact
open Text Lineage LineageCache JsonValue

/-- A manifest as the two lineage tools read it. -/
structure ManifestSearch (K : Type*) where
  settings : LineageSettings
  lineage : LineageSearch
  columns : ColumnLineage.ManifestSearch K
  childMap_eq : columns.childMap = lineage.index.childMap

/-- A request whose entity has been resolved. -/
structure GetImpactParams where
  uniqueId : String
  entity : ColumnLineage.Entity
  column : Option String

inductive ImpactError
  | lineage (error : DbtNovaError)
  | columnLineage (error : ColumnLineage.LineageError)
  | invalidParams (message : String)

structure ImpactResponse (K : Type*) where
  uniqueId : String
  column : Option String
  downstreamCount : ℕ
  columnCount : ℕ
  byType : List (String × ℕ)
  impactScore : K
  truncated : Bool

/-- The type that an entity of an answer names. -/
def resourceType (item : JsonValue) : String := (item.getStr "resource_type").getD "unknown"

def lineageParams : GetLineageParams := ⟨"downstream", none, []⟩

def columnLineageParams {K : Type*} (search : ManifestSearch K) (uniqueId column : String) :
    ColumnLineage.GetColumnLineageParams where
  startId := uniqueId
  columnName := column
  direction := "downstream"
  depth := none
  confidence := some search.columns.config.defaultConfidence

/-- The column of the request, unless it is blank. -/
def namedColumn (params : GetImpactParams) : Option String :=
  (params.column.map trim).filter (!·.isEmpty)

section Model
variable {K : Type*} [Field K] [LinearOrder K]

/-- The answer of `get_lineage` counted. -/
def entityImpact (params : GetImpactParams) (answer : LineageAnswer) : ImpactResponse K :=
  let entityColumnCount := params.entity.columnNames.length
  let downstreamCount := answer.entities.length
  { uniqueId := params.uniqueId
    column := none
    downstreamCount := downstreamCount
    columnCount := entityColumnCount
    byType := Tally.tally (answer.entities.map resourceType)
    impactScore := (downstreamCount : K) * (entityColumnCount : K)
    truncated := false }

def rowType (row : ColumnLineage.LineageRow K) : String :=
  (row.resourceType.bind asStr).getD "unknown"

/-- The first row of an entity counts it. -/
def countRow (seen : List String × List (String × ℕ)) (row : ColumnLineage.LineageRow K) :
    List String × List (String × ℕ) :=
  if row.uniqueId ∈ seen.1 then seen
  else (row.uniqueId :: seen.1, Tally.bump seen.2 (rowType row))

/-- The answer of `get_column_lineage` counted. -/
def columnImpact (params : GetImpactParams) (column : String)
    (answer : ColumnLineage.LineageAnswer K) : ImpactResponse K :=
  let (downstreamIds, byType) := answer.lineage.foldl countRow ([], [])
  { uniqueId := params.uniqueId
    column := some column
    downstreamCount := downstreamIds.length
    columnCount := 1
    byType := byType
    impactScore := (downstreamIds.length : K)
    truncated := false }

def getColumnImpact (fuel : ℕ) (search : ManifestSearch K) (params : GetImpactParams)
    (column : String) (order : ∀ request, ColumnLineage.HashOrder search.columns request) :
    Except ImpactError (Option (ImpactResponse K)) :=
  match ColumnLineage.getColumnLineage fuel search.columns
      (columnLineageParams search params.uniqueId column) order with
  | .error error => .error (.columnLineage error)
  | .ok answer => .ok (answer.map (columnImpact params column))

/-- The response; `none` where the fuel of the traversal runs out. -/
def getImpact (fuel : ℕ) (search : ManifestSearch K) (params : GetImpactParams)
    (order : ∀ request, ColumnLineage.HashOrder search.columns request) :
    Except ImpactError (Option (ImpactResponse K)) :=
  match namedColumn params with
  | some column =>
      if params.entity.columnNames.any fun candidate => eqIgnoreAsciiCase candidate column then
        getColumnImpact fuel search params column order
      else
        .error (.invalidParams
          ("column '" ++ column ++ "' was not found on " ++ params.uniqueId))
  | none =>
      if params.column.any fun column => (trim column).isEmpty then
        .error (.invalidParams "column cannot be empty")
      else
        match uncached fuel search.settings search.lineage
            ⟨params.uniqueId, lineageParams, some .standard⟩ with
        | none => .ok none
        | some (.error error) => .error (.lineage error)
        | some (.ok answer) => .ok (some (entityImpact params answer))

end Model

/-! ## What there is to count -/

/-- The type that the response counts an id under. -/
def typeName (search : LineageSearch) (id : String) : String :=
  match search.entitySummary id with
  | .ok (some summary) => resourceType summary
  | _ => "unknown"

/-- The totals count these ids. -/
structure CountsEntities {K : Type*} (response : ImpactResponse K) (ids : Set String)
    (typeOf : String → String) : Prop where
  count : response.downstreamCount = ids.ncard
  byType : ∀ type, Tally.count response.byType type = {v ∈ ids | typeOf v = type}.ncard

section Answer
variable {K : Type*} [Field K] {search : LineageSearch} {settings : LineageSettings}
  {request : Request} {rootId : String} {t : Traversal} {answer : LineageAnswer}

theorem resourceType_renderEntity {id : String} {items : List JsonValue}
    (h : renderEntity search .standard id = .ok items) :
    items.map resourceType = [typeName search id] := by
  unfold renderEntity at h
  unfold typeName
  cases hsummary : search.entitySummary id with
  | error e =>
      rw [hsummary] at h
      contradiction
  | ok summary =>
      rw [hsummary] at h
      cases h
      cases summary with
      | some summary => rfl
      | none => rfl

/-- An answer at standard detail has one entity for each id. -/
theorem resourceType_entities {direction : String} {maxDepth : ℕ}
    (h : lineageAnswer search rootId direction maxDepth .standard t = .ok answer) :
    answer.entities.map resourceType = t.result.map (typeName search) := by
  unfold lineageAnswer at h
  obtain ⟨rendered, hrendered, hanswer⟩ := bind_eq_ok.mp h
  cases hanswer
  dsimp only
  have hall := forall₂_of_mapM_ok hrendered
  clear h hrendered
  generalize t.result = ids at hall ⊢
  induction hall with
  | nil => rfl
  | cons hitems _ ih =>
      rw [List.flatten_cons, List.map_append, ih, resourceType_renderEntity hitems]
      rfl

theorem count_map_eq_ncard {ids : List String} {s : Set String} (hnodup : ids.Nodup)
    (h : ∀ v, v ∈ ids ↔ v ∈ s) (typeOf : String → String) (type : String) :
    (ids.map typeOf).count type = {v ∈ s | typeOf v = type}.ncard := by
  rw [List.count_eq_countP, List.countP_map, List.countP_eq_length_filter]
  apply length_eq_ncard (hnodup.filter _)
  intro v
  simp [h]

/-- The totals are those of everything that can be reached, if it fits under the maximum. -/
theorem countsEntities_iff (params : GetImpactParams) (hgood : Good request rootId t)
    (hexact : t.truncated = false → ∀ v, v ∈ t.result ↔ v ∈ Reached request rootId)
    (htypes : answer.entities.map resourceType = t.result.map (typeName search)) :
    CountsEntities (entityImpact (K := K) params answer) (Reached request rootId)
        (typeName search) ↔
      (Reached request rootId).ncard ≤ request.maxResults := by
  have hlength : answer.entities.length = t.result.length := by
    have hmap := congrArg List.length htypes
    rwa [List.length_map, List.length_map] at hmap
  constructor
  · intro h
    have hcount : answer.entities.length = (Reached request rootId).ncard := h.count
    rw [← hcount, hlength]
    exact hgood.count
  · intro hfits
    have hall : ∀ v, v ∈ t.result ↔ v ∈ Reached request rootId := by
      cases htruncated : t.truncated with
      | false => exact hexact htruncated
      | true =>
          -- the maximum is reached, and there is no more than that
          have hfull := hgood.full.mp htruncated
          have hsub : (t.result.toFinset : Set String) ⊆ Reached request rootId :=
            fun v hv => hgood.reached (List.mem_toFinset.mp hv)
          have hsame := Set.eq_of_subset_of_ncard_le hsub (by
            rw [Set.ncard_coe_finset, List.toFinset_card_of_nodup hgood.nodup, hfull]
            exact hfits) (reached_finite request rootId)
          intro v
          rw [← hsame, Finset.mem_coe, List.mem_toFinset]
    constructor
    · change answer.entities.length = _
      rw [hlength]
      exact length_eq_ncard hgood.nodup hall
    · intro type
      change Tally.count (Tally.tally (answer.entities.map resourceType)) type = _
      rw [Tally.count_tally, htypes]
      exact count_map_eq_ncard hgood.nodup hall _ _

end Answer

/-! ## Without the limits of the column lineage -/

section Columns
open ColumnLineage BreadthFirst
variable {K : Type*} [Field K] [LinearOrder K] {search : ColumnLineage.ManifestSearch K}
  {request : ColumnLineage.Request}

/-- The request under another limit. -/
def limited (request : ColumnLineage.Request) (limit : ℕ) : ColumnLineage.Request :=
  { request with maxResults := limit, maxCandidates := limit }

/-- The same orders under another limit. -/
def sameOrder (order : HashOrder search request) (limit : ℕ) :
    HashOrder search (limited request limit) where
  call := order.call
  stored := order.stored

/-- The rows that a limit out of reach leaves. -/
def UnlimitedRows (order : HashOrder search request) (rows : List (LineageRow K)) : Prop :=
  ∃ limit fuel answer, 0 < limit ∧
    columnLineage fuel search (limited request limit) (sameOrder order limit) = some answer ∧
    answer.truncated = false ∧ answer.lineage = rows

def rowIds (rows : List (LineageRow K)) : Set String := {id | ∃ row ∈ rows, row.uniqueId = id}

/-- The type that the rows of an entity name. -/
def rowTypeName (search : ColumnLineage.ManifestSearch K) (id : String) : String :=
  ((search.getEntity id).bind fun entity => entity.payload.getStr "resource_type").getD "unknown"

/-- No limit is reached before the last entity of the search that has a match. -/
def AllReported (search : ColumnLineage.ManifestSearch K) (request : ColumnLineage.Request) :
    Prop :=
  ∀ before e behind, searchTree search request = before ++ e :: behind →
    acceptedMatches search request (insertionOrder search request) e.source e.target ≠ [] →
    Unlimited search request before

theorem answerOf_rows {order : HashOrder search request}
    (h : (report search request order (searchTree search request)).truncated = false)
    (row : LineageRow K) : row ∈ (answerOf order).lineage ↔
      row ∈ (searchTree search request).flatMap (rowsOf search request order) := by
  rw [mem_answerOf, report_going _ h]

theorem mem_unlimitedRows {order : HashOrder search request} {rows : List (LineageRow K)}
    (h : UnlimitedRows order rows) (row : LineageRow K) :
    row ∈ rows ↔ ∃ e ∈ searchTree search request, row ∈ rowsOf search request order e := by
  obtain ⟨limit, fuel, answer, hlimit, hrun, htruncated, rfl⟩ := h
  obtain ⟨fuel', hrun'⟩ := columnLineage_eq (sameOrder order limit) hlimit
  rw [columnLineage_unique hrun (hrun' fuel' (le_refl fuel'))] at htruncated ⊢
  rw [answerOf_rows htruncated]
  exact List.mem_flatMap

theorem exists_unlimitedRows (order : HashOrder search request) :
    ∃ rows, UnlimitedRows order rows := by
  obtain ⟨most, hmost⟩ := Set.Finite.bddAbove
    (List.finite_toSet ((searchTree search request).map Step.waiting))
  let limit := matchTotal search request (searchTree search request) + most + 1
  have hlimit : 0 < limit := Nat.succ_pos _
  obtain ⟨fuel, hrun⟩ := columnLineage_eq (sameOrder order limit) hlimit
  refine ⟨_, limit, fuel, _, hlimit, hrun fuel (le_refl fuel), ?_, rfl⟩
  refine (report_truncated_iff (sameOrder order limit) hlimit _).mpr ⟨?_, ?_⟩
  · change matchTotal search request (searchTree search request) < limit
    omega
  · intro e he
    have hle : e.waiting ≤ most := hmost (List.mem_map_of_mem he)
    change e.waiting < limit
    omega

/-- A step with a match adds a row, unless a limit was reached before. -/
theorem exists_row (order : HashOrder search request) (hmax : 0 < request.maxResults)
    {before behind : List (Step String)} {e : Step String}
    (hsplit : searchTree search request = before ++ e :: behind)
    (hbefore : Unlimited search request before) {row : LineageRow K}
    (hrow : row ∈ rowsOf search request order e) :
    ∃ row' ∈ (report search request order (searchTree search request)).results,
      row'.uniqueId = e.target := by
  have hgoing := (report_truncated_iff order hmax before).mpr hbefore
  have hroom := report_room hmax before hgoing
  cases hrows : rowsOf search request order e with
  | nil =>
      rw [hrows] at hrow
      exact absurd hrow List.not_mem_nil
  | cons first rest =>
      have hfirst : first ∈ rowsOf search request order e := by
        rw [hrows]
        exact List.mem_cons_self
      refine ⟨first, ?_, target_of_mem_rowsOf hfirst⟩
      have hsteps : searchTree search request = (before ++ [e]) ++ behind := by
        rw [hsplit, List.append_assoc, List.singleton_append]
      rw [hsteps]
      apply (report_results hmax (before ++ [e]) behind).subset
      rw [report_snoc]
      unfold reportStep
      rw [hgoing, if_neg Bool.false_ne_true]
      dsimp only
      rw [hrows]
      have hsucc : request.maxResults = (report search request order before).results.length +
          (request.maxResults - (report search request order before).results.length - 1 + 1) := by
        omega
      rw [hsucc, List.take_length_add_append, List.take_succ_cons]
      exact List.mem_append_right _ List.mem_cons_self

theorem rowsOf_ne_nil (order : HashOrder search request) {e : Step String}
    (he : e ∈ searchTree search request) :
    (∃ row, row ∈ rowsOf search request order e) ↔
      acceptedMatches search request (insertionOrder search request) e.source e.target ≠ [] := by
  obtain ⟨-, -, htarget⟩ := mem_storedRelated.mp ((searchTree_spec search request).edge e he).1
  obtain ⟨entity, hentity⟩ := Option.isSome_iff_exists.mp htarget
  have hlength := length_acceptedMatches order (insertionOrder search request) e.source e.target
  unfold rowsOf
  rw [hentity, ← List.length_pos_iff, ← hlength, List.length_pos_iff]
  constructor
  · intro h
    obtain ⟨row, hrow⟩ := h
    obtain ⟨m, hm, -⟩ := List.mem_map.mp hrow
    exact List.ne_nil_of_mem hm
  · intro h
    obtain ⟨m, hm⟩ := List.exists_mem_of_ne_nil _ h
    exact ⟨_, List.mem_map_of_mem hm⟩

/-- Every row of the unlimited lineage is one of an entity that the answer has too, where no
limit is reached too early; and only there. -/
theorem rowIds_answerOf_iff (order : HashOrder search request) (hmax : 0 < request.maxResults)
    {rows : List (LineageRow K)} (hrows : UnlimitedRows order rows) :
    rowIds rows ⊆ rowIds (answerOf order).lineage ↔ AllReported search request := by
  constructor
  · intro hsub before e behind hsplit hmatches
    have he : e ∈ searchTree search request := by
      rw [hsplit]
      exact List.mem_append_right _ List.mem_cons_self
    obtain ⟨row, hrow⟩ := (rowsOf_ne_nil order he).mpr hmatches
    obtain ⟨row', hrow', hid⟩ := hsub
      ⟨row, (mem_unlimitedRows hrows row).mpr ⟨e, he, hrow⟩, target_of_mem_rowsOf hrow⟩
    rw [mem_answerOf] at hrow'
    by_contra hlimited
    -- the rows of the answer come from the steps before, which reach other entities
    have hstopped : (report search request order before).truncated = true :=
      (Bool.not_eq_false _).mp
        (fun hfalse => hlimited ((report_truncated_iff order hmax before).mp hfalse))
    have hfront : before <+: searchTree search request := ⟨e :: behind, hsplit.symm⟩
    rw [report_behind hfront hstopped] at hrow'
    obtain ⟨front, e', back, rfl, -, hfrom⟩ := of_mem_report hrow'
    have htarget : e'.target = e.target := (target_of_mem_rowsOf hfrom).symm.trans hid
    have hnodup := (List.nodup_cons.mp (searchTree_spec search request).nodup).2
    rw [hsplit, List.map_append, List.map_cons, List.nodup_append] at hnodup
    exact hnodup.2.2 e'.target
      (List.mem_map_of_mem (List.mem_append_right _ List.mem_cons_self)) e.target
      List.mem_cons_self htarget
  · intro h id hid
    obtain ⟨row, hrow, rfl⟩ := hid
    obtain ⟨e, he, hfrom⟩ := (mem_unlimitedRows hrows row).mp hrow
    obtain ⟨before, behind, hsplit⟩ := List.append_of_mem he
    have hbefore := h before e behind hsplit ((rowsOf_ne_nil order he).mp ⟨row, hfrom⟩)
    obtain ⟨row', hrow', hid'⟩ := exists_row order hmax hsplit hbefore hfrom
    exact ⟨row', mem_answerOf.mpr hrow', hid'.trans (target_of_mem_rowsOf hfrom).symm⟩

theorem rowIds_answerOf_subset (order : HashOrder search request) {rows : List (LineageRow K)}
    (hrows : UnlimitedRows order rows) : rowIds (answerOf order).lineage ⊆ rowIds rows := by
  intro id hid
  obtain ⟨row, hrow, rfl⟩ := hid
  obtain ⟨before, e, behind, hsplit, -, hfrom⟩ := of_mem_report (mem_answerOf.mp hrow)
  refine ⟨row, (mem_unlimitedRows hrows row).mpr ⟨e, ?_, hfrom⟩, rfl⟩
  rw [hsplit]
  exact List.mem_append_right _ List.mem_cons_self

end Columns

/-! ## The rows counted -/

section Rows
open ColumnLineage
variable {K : Type*}

/-- Each id is seen once and counted under its type. -/
structure Counted (typeOf : String → String) (rows : List (LineageRow K))
    (seen : List String × List (String × ℕ)) : Prop where
  nodup : seen.1.Nodup
  mem : ∀ id, id ∈ seen.1 ↔ id ∈ rowIds rows
  byType : ∀ type, Tally.count seen.2 type = (seen.1.map typeOf).count type

theorem countRow_counted {typeOf : String → String} {rows : List (LineageRow K)}
    {seen : List String × List (String × ℕ)} (h : Counted typeOf rows seen)
    {row : LineageRow K} (hrow : rowType row = typeOf row.uniqueId) :
    Counted typeOf (rows ++ [row]) (countRow seen row) := by
  have hids : ∀ id, id ∈ rowIds (rows ++ [row]) ↔ id ∈ seen.1 ∨ row.uniqueId = id := by
    intro id
    rw [h.mem]
    unfold rowIds
    simp [or_and_right, exists_or]
  unfold countRow
  split
  · rename_i hold
    refine ⟨h.nodup, ?_, h.byType⟩
    intro id
    rw [hids]
    constructor
    · exact Or.inl
    · intro hid
      cases hid with
      | inl hseen => exact hseen
      | inr hsame => exact hsame ▸ hold
  · rename_i hnew
    refine ⟨List.nodup_cons.mpr ⟨hnew, h.nodup⟩, ?_, ?_⟩
    · intro id
      rw [hids, List.mem_cons, or_comm, eq_comm]
    · intro type
      dsimp only
      rw [Tally.count_bump, List.map_cons, List.count_cons, h.byType, hrow]
      congr 1
      simp

theorem foldl_counted {typeOf : String → String} {rows : List (LineageRow K)}
    (hrows : ∀ row ∈ rows, rowType row = typeOf row.uniqueId) :
    Counted typeOf rows (rows.foldl countRow ([], [])) := by
  induction rows using List.reverseRecOn with
  | nil =>
      refine ⟨List.nodup_nil, ?_, fun _ => rfl⟩
      intro id
      refine iff_of_false List.not_mem_nil ?_
      intro h
      obtain ⟨row, hrow, -⟩ := h
      exact List.not_mem_nil hrow
  | append_singleton rows row ih =>
      rw [List.foldl_append]
      apply countRow_counted
      · exact ih fun row hrow => hrows row (List.mem_append_left _ hrow)
      · exact hrows row (List.mem_append_right _ (List.mem_singleton_self row))

end Rows

section Totals
open ColumnLineage
variable {K : Type*} [Field K] [LinearOrder K] {search : ColumnLineage.ManifestSearch K}
  {request : ColumnLineage.Request}

theorem rowType_answerOf (order : HashOrder search request) {row : LineageRow K}
    (hrow : row ∈ (answerOf order).lineage) :
    rowType row = rowTypeName search row.uniqueId := by
  obtain ⟨before, e, behind, -, -, hfrom⟩ := of_mem_report (mem_answerOf.mp hrow)
  obtain ⟨entity, hentity, m, -, rfl⟩ := mem_rowsOf.mp hfrom
  change ((entity.payload.get "resource_type").bind asStr).getD "unknown" =
    ((search.getEntity e.target).bind _).getD "unknown"
  rw [hentity]
  rfl

/-- The totals of the column form are those of the unlimited lineage where no limit is reached
too early. -/
theorem countsRows_iff (params : GetImpactParams) (column : String)
    (order : HashOrder search request) (hmax : 0 < request.maxResults)
    {rows : List (LineageRow K)} (hrows : UnlimitedRows order rows) :
    CountsEntities (columnImpact params column (answerOf order)) (rowIds rows)
        (rowTypeName search) ↔ AllReported search request := by
  have hcounted : Counted (rowTypeName search) (answerOf order).lineage
      ((answerOf order).lineage.foldl countRow ([], [])) :=
    foldl_counted fun row hrow => rowType_answerOf order hrow
  have hcard := length_eq_ncard hcounted.nodup hcounted.mem
  have hsub := rowIds_answerOf_subset order hrows
  rw [← rowIds_answerOf_iff order hmax hrows]
  constructor
  · intro h
    have hcount : ((answerOf order).lineage.foldl countRow ([], [])).1.length =
        (rowIds rows).ncard := h.count
    rw [hcard] at hcount
    have hfinite : (rowIds rows).Finite := (List.finite_toSet (rows.map LineageRow.uniqueId)).subset
      (fun id hid => List.mem_map.mpr hid)
    exact (Set.eq_of_subset_of_ncard_le hsub hcount.ge hfinite).ge
  · intro h
    have hsame := hsub.antisymm h
    rw [← hsame]
    refine ⟨hcard, ?_⟩
    intro type
    change Tally.count ((answerOf order).lineage.foldl countRow ([], [])).2 type = _
    rw [hcounted.byType]
    exact count_map_eq_ncard hcounted.nodup hcounted.mem _ _

end Totals

/-! ## The response -/

section Response
variable {K : Type*} [Field K] [LinearOrder K]

/-- The totals of the response are those of the search without a limit on its results. -/
def Exact (search : ManifestSearch K) (params : GetImpactParams)
    (order : ∀ request, ColumnLineage.HashOrder search.columns request)
    (response : ImpactResponse K) : Prop :=
  match namedColumn params with
  | none =>
      CountsEntities response
        (Nearby search.lineage.index.childMap search.settings.lineage.lineageMaxDepth
          params.uniqueId)
        (typeName search.lineage)
  | some column =>
      ∃ request rows,
        ColumnLineage.requestOf search.columns
          (columnLineageParams search params.uniqueId column) = .ok request ∧
        UnlimitedRows (order request) rows ∧
        CountsEntities response (rowIds rows) (rowTypeName search.columns)

/-- What is counted fits under the limits of the tool that answers. -/
def Fits (search : ManifestSearch K) (params : GetImpactParams) : Prop :=
  match namedColumn params with
  | none =>
      (Nearby search.lineage.index.childMap search.settings.lineage.lineageMaxDepth
        params.uniqueId).ncard ≤ max search.settings.lineage.lineageMaxResults 1
  | some column =>
      ∀ request,
        ColumnLineage.requestOf search.columns
          (columnLineageParams search params.uniqueId column) = .ok request →
        AllReported search.columns request

/-- What a request is answered with enough fuel. -/
def Returns (search : ManifestSearch K) (params : GetImpactParams)
    (order : ∀ request, ColumnLineage.HashOrder search.columns request)
    (outcome : Except ImpactError (ImpactResponse K)) : Prop :=
  ∃ fuel, ∀ fuel' ≥ fuel, getImpact fuel' search params order = outcome.map some

section Outcome
variable (search : ManifestSearch K) (params : GetImpactParams)
  (order : ∀ request, ColumnLineage.HashOrder search.columns request)

/-- The outcome, and what its totals are. -/
def TotalsKnown : Prop :=
  ∃ outcome, Returns search params order outcome ∧
    ∀ response, outcome = .ok response →
      response.truncated = false ∧ (Exact search params order response ↔ Fits search params)

theorem totalsKnown_error {error : ImpactError} (h : Returns search params order (.error error)) :
    TotalsKnown search params order := by
  refine ⟨_, h, ?_⟩
  intro response hresponse
  contradiction

theorem totalsKnown_entities (hcolumn : namedColumn params = none)
    (hblank : (params.column.any fun column => (trim column).isEmpty) = false) :
    TotalsKnown search params order := by
  let query : LineageRequest := ⟨params.uniqueId, lineageParams, some .standard⟩
  have hunfold : ∀ fuel, getImpact fuel search params order =
      match uncached fuel search.settings search.lineage query with
      | none => .ok none
      | some (.error error) => .error (.lineage error)
      | some (.ok answer) => .ok (some (entityImpact params answer)) := by
    intro fuel
    unfold getImpact
    rw [hcolumn]
    dsimp only
    rw [if_neg (Bool.eq_false_iff.mp hblank)]
  cases hrequest : Lineage.requestOf search.lineage.index search.settings.lineage
      lineageParams with
  | error error =>
      apply totalsKnown_error search params order
      refine ⟨0, fun fuel' _ => ?_⟩
      rw [hunfold, uncached_error hrequest]
      rfl
  | ok request =>
      obtain ⟨map, upstream, hmap, hsame, hallowed, hdepth, hlimit⟩ :=
        requestOf_unfiltered hrequest
      cases hmap
      rw [Option.getD_none, min_self] at hdepth
      obtain ⟨fuel, t, hrun, hgood, hexact⟩ :=
        traverse_spec request params.uniqueId (requestOf_max hrequest)
      have huncached : ∀ fuel' ≥ fuel,
          uncached fuel' search.settings search.lineage query =
            some (lineageAnswer search.lineage params.uniqueId "downstream"
              (maxDepthOf search.settings query) .standard t) := by
        intro fuel' hle
        unfold uncached
        rw [getLineage_eq hrequest (hrun fuel' hle) hgood]
        rfl
      cases hanswer : lineageAnswer search.lineage params.uniqueId "downstream"
          (maxDepthOf search.settings query) .standard t with
      | error error =>
          apply totalsKnown_error search params order
          refine ⟨fuel, fun fuel' hle => ?_⟩
          rw [hunfold, huncached fuel' hle, hanswer]
          rfl
      | ok answer =>
          refine ⟨.ok (entityImpact params answer), ⟨fuel, fun fuel' hle => ?_⟩, ?_⟩
          · rw [hunfold, huncached fuel' hle, hanswer]
            rfl
          · intro response hresponse
            cases hresponse
            refine ⟨rfl, ?_⟩
            have htotals := countsEntities_iff (K := K) params hgood hexact
              (resourceType_entities hanswer)
            rw [reached_eq_nearby hallowed, hsame, hdepth, hlimit] at htotals
            unfold Exact Fits
            rw [hcolumn]
            exact htotals

theorem totalsKnown_column {column : String} (hcolumn : namedColumn params = some column)
    (hfound : (params.entity.columnNames.any fun candidate =>
      eqIgnoreAsciiCase candidate column) = true) :
    TotalsKnown search params order := by
  have hunfold : ∀ fuel, getImpact fuel search params order =
      getColumnImpact fuel search params column order := by
    intro fuel
    unfold getImpact
    rw [hcolumn]
    dsimp only
    rw [if_pos hfound]
  cases hrequest : ColumnLineage.requestOf search.columns
      (columnLineageParams search params.uniqueId column) with
  | error error =>
      apply totalsKnown_error search params order
      refine ⟨0, fun fuel' _ => ?_⟩
      rw [hunfold]
      unfold getColumnImpact ColumnLineage.getColumnLineage
      rw [hrequest]
      rfl
  | ok request =>
      obtain ⟨fuel, hrun⟩ := ColumnLineage.getColumnLineage_eq hrequest order
      refine ⟨.ok (columnImpact params column (ColumnLineage.answerOf (order request))),
        ⟨fuel, fun fuel' hle => ?_⟩, ?_⟩
      · rw [hunfold]
        unfold getColumnImpact
        rw [hrun fuel' hle]
        rfl
      · intro response hresponse
        cases hresponse
        refine ⟨rfl, ?_⟩
        have hmax := (ColumnLineage.requestOf_ok hrequest).2.1
        obtain ⟨rows, hrows⟩ := exists_unlimitedRows (order request)
        unfold Exact Fits
        rw [hcolumn]
        dsimp only
        rw [hrequest]
        constructor
        · intro h request' hrequest'
          cases hrequest'
          obtain ⟨request', rows', hrequest', hrows', htotals⟩ := h
          cases hrequest'
          exact (countsRows_iff params column (order request) hmax hrows').mp htotals
        · intro h
          exact ⟨request, rows, rfl, hrows,
            (countsRows_iff params column (order request) hmax hrows).mpr (h request rfl)⟩

end Outcome

end Response

/-- One entity with two children, both with its column. -/
def twoChildren (lineageMaxResults : ℕ) : ManifestSearch ℚ where
  settings := ⟨⟨5, lineageMaxResults⟩, .standard⟩
  lineage :=
    { index :=
        { parentMap := []
          childMap := [("model.a", ["model.b", "model.c"])]
          resourceTypeById := [] }
      fullEntity := fun id => .ok (some (.string id))
      compactEntity := fun id => .ok (some (.string id))
      entitySummary := fun _ => .ok (some (.object [("resource_type", .string "model")]))
      dependencyHints := fun _ => (.null, 0) }
  columns :=
    { out := ColumnLineage.asciiOut
      config := ColumnLineage.defaultConfig
      parentMap := []
      childMap := [("model.a", ["model.b", "model.c"])]
      entities :=
        [("model.a", ⟨["id"], .object []⟩), ("model.b", ⟨["id"], .object []⟩),
          ("model.c", ⟨["id"], .object []⟩)]
      columnLineageAliases := [] }
  childMap_eq := rfl

end DbtNova.Impact
