import DbtNova.JinjaScan
import DbtNova.RecipeSpecs
import Mathlib.Data.List.Destutter

/-!
# Preflight and rendering of recipe queries

`run_recipe` of `tools/recipes.rs` up to the execution of the statements: the queries are
prepared, the parameters of all of them are checked together, and each query is rendered. What
the manifest says of the analysis that a query refers to is a parameter.
-/
namespace DbtNova.RecipePreflight
open Text JsonValue RecipePlaceholder RecipeSpecs

structure RecipeQuery where
  name : String
  path : String
  order : ℕ
  analysisId : String

inductive RecipeSqlSource
  | compiledCode
  | rawCode
  deriving DecidableEq

structure ResolvedRecipeSql where
  baseSql : String
  payload : JsonValue
  analysisUniqueId : String
  source : RecipeSqlSource

structure PreparedRecipeQuery where
  query : RecipeQuery
  baseSql : String
  parameterSpecs : List RecipeParameterSpec
  analysisUniqueId : String
  sqlSource : RecipeSqlSource

structure TypeMismatch where
  queryName : String
  parameter : String
  placeholderType : String
  error : DbtNovaError

structure RecipeParameterSchema where
  aggregatedSpecs : List RecipeParameterSpec
  querySpecs : List (String × List RecipeParameterSpec)
  missingParameters : List String
  unusedParameters : List String
  typeMismatches : List TypeMismatch
  effectiveParameters : ParameterMap

/-- The two detailed errors keep what their details are formatted from. -/
inductive RecipeError
  | plain (error : DbtNovaError)
  | notReady (recipeId : String) (prepared : List PreparedRecipeQuery)
      (schema : RecipeParameterSchema)
  | notExecutable (recipeId : String) (prepared : PreparedRecipeQuery)

/-! ## Preparing -/

section Prepare
variable (analysis : RecipeQuery → Result (String × JsonValue))

def codeOf (payload : JsonValue) (key : String) : Option String :=
  (payload.getStr key).bind nonemptyTrimmed

def loadQueryBaseSqlAndPayload (query : RecipeQuery) : Result ResolvedRecipeSql := do
  let (analysisUniqueId, payload) ← analysis query
  match codeOf payload "compiled_code", codeOf payload "raw_code" with
  | some compiled, _ => pure ⟨compiled, payload, analysisUniqueId, .compiledCode⟩
  | none, some raw => pure ⟨raw, payload, analysisUniqueId, .rawCode⟩
  | none, none => throw (.invalidParams
      ("Analysis '" ++ analysisUniqueId ++ "' does not expose compiled_code or raw_code"))

def prepareRecipeQuery (query : RecipeQuery) : Result PreparedRecipeQuery := do
  let resolved ← loadQueryBaseSqlAndPayload analysis query
  pure ⟨query, resolved.baseSql, buildQueryParameterSpecs resolved.baseSql resolved.payload,
    resolved.analysisUniqueId, resolved.source⟩

def prepareRecipeQueries (queries : List RecipeQuery) : Result (List PreparedRecipeQuery) :=
  queries.mapM (prepareRecipeQuery analysis)

end Prepare

/-! ## The schema -/

def parameterNamesByRequiredAndPresence (specs : List RecipeParameterSpec)
    (effective : ParameterMap) (required : Bool) : List String :=
  ((specs.filter fun spec =>
      spec.effectiveRequired == required && (effective.lookup spec.key).isNone).map
    RecipeParameterSpec.name).insertionSort (· ≤ ·)

def unusedParameters (parameters : Option ParameterMap) (specs : List RecipeParameterSpec) :
    List String :=
  let unused := ((parameters.getD []).map Prod.fst).filter fun key =>
    !specs.any fun spec => spec.key == normalizeRecipeQueryKey key
  (unused.insertionSort (· ≤ ·)).destutter (· ≠ ·)

def typeMismatch (effective : ParameterMap) (placeholderTypes : Option TypeMap)
    (queryName : String) (spec : RecipeParameterSpec) : Option TypeMismatch :=
  (resolvePlaceholderTypeForSpec spec placeholderTypes).bind fun expectedType =>
    (effective.lookup spec.key).bind fun value =>
      match coercePlaceholderValue value expectedType false with
      | .ok _ => none
      | .error error => some ⟨queryName, spec.name, expectedType, error⟩

/-- The schema of prepared queries. -/
def schemaOf (prepared : List PreparedRecipeQuery) (parameters : Option ParameterMap)
    (placeholderTypes : Option TypeMap) : RecipeParameterSchema :=
  let aggregated := aggregateParameterSpecs (prepared.map PreparedRecipeQuery.parameterSpecs)
  let effective := buildEffectiveParameterMap parameters aggregated
  { aggregatedSpecs := aggregated
    querySpecs := prepared.map fun query => (query.query.name, query.parameterSpecs)
    missingParameters := parameterNamesByRequiredAndPresence aggregated effective true
    unusedParameters := unusedParameters parameters aggregated
    typeMismatches := prepared.flatMap fun query =>
      query.parameterSpecs.filterMap (typeMismatch effective placeholderTypes query.query.name)
    effectiveParameters := effective }

def recipeParameterSchema (analysis : RecipeQuery → Result (String × JsonValue))
    (queries : List RecipeQuery) (parameters : Option ParameterMap)
    (placeholderTypes : Option TypeMap) : Result RecipeParameterSchema := do
  let prepared ← prepareRecipeQueries analysis queries
  pure (schemaOf prepared parameters placeholderTypes)

def ensureRecipeParametersReady (recipeId : String) (prepared : List PreparedRecipeQuery)
    (schema : RecipeParameterSchema) : Except RecipeError Unit :=
  if schema.missingParameters.isEmpty && schema.typeMismatches.isEmpty then .ok ()
  else .error (.notReady recipeId prepared schema)

/-! ## Rendering -/

def ensureRecipeQueryExecutable (recipeId : String) (prepared : PreparedRecipeQuery) :
    Except RecipeError Unit :=
  if prepared.sqlSource = .rawCode ∧
      JinjaScan.recipeQueryJinjaMarkers prepared.baseSql.toUTF8.toList ≠ [] then
    .error (.notExecutable recipeId prepared)
  else .ok ()

/-- The statement of an executable query. -/
def substitutedSql (prepared : PreparedRecipeQuery) (parameters : ParameterMap)
    (parameterTypes : Option TypeMap) : Result String :=
  if parameters.isEmpty && containsQueryPlaceholders prepared.baseSql then
    .error (.invalidParams
      ("Recipe query '" ++ prepared.query.name ++ "' requires runtime parameters"))
  else if parameterTypes.isSome || !parameters.isEmpty then
    applyRuntimeParameterSubstitution prepared.baseSql parameters parameterTypes
  else .ok prepared.baseSql

def renderRecipeQuerySql (recipeId : String) (prepared : PreparedRecipeQuery)
    (parameters : ParameterMap) (parameterTypes : Option TypeMap) :
    Except RecipeError String := do
  ensureRecipeQueryExecutable recipeId prepared
  (substitutedSql prepared parameters parameterTypes).mapError .plain

def renderRecipeStatements (recipeId : String) (prepared : List PreparedRecipeQuery)
    (schema : RecipeParameterSchema) (placeholderTypes : Option TypeMap) :
    Except RecipeError (List (PreparedRecipeQuery × String)) :=
  prepared.mapM fun query => do
    let sql ← renderRecipeQuerySql recipeId query schema.effectiveParameters placeholderTypes
    pure (query, sql)

/-! ## When a text is rendered -/

section Rendering
variable {parameters : ParameterMap} {types : Option TypeMap} {value : JsonValue}

theorem coercePlaceholderValue_auto (quoted : Bool) :
    coercePlaceholderValue value "auto" quoted = .ok (coerceDefault quoted value) := by
  unfold coercePlaceholderValue
  rw [if_neg (by decide), if_neg (by decide), if_neg (by decide), if_neg (by decide)]
  rfl

theorem toAsciiLowercase_auto : toAsciiLowercase "auto" = "auto" := by
  decide

/-- Whether a value is coerced does not depend on the quotes around it. -/
theorem coercePlaceholderValue_quoted {placeholderType text : String}
    (h : coercePlaceholderValue value placeholderType false = .ok text) (quoted : Bool) :
    ∃ text, coercePlaceholderValue value placeholderType quoted = .ok text := by
  unfold coercePlaceholderValue at h ⊢
  split
  · rename_i hidentifier
    rw [if_pos hidentifier] at h
    exact ⟨text, h⟩
  · rename_i hidentifier
    rw [if_neg hidentifier] at h
    split
    · rename_i hnumber
      rw [if_pos hnumber] at h
      exact ⟨text, h⟩
    · rename_i hnumber
      rw [if_neg hnumber] at h
      split
      · rename_i hboolean
        rw [if_pos hboolean] at h
        exact ⟨text, h⟩
      · split
        · exact ⟨_, rfl⟩
        · exact ⟨_, rfl⟩

theorem renderPieces_ok (ps : List Piece) :
    (∃ output, renderPieces parameters types ps = .ok output) ↔
      ∀ piece ∈ ps, ∃ output, renderPiece parameters types piece = .ok output := by
  induction ps with
  | nil => exact iff_of_true ⟨[], rfl⟩ fun _ hpiece => absurd hpiece List.not_mem_nil
  | cons piece ps ih =>
      rw [List.forall_mem_cons, ← ih, renderPieces]
      constructor
      · rintro ⟨output, h⟩
        obtain ⟨text, htext, h⟩ := bind_eq_ok.mp h
        obtain ⟨rest, hrest, -⟩ := bind_eq_ok.mp h
        exact ⟨⟨text, htext⟩, rest, hrest⟩
      · rintro ⟨⟨text, htext⟩, rest, hrest⟩
        exact ⟨text ++ rest, bind_eq_ok.mpr ⟨text, htext, bind_eq_ok.mpr ⟨rest, hrest, rfl⟩⟩⟩

theorem renderPiece_ok {name : String} {quoted : Bool} :
    (∃ output, renderPiece parameters types (.placeholder name quoted) = .ok output) ↔
      ∃ value, getParameterValue name parameters = some value ∧
        ∃ text, coercePlaceholderValue value (placeholderType name types) quoted = .ok text := by
  simp only [renderPiece]
  cases getParameterValue name parameters with
  | none =>
      constructor
      · rintro ⟨output, h⟩
        contradiction
      · rintro ⟨value, h, -⟩
        contradiction
  | some value =>
      constructor
      · rintro ⟨output, h⟩
        obtain ⟨text, htext, -⟩ := bind_eq_ok.mp h
        exact ⟨value, rfl, text, htext⟩
      · rintro ⟨found, hfound, text, htext⟩
        cases hfound
        exact ⟨text.toList, bind_eq_ok.mpr ⟨text, htext, rfl⟩⟩

theorem mem_placeholderNames {sql name : String} :
    name ∈ placeholderNames sql ↔
      ∃ quoted, Piece.placeholder name quoted ∈ pieces none 0 sql.toList := by
  unfold placeholderNames
  rw [List.mem_filterMap]
  constructor
  · rintro ⟨piece, hpiece, hname⟩
    cases piece with
    | char c => contradiction
    | placeholder other quoted => exact ⟨quoted, Option.some.inj hname ▸ hpiece⟩
  · rintro ⟨quoted, hpiece⟩
    exact ⟨_, hpiece, rfl⟩

/-- A query is rendered when each of its placeholders is. -/
theorem renderPieces_all_ok {texts : List Piece} :
    (∀ piece ∈ texts, ∃ output, renderPiece parameters types piece = .ok output) ↔
      ∀ name quoted, .placeholder name quoted ∈ texts →
        ∃ output, renderPiece parameters types (.placeholder name quoted) = .ok output := by
  constructor
  · exact fun h name quoted hpiece => h _ hpiece
  · intro h piece hpiece
    cases piece with
    | char c => exact ⟨[c], rfl⟩
    | placeholder name quoted => exact h name quoted hpiece

theorem containsQueryPlaceholders_iff {sql : String} : containsQueryPlaceholders sql = true ↔
    ∃ name quoted, .placeholder name quoted ∈ pieces none 0 sql.toList := by
  rw [containsQueryPlaceholders, Bool.not_eq_true', List.isEmpty_eq_false_iff]
  constructor
  · intro h
    obtain ⟨name, hname⟩ := List.exists_mem_of_ne_nil _ h
    exact ⟨name, mem_placeholderNames.mp hname⟩
  · rintro ⟨name, hpiece⟩
    exact List.ne_nil_of_mem (mem_placeholderNames.mpr hpiece)

theorem substitutedSql_ok {prepared : PreparedRecipeQuery} :
    (∃ sql, substitutedSql prepared parameters types = .ok sql) ↔
      ∀ name quoted, .placeholder name quoted ∈ pieces none 0 prepared.baseSql.toList →
        ∃ output, renderPiece parameters types (.placeholder name quoted) = .ok output := by
  rw [← renderPieces_all_ok]
  unfold substitutedSql
  cases parameters with
  | nil =>
      rw [List.isEmpty_nil, Bool.true_and, Bool.not_true, Bool.or_false]
      by_cases hcontains : containsQueryPlaceholders prepared.baseSql = true
      · rw [if_pos hcontains]
        refine iff_of_false (fun ⟨_, h⟩ => nomatch h) fun h => ?_
        obtain ⟨name, quoted, hpiece⟩ := containsQueryPlaceholders_iff.mp hcontains
        obtain ⟨value, hvalue, -⟩ := renderPiece_ok.mp (h _ hpiece)
        contradiction
      · rw [if_neg hcontains]
        refine iff_of_true ?_ fun piece hpiece => ?_
        · split
          · exact ⟨prepared.baseSql, rfl⟩
          · exact ⟨prepared.baseSql, rfl⟩
        · cases piece with
          | char c => exact ⟨[c], rfl⟩
          | placeholder name quoted =>
              exact absurd (containsQueryPlaceholders_iff.mpr ⟨name, quoted, hpiece⟩) hcontains
  | cons first rest =>
      rw [List.isEmpty_cons, Bool.false_and, Bool.not_false, Bool.or_true,
        if_neg Bool.false_ne_true, if_pos rfl, ← renderPieces_ok]
      unfold applyRuntimeParameterSubstitution
      rw [List.isEmpty_cons, if_neg Bool.false_ne_true]
      constructor
      · rintro ⟨sql, h⟩
        obtain ⟨output, houtput, -⟩ := bind_eq_ok.mp h
        exact ⟨output, houtput⟩
      · rintro ⟨output, houtput⟩
        exact ⟨String.ofList output, bind_eq_ok.mpr ⟨output, houtput, rfl⟩⟩

end Rendering

/-! ## What the preflight checks -/

section Preflight
variable {analysis : RecipeQuery → Result (String × JsonValue)} {queries : List RecipeQuery}
  {prepared : List PreparedRecipeQuery} {query : PreparedRecipeQuery}
  {parameters : Option ParameterMap} {types hints legacy : Option TypeMap}
  {recipeId context key name : String}

/-- The specifications of a prepared query are those of its SQL and its payload. -/
def SpecsOf (query : PreparedRecipeQuery) : Prop :=
  ∃ payload, query.parameterSpecs = buildQueryParameterSpecs query.baseSql payload

theorem prepareRecipeQueries_specsOf
    (h : prepareRecipeQueries analysis queries = .ok prepared) :
    ∀ query ∈ prepared, SpecsOf query := by
  intro query hquery
  obtain ⟨source, -, hsource⟩ := of_mem_mapM_ok h query hquery
  obtain ⟨resolved, -, hresult⟩ := bind_eq_ok.mp hsource
  cases Except.ok.inj hresult
  exact ⟨resolved.payload, rfl⟩

theorem SpecsOf.keyed (h : SpecsOf query) {spec : RecipeParameterSpec}
    (hspec : spec ∈ query.parameterSpecs) : Keyed spec := by
  obtain ⟨payload, hspecs⟩ := h
  exact buildQueryParameterSpecs_keyed (hspecs ▸ hspec)

theorem SpecsOf.covers (h : SpecsOf query) (hname : name ∈ placeholderNames query.baseSql)
    (hne : normalizeRecipeQueryKey name ≠ "") :
    ∃ spec ∈ query.parameterSpecs, spec.key = normalizeRecipeQueryKey name := by
  obtain ⟨payload, hspecs⟩ := h
  obtain ⟨spec, hspec, hkey⟩ := buildQueryParameterSpecs_covers hname hne
  exact ⟨spec, hspecs ▸ hspec, hkey⟩

def allSpecs (prepared : List PreparedRecipeQuery) : List RecipeParameterSpec :=
  prepared.flatMap PreparedRecipeQuery.parameterSpecs

theorem schemaOf_aggregates :
    Aggregates (allSpecs prepared) (schemaOf prepared parameters types).aggregatedSpecs := by
  have h := aggregateParameterSpecs_aggregates (prepared.map PreparedRecipeQuery.parameterSpecs)
  rw [← List.flatMap_def] at h
  exact h

/-- A parameter of the key is supplied, or some query declares one that is required or has a
default. -/
def Answered (parameters : Option ParameterMap) (prepared : List PreparedRecipeQuery)
    (key : String) : Prop :=
  (∃ parameter ∈ parameters.getD [], normalizeRecipeQueryKey parameter.1 = key) ∨
    SomeSpec (fun spec => spec.required || spec.hasDefault) (allSpecs prepared) key

/-- The preflight leaves nothing to report. -/
structure Ready (prepared : List PreparedRecipeQuery) (parameters : Option ParameterMap)
    (types : Option TypeMap) : Prop where
  present : ∀ spec ∈ (schemaOf prepared parameters types).aggregatedSpecs,
    spec.effectiveRequired = true →
      spec.key ∈ (schemaOf prepared parameters types).effectiveParameters.map Prod.fst
  coerced : ∀ query ∈ prepared, ∀ spec ∈ query.parameterSpecs, ∀ expectedType value,
    resolvePlaceholderTypeForSpec spec types = some expectedType →
    (schemaOf prepared parameters types).effectiveParameters.lookup spec.key = some value →
      ∃ text, coercePlaceholderValue value expectedType false = .ok text

theorem typeMismatch_of_error {effective : ParameterMap} {queryName expectedType : String}
    {spec : RecipeParameterSpec} {value : JsonValue} {error : DbtNovaError}
    (htype : resolvePlaceholderTypeForSpec spec types = some expectedType)
    (hvalue : effective.lookup spec.key = some value)
    (herror : coercePlaceholderValue value expectedType false = .error error) :
    typeMismatch effective types queryName spec =
      some ⟨queryName, spec.name, expectedType, error⟩ := by
  unfold typeMismatch
  rw [htype, Option.bind_some, hvalue, Option.bind_some, herror]

theorem ready_of_ensure
    (h : ensureRecipeParametersReady recipeId prepared (schemaOf prepared parameters types) =
      .ok ()) : Ready prepared parameters types := by
  unfold ensureRecipeParametersReady at h
  split at h
  · rename_i hempty
    rw [Bool.and_eq_true, List.isEmpty_iff, List.isEmpty_iff] at hempty
    obtain ⟨hmissing, hmismatches⟩ := hempty
    constructor
    · intro spec hspec hrequired
      by_contra habsent
      rw [← lookup_isSome_iff, Bool.not_eq_true, Option.isSome_eq_false_iff] at habsent
      have hlisted : spec.name ∈ (schemaOf prepared parameters types).missingParameters := by
        refine (List.perm_insertionSort _ _).mem_iff.mpr (List.mem_map_of_mem ?_)
        rw [List.mem_filter, Bool.and_eq_true, beq_iff_eq]
        exact ⟨hspec, hrequired, habsent⟩
      rw [hmissing] at hlisted
      exact List.not_mem_nil hlisted
    · intro query hquery spec hspec expectedType value htype hvalue
      cases hcoerced : coercePlaceholderValue value expectedType false with
      | ok text => exact ⟨text, rfl⟩
      | error error =>
          have hlisted : ⟨query.query.name, spec.name, expectedType, error⟩ ∈
              (schemaOf prepared parameters types).typeMismatches := by
            refine List.mem_flatMap.mpr ⟨query, hquery, List.mem_filterMap.mpr ⟨spec, hspec, ?_⟩⟩
            exact typeMismatch_of_error htype hvalue hcoerced
          rw [hmismatches] at hlisted
          exact absurd hlisted List.not_mem_nil
  · contradiction

/-- Behind the preflight a key has a value exactly when it is answered. -/
theorem mem_effective_iff (hready : Ready prepared parameters types) :
    key ∈ (schemaOf prepared parameters types).effectiveParameters.map Prod.fst ↔
      Answered parameters prepared key := by
  have haggregates : Aggregates (allSpecs prepared)
      (schemaOf prepared parameters types).aggregatedSpecs := schemaOf_aggregates
  have heffective : key ∈ (schemaOf prepared parameters types).effectiveParameters.map Prod.fst ↔
      _ := mem_effective (schemaOf prepared parameters types).aggregatedSpecs
  constructor
  · intro hkey
    rcases heffective.mp hkey with hsupplied | ⟨found, hfound, rfl, hdefault⟩
    · exact Or.inl hsupplied
    · obtain ⟨spec, hspec, hsame, hhas⟩ := (haggregates.default found hfound).mp hdefault
      exact Or.inr ⟨spec, hspec, hsame, Bool.or_eq_true_iff.mpr (Or.inr hhas)⟩
  · rintro (hsupplied | ⟨spec, hspec, rfl, hspecial⟩)
    · exact heffective.mpr (Or.inl hsupplied)
    · obtain ⟨found, hfound, hkey⟩ := haggregates.covers spec hspec
      by_cases hdefault : found.hasDefault = true
      · exact heffective.mpr (Or.inr ⟨found, hfound, hkey, hdefault⟩)
      · have hno : spec.hasDefault ≠ true := fun hhas =>
          hdefault ((haggregates.default found hfound).mpr ⟨spec, hspec, hkey.symm, hhas⟩)
        have hrequired : found.required = true := (haggregates.required found hfound).mpr
          ⟨spec, hspec, hkey.symm, (Bool.or_eq_true_iff.mp hspecial).resolve_right hno⟩
        rw [← hkey]
        apply hready.present found hfound
        unfold RecipeParameterSpec.effectiveRequired
        rw [hrequired, Bool.true_and, ← Option.not_isSome, Bool.not_eq_true']
        exact Bool.not_eq_true _ ▸ hdefault

theorem effective_lookup (hprepared : ∀ query ∈ prepared, SpecsOf query) (name : String) :
    getParameterValue name (schemaOf prepared parameters types).effectiveParameters =
      (schemaOf prepared parameters types).effectiveParameters.lookup
        (normalizeRecipeQueryKey name) := by
  have haggregates : Aggregates (allSpecs prepared)
      (schemaOf prepared parameters types).aggregatedSpecs := schemaOf_aggregates
  apply findSome_lookupKeys
  intro entry hentry
  refine effective_isKey ?_ (List.mem_map_of_mem hentry)
  intro found hfound
  obtain ⟨spec, hspec, hkey⟩ := haggregates.keys found hfound
  obtain ⟨query, hquery, hspec⟩ := List.mem_flatMap.mp hspec
  rw [← hkey, ((hprepared query hquery).keyed hspec).key]
  exact normalize_isKey spec.name

/-- The override of a specification is the hint for its key. -/
theorem resolvePlaceholderTypeForSpec_eq
    (htypes : resolveRecipePlaceholderTypes hints legacy context = .ok types)
    {spec : RecipeParameterSpec} (hspec : Keyed spec) :
    resolvePlaceholderTypeForSpec spec types =
      (((types.getD []).lookup spec.key).map toAsciiLowercase).or spec.placeholderType := by
  have hname : normalizeRecipeQueryKey spec.name = spec.key := hspec.key.symm
  have hkey : normalizeRecipeQueryKey spec.key = spec.key := by
    rw [hspec.key]
    exact normalize_isKey spec.name
  unfold resolvePlaceholderTypeForSpec
  rw [resolvePlaceholderValueType_eq htypes, resolvePlaceholderValueType_eq htypes, hname, hkey,
    Option.or_self]
  cases (types.getD []).lookup spec.key with
  | none => rfl
  | some runtimeOverride => rfl

theorem placeholderType_eq
    (htypes : resolveRecipePlaceholderTypes hints legacy context = .ok types) (name : String) :
    placeholderType name types =
      (((types.getD []).lookup (normalizeRecipeQueryKey name)).map toAsciiLowercase).getD
        "auto" := by
  unfold placeholderType
  rw [resolvePlaceholderValueType_eq htypes]
  cases (types.getD []).lookup (normalizeRecipeQueryKey name) with
  | none => exact toAsciiLowercase_auto
  | some hint => rfl

/-- Behind the preflight a placeholder is rendered exactly when it is answered. -/
theorem renderPiece_iff_answered
    (htypes : resolveRecipePlaceholderTypes hints legacy context = .ok types)
    (hprepared : ∀ query ∈ prepared, SpecsOf query) (hready : Ready prepared parameters types)
    (hquery : query ∈ prepared) {quoted : Bool}
    (hpiece : .placeholder name quoted ∈ pieces none 0 query.baseSql.toList) :
    (∃ output, renderPiece (schemaOf prepared parameters types).effectiveParameters types
        (.placeholder name quoted) = .ok output) ↔
      Answered parameters prepared (normalizeRecipeQueryKey name) := by
  rw [← mem_effective_iff hready, ← lookup_isSome_iff, renderPiece_ok, effective_lookup hprepared]
  constructor
  · rintro ⟨value, hvalue, -⟩
    exact hvalue ▸ rfl
  · intro hsome
    obtain ⟨value, hvalue⟩ := Option.isSome_iff_exists.mp hsome
    refine ⟨value, hvalue, ?_⟩
    cases hhint : (types.getD []).lookup (normalizeRecipeQueryKey name) with
    | none =>
        rw [placeholderType_eq htypes, hhint]
        exact ⟨_, coercePlaceholderValue_auto quoted⟩
    | some hint =>
        -- A hint has a key, so the query has a specification that was checked with it.
        have hne : normalizeRecipeQueryKey name ≠ "" :=
          ((mem_resolved htypes).mp (lookup_isSome_iff.mp (hhint ▸ rfl))).2
        obtain ⟨spec, hspec, hkey⟩ := (hprepared query hquery).covers
          (mem_placeholderNames.mpr ⟨quoted, hpiece⟩) hne
        have hexpected : resolvePlaceholderTypeForSpec spec types =
            some (toAsciiLowercase hint) := by
          rw [resolvePlaceholderTypeForSpec_eq htypes ((hprepared query hquery).keyed hspec), hkey,
            hhint]
          rfl
        obtain ⟨text, htext⟩ :=
          hready.coerced query hquery spec hspec _ value hexpected (hkey ▸ hvalue)
        rw [placeholderType_eq htypes, hhint]
        exact coercePlaceholderValue_quoted htext quoted

theorem renderRecipeQuerySql_ok (hexecutable : ensureRecipeQueryExecutable recipeId query = .ok ())
    {effective : ParameterMap} :
    (∃ sql, renderRecipeQuerySql recipeId query effective types = .ok sql) ↔
      ∃ sql, substitutedSql query effective types = .ok sql := by
  unfold renderRecipeQuerySql
  rw [hexecutable]
  cases hsql : substitutedSql query effective types with
  | ok sql => exact iff_of_true ⟨sql, rfl⟩ ⟨sql, rfl⟩
  | error error => exact iff_of_false (fun ⟨_, h⟩ => nomatch h) (fun ⟨_, h⟩ => nomatch h)

theorem renderRecipeStatements_ok {schema : RecipeParameterSchema}
    (hexecutable : ∀ query ∈ prepared, ensureRecipeQueryExecutable recipeId query = .ok ()) :
    (∃ statements, renderRecipeStatements recipeId prepared schema types = .ok statements) ↔
      ∀ query ∈ prepared, ∃ sql,
        substitutedSql query schema.effectiveParameters types = .ok sql := by
  unfold renderRecipeStatements
  rw [exists_mapM_ok]
  refine forall₂_congr fun query hquery => ?_
  rw [← renderRecipeQuerySql_ok (hexecutable query hquery)]
  constructor
  · rintro ⟨rendered, h⟩
    obtain ⟨sql, hsql, -⟩ := bind_eq_ok.mp h
    exact ⟨sql, hsql⟩
  · rintro ⟨sql, hsql⟩
    exact ⟨(query, sql), bind_eq_ok.mpr ⟨sql, hsql, rfl⟩⟩

/-- Behind an accepted preflight the selected queries are rendered exactly when each of their
placeholders is answered. -/
theorem renderRecipeStatements_iff_answered
    (htypes : resolveRecipePlaceholderTypes hints legacy context = .ok types)
    (hprepared : prepareRecipeQueries analysis queries = .ok prepared)
    {schema : RecipeParameterSchema}
    (hschema : recipeParameterSchema analysis queries parameters types = .ok schema)
    (hready : ensureRecipeParametersReady recipeId prepared schema = .ok ())
    (hexecutable : ∀ query ∈ prepared, ensureRecipeQueryExecutable recipeId query = .ok ()) :
    (∃ statements, renderRecipeStatements recipeId prepared schema types = .ok statements) ↔
      ∀ query ∈ prepared, ∀ name ∈ placeholderNames query.baseSql,
        Answered parameters prepared (normalizeRecipeQueryKey name) := by
  have hspecs := prepareRecipeQueries_specsOf hprepared
  obtain ⟨found, hfound, hresult⟩ := bind_eq_ok.mp hschema
  obtain rfl : prepared = found := Except.ok.inj (hprepared.symm.trans hfound)
  obtain rfl : schemaOf prepared parameters types = schema := Except.ok.inj hresult
  have hready : Ready prepared parameters types := ready_of_ensure hready
  rw [renderRecipeStatements_ok hexecutable]
  refine forall₂_congr fun query hquery => ?_
  rw [substitutedSql_ok]
  constructor
  · intro h name hname
    obtain ⟨quoted, hpiece⟩ := mem_placeholderNames.mp hname
    exact (renderPiece_iff_answered htypes hspecs hready hquery hpiece).mp (h name quoted hpiece)
  · intro h name quoted hpiece
    exact (renderPiece_iff_answered htypes hspecs hready hquery hpiece).mpr
      (h name (mem_placeholderNames.mpr ⟨quoted, hpiece⟩))

/-- A parameter is rendered with the type it was checked with exactly when a hint for it is
given or its specification asks for the default. -/
theorem placeholderType_eq_specType_iff
    (htypes : resolveRecipePlaceholderTypes hints legacy context = .ok types) {sql : String}
    {payload : JsonValue} {spec : RecipeParameterSpec}
    (hspec : spec ∈ buildQueryParameterSpecs sql payload)
    (hkey : normalizeRecipeQueryKey name = spec.key) :
    placeholderType name types = (resolvePlaceholderTypeForSpec spec types).getD "auto" ↔
      Hinted (hints.getD []) spec.key ∨ Hinted (legacy.getD []) spec.key ∨
        spec.placeholderType = none ∨ spec.placeholderType = some "auto" := by
  have hkeyed : Keyed spec := buildQueryParameterSpecs_keyed hspec
  rw [placeholderType_eq htypes, resolvePlaceholderTypeForSpec_eq htypes hkeyed, hkey]
  cases hhint : (types.getD []).lookup spec.key with
  | some hint =>
      have hsome : ((types.getD []).lookup spec.key).isSome = true := hhint ▸ rfl
      obtain ⟨hhinted, -⟩ := (mem_resolved htypes).mp (lookup_isSome_iff.mp hsome)
      refine iff_of_true rfl ?_
      cases hhinted with
      | inl hlegacy => exact Or.inr (Or.inl hlegacy)
      | inr hgiven => exact Or.inl hgiven
  | none =>
      have hnone : ¬ (Hinted (legacy.getD []) spec.key ∨ Hinted (hints.getD []) spec.key) := by
        intro hhinted
        have hsome := lookup_isSome_iff.mpr ((mem_resolved htypes).mpr ⟨hhinted, hkeyed.nonempty⟩)
        rw [hhint] at hsome
        contradiction
      rw [← or_assoc, or_comm (a := Hinted _ _), or_iff_right hnone]
      cases spec.placeholderType with
      | none => exact iff_of_true rfl (Or.inl rfl)
      | some declared =>
          rw [Option.map_none, Option.none_or, Option.getD_none, Option.getD_some, eq_comm]
          exact ⟨fun h => Or.inr (congrArg some h),
            fun h => Option.some.inj (h.resolve_left (Option.some_ne_none _))⟩

end Preflight

/-! ## A query with one parameter -/

section DayQuery

def dayQuery : RecipeQuery := ⟨"day.sql", "analyses/recipes/orders/day.sql", 1, "analysis.day"⟩

def dayPayload (contract : List (String × JsonValue)) : JsonValue :=
  .object
    [("compiled_code", .string "on __day__"),
      ("meta", .object [("nova", .object [("recipe", .object [("parameters",
        .object [("day", .object contract)])])])])]

def dayAnalysis (contract : List (String × JsonValue)) (_ : RecipeQuery) :
    Result (String × JsonValue) :=
  .ok ("analysis.day", dayPayload contract)

/-- The preflight accepts the query and no template marker stands in it. -/
def passes (parameters : Option ParameterMap) (types : Option TypeMap)
    (prepared : List PreparedRecipeQuery) : Bool :=
  (ensureRecipeParametersReady "orders" prepared (schemaOf prepared parameters types)).isOk &&
    prepared.all fun query => (ensureRecipeQueryExecutable "orders" query).isOk

theorem eq_ok_of_isOk {x : Except RecipeError Unit} (h : x.isOk = true) : x = .ok () := by
  cases x with
  | ok _ => rfl
  | error error => contradiction

theorem passes_iff {parameters : Option ParameterMap} {types : Option TypeMap}
    {prepared : List PreparedRecipeQuery} (h : passes parameters types prepared = true) :
    ensureRecipeParametersReady "orders" prepared (schemaOf prepared parameters types) = .ok () ∧
      ∀ query ∈ prepared, ensureRecipeQueryExecutable "orders" query = .ok () := by
  rw [passes, Bool.and_eq_true, List.all_eq_true] at h
  exact ⟨eq_ok_of_isOk h.1, fun query hquery => eq_ok_of_isOk (h.2 query hquery)⟩

theorem supplied_day_rendered_iff :
    ∃ prepared schema, prepareRecipeQueries (dayAnalysis []) [dayQuery] = .ok prepared ∧
      recipeParameterSchema (dayAnalysis []) [dayQuery] (some [("DAY", .string "x")]) none =
        .ok schema ∧
      ((∃ statements, renderRecipeStatements "orders" prepared schema none = .ok statements) ↔
        ∀ query ∈ prepared, ∀ name ∈ placeholderNames query.baseSql,
          Answered (some [("DAY", .string "x")]) prepared (normalizeRecipeQueryKey name)) := by
  have hpasses : (prepareRecipeQueries (dayAnalysis []) [dayQuery]).toOption.any
      (passes (some [("DAY", .string "x")]) none) = true := by decide
  obtain ⟨prepared, hprepared, hpassed⟩ := (Option.any_eq_true _ _).mp hpasses
  rw [toOption_eq_some] at hprepared
  obtain ⟨hready, hexecutable⟩ := passes_iff hpassed
  have hschema : recipeParameterSchema (dayAnalysis []) [dayQuery]
      (some [("DAY", .string "x")]) none = .ok _ := bind_eq_ok.mpr ⟨prepared, hprepared, rfl⟩
  have htypes : resolveRecipePlaceholderTypes none none "run_recipe" = .ok none := rfl
  exact ⟨prepared, _, hprepared, hschema,
    renderRecipeStatements_iff_answered htypes hprepared hschema hready hexecutable⟩

/-- An optional parameter without a default passes the preflight and fails the rendering. -/
theorem optional_day_not_rendered :
    ∃ prepared schema,
      prepareRecipeQueries (dayAnalysis [("required", .bool false)]) [dayQuery] = .ok prepared ∧
      recipeParameterSchema (dayAnalysis [("required", .bool false)]) [dayQuery] none none =
        .ok schema ∧
      ensureRecipeParametersReady "orders" prepared schema = .ok () ∧
      (∀ query ∈ prepared, ensureRecipeQueryExecutable "orders" query = .ok ()) ∧
      ¬ ∃ statements, renderRecipeStatements "orders" prepared schema none = .ok statements := by
  have hfails : (prepareRecipeQueries (dayAnalysis [("required", .bool false)])
      [dayQuery]).toOption.any (fun prepared => passes none none prepared &&
        !(renderRecipeStatements "orders" prepared (schemaOf prepared none none) none).isOk) =
      true := by decide
  obtain ⟨prepared, hprepared, hboth⟩ := (Option.any_eq_true _ _).mp hfails
  rw [toOption_eq_some] at hprepared
  rw [Bool.and_eq_true, Bool.not_eq_true'] at hboth
  obtain ⟨hready, hexecutable⟩ := passes_iff hboth.1
  refine ⟨prepared, _, hprepared, bind_eq_ok.mpr ⟨prepared, hprepared, rfl⟩, hready, hexecutable,
    ?_⟩
  rintro ⟨statements, hstatements⟩
  rw [hstatements] at hboth
  exact nomatch hboth.2

theorem hinted_day_type_iff :
    ∃ spec ∈ buildQueryParameterSpecs "on __day__" (dayPayload [("type", .string "number")]),
      placeholderType "day" (some [("day", "Raw")]) =
          (resolvePlaceholderTypeForSpec spec (some [("day", "Raw")])).getD "auto" ↔
        Hinted [("DAY", "Raw")] spec.key ∨ Hinted [] spec.key ∨
          spec.placeholderType = none ∨ spec.placeholderType = some "auto" := by
  have hfound : (buildQueryParameterSpecs "on __day__"
      (dayPayload [("type", .string "number")])).any
        (fun spec => normalizeRecipeQueryKey "day" == spec.key) = true := by decide
  obtain ⟨spec, hspec, hkey⟩ := List.any_eq_true.mp hfound
  have htypes : resolveRecipePlaceholderTypes (some [("DAY", "Raw")]) none "run_recipe" =
      .ok (some [("day", "Raw")]) := by decide
  exact ⟨spec, hspec, placeholderType_eq_specType_iff htypes hspec (beq_iff_eq.mp hkey)⟩

/-- A declared number is checked as a number and rendered by the default rules. -/
theorem declared_day_type_differs :
    "day" ∈ placeholderNames "on __day__" ∧
      ∃ spec ∈ buildQueryParameterSpecs "on __day__" (dayPayload [("type", .string "number")]),
        normalizeRecipeQueryKey "day" = spec.key ∧
          resolvePlaceholderTypeForSpec spec none = some "number" ∧
          placeholderType "day" none ≠ "number" := by
  have hfound : (buildQueryParameterSpecs "on __day__"
      (dayPayload [("type", .string "number")])).any (fun spec =>
        normalizeRecipeQueryKey "day" == spec.key &&
          resolvePlaceholderTypeForSpec spec none == some "number") = true := by decide
  obtain ⟨spec, hspec, hboth⟩ := List.any_eq_true.mp hfound
  rw [Bool.and_eq_true, beq_iff_eq, beq_iff_eq] at hboth
  exact ⟨by decide, spec, hspec, hboth.1, hboth.2, by decide⟩

end DayQuery

end DbtNova.RecipePreflight
