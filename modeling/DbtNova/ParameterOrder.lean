import DbtNova.KeyedWrites
import DbtNova.RecipePreflight

/-!
# The order of the supplied parameters

`build_effective_parameter_map` of `tools/recipes.rs` goes through the supplied parameters in the
order of a `HashMap` and writes each under its normalized key. What a placeholder reads, and with
it the rendered SQL, does not depend on the order exactly when no two spellings of the key of a
placeholder are supplied with different values.
-/
namespace DbtNova.ParameterOrder
open KeyedWrites RecipePlaceholder RecipeSpecs RecipePreflight

section Effective
variable {specs : List RecipeParameterSpec} {effective first second supplied : ParameterMap}
  {key : String}

/-- The default of the first specification that has one for the key. -/
def declared (specs : List RecipeParameterSpec) (key : String) : Option JsonValue :=
  specs.findSome? fun spec => if spec.key = key then spec.defaultValue else none

theorem lookup_addDefault (spec : RecipeParameterSpec) :
    (addDefault effective spec).lookup key =
      (effective.lookup key).or (if spec.key = key then spec.defaultValue else none) := by
  unfold addDefault
  cases spec.defaultValue with
  | none => rw [ite_self, Option.or_none]
  | some value =>
      by_cases hkey : spec.key = key
      · obtain rfl := hkey
        dsimp only
        cases hfound : effective.lookup spec.key with
        | none => simp
        | some found => simp [hfound]
      · have hne : (key == spec.key) = false := beq_false_of_ne (Ne.symm hkey)
        dsimp only
        rw [if_neg hkey, Option.or_none]
        split
        · rfl
        · rw [List.lookup_cons, hne]

theorem lookup_foldl_addDefault (specs : List RecipeParameterSpec) (effective : ParameterMap) :
    (specs.foldl addDefault effective).lookup key =
      (effective.lookup key).or (declared specs key) := by
  induction specs generalizing effective with
  | nil => exact Option.or_none.symm
  | cons spec specs ih =>
      rw [List.foldl_cons, ih, lookup_addDefault, Option.or_assoc]
      congr 1
      unfold declared
      rw [List.findSome?_cons]
      cases (if spec.key = key then spec.defaultValue else none) with
      | none => rfl
      | some value => rfl

/-- The key under which an entry is written. -/
def entryKey (entry : String × JsonValue) : String := normalizeRecipeQueryKey entry.1

theorem effective_lookup_eq (parameters : ParameterMap) :
    (buildEffectiveParameterMap (some parameters) specs).lookup key =
      ((writeAll entryKey Prod.snd parameters).lookup key).or (declared specs key) :=
  lookup_foldl_addDefault specs _

theorem effective_isEmpty (h : first.Perm second) :
    (buildEffectiveParameterMap (some first) specs).isEmpty =
      (buildEffectiveParameterMap (some second) specs).isEmpty := by
  have hkeys : ∀ key, key ∈ (buildEffectiveParameterMap (some first) specs).map Prod.fst ↔
      key ∈ (buildEffectiveParameterMap (some second) specs).map Prod.fst := by
    intro key
    rw [mem_effective, mem_effective]
    simp only [Option.getD_some, h.mem_iff]
  rw [Bool.eq_iff_iff, List.isEmpty_iff, List.isEmpty_iff, ← List.map_eq_nil_iff (f := Prod.fst),
    List.eq_nil_iff_forall_not_mem, ← List.map_eq_nil_iff (f := Prod.fst),
    List.eq_nil_iff_forall_not_mem]
  exact forall_congr' fun key => not_congr (hkeys key)

/-- The supplied spellings of the key have one value. -/
def SpellingsAgree (parameters : ParameterMap) (key : String) : Prop :=
  Agree entryKey Prod.snd key parameters

theorem effective_lookup_perm_iff (specs : List RecipeParameterSpec) :
    (∀ first second : ParameterMap, first.Perm supplied → second.Perm supplied →
        (buildEffectiveParameterMap (some first) specs).lookup key =
          (buildEffectiveParameterMap (some second) specs).lookup key) ↔
      SpellingsAgree supplied key := by
  rw [SpellingsAgree, ← lookup_writeAll_perm_iff]
  refine forall₄_congr fun first second hfirst hsecond => ?_
  rw [effective_lookup_eq, effective_lookup_eq]
  have hnone : (writeAll entryKey Prod.snd first).lookup key = none ↔
      (writeAll entryKey Prod.snd second).lookup key = none :=
    lookup_writeAll_none_congr (hfirst.trans hsecond.symm)
  cases hvalue : (writeAll entryKey Prod.snd first).lookup key with
  | none =>
      rw [hnone.mp hvalue]
      exact iff_of_true rfl rfl
  | some value =>
      cases hother : (writeAll entryKey Prod.snd second).lookup key with
      | none =>
          rw [hnone.mpr hother] at hvalue
          cases hvalue
      | some other => rw [Option.some_or, Option.some_or]

end Effective

section Rendering
variable {parameters other : ParameterMap} {types : Option TypeMap}

/-- Only what the placeholders read is rendered. -/
theorem renderPieces_congr {texts : List Piece}
    (h : ∀ name quoted, .placeholder name quoted ∈ texts →
      getParameterValue name parameters = getParameterValue name other) :
    renderPieces parameters types texts = renderPieces other types texts := by
  induction texts with
  | nil => rfl
  | cons piece texts ih =>
      have hpiece : renderPiece parameters types piece = renderPiece other types piece := by
        cases piece with
        | char c => rfl
        | placeholder name quoted =>
            rw [renderPiece, renderPiece, h name quoted List.mem_cons_self]
      have hrest := ih fun name quoted hmem => h name quoted (List.mem_cons_of_mem piece hmem)
      rw [renderPieces, renderPieces, hpiece, hrest]

theorem substitutedSql_congr {query : PreparedRecipeQuery}
    (hempty : parameters.isEmpty = other.isEmpty)
    (h : ∀ name ∈ placeholderNames query.baseSql,
      getParameterValue name parameters = getParameterValue name other) :
    substitutedSql query parameters types = substitutedSql query other types := by
  have hpieces : renderPieces parameters types (pieces none 0 query.baseSql.toList) =
      renderPieces other types (pieces none 0 query.baseSql.toList) :=
    renderPieces_congr fun name quoted hpiece => h name (mem_placeholderNames.mpr ⟨quoted, hpiece⟩)
  unfold substitutedSql applyRuntimeParameterSubstitution
  rw [hempty, hpieces]

/-- Every order of the supplied parameters gives the placeholders of the queries the same values
and the queries the same statements. -/
def OrderIndependent (prepared : List PreparedRecipeQuery) (supplied : ParameterMap)
    (types : Option TypeMap) : Prop :=
  ∀ first second : ParameterMap, first.Perm supplied → second.Perm supplied →
    ∀ query ∈ prepared,
      (∀ name ∈ placeholderNames query.baseSql,
        getParameterValue name (schemaOf prepared (some first) types).effectiveParameters =
          getParameterValue name (schemaOf prepared (some second) types).effectiveParameters) ∧
      ∀ recipeId,
        renderRecipeQuerySql recipeId query
            (schemaOf prepared (some first) types).effectiveParameters types =
          renderRecipeQuerySql recipeId query
            (schemaOf prepared (some second) types).effectiveParameters types

/-- The order of the supplied parameters does not matter exactly when the spellings of each
placeholder's key agree. -/
theorem orderIndependent_iff {analysis : RecipeQuery → Result (String × JsonValue)}
    {queries : List RecipeQuery} {prepared : List PreparedRecipeQuery}
    (hprepared : prepareRecipeQueries analysis queries = .ok prepared) (supplied : ParameterMap)
    (types : Option TypeMap) :
    OrderIndependent prepared supplied types ↔
      ∀ query ∈ prepared, ∀ name ∈ placeholderNames query.baseSql,
        SpellingsAgree supplied (normalizeRecipeQueryKey name) := by
  have hspecs := prepareRecipeQueries_specsOf hprepared
  constructor
  · intro h query hquery name hname
    rw [← effective_lookup_perm_iff (schemaOf prepared none types).aggregatedSpecs]
    intro first second hfirst hsecond
    have hvalue := (h first second hfirst hsecond query hquery).1 name hname
    rwa [effective_lookup hspecs, effective_lookup hspecs] at hvalue
  · intro h first second hfirst hsecond query hquery
    have hvalues : ∀ name ∈ placeholderNames query.baseSql,
        getParameterValue name (schemaOf prepared (some first) types).effectiveParameters =
          getParameterValue name (schemaOf prepared (some second) types).effectiveParameters := by
      intro name hname
      rw [effective_lookup hspecs, effective_lookup hspecs]
      exact (effective_lookup_perm_iff _).mpr (h query hquery name hname) first second hfirst
        hsecond
    refine ⟨hvalues, fun recipeId => ?_⟩
    have hempty : (schemaOf prepared (some first) types).effectiveParameters.isEmpty =
        (schemaOf prepared (some second) types).effectiveParameters.isEmpty :=
      effective_isEmpty (hfirst.trans hsecond.symm)
    rw [renderRecipeQuerySql, renderRecipeQuerySql, substitutedSql_congr hempty hvalues]

theorem orderIndependent_iff_day :
    ∃ prepared, prepareRecipeQueries (dayAnalysis []) [dayQuery] = .ok prepared ∧
      (OrderIndependent prepared [("DAY", .string "x"), ("region", .string "y")] none ↔
        ∀ query ∈ prepared, ∀ name ∈ placeholderNames query.baseSql,
          SpellingsAgree [("DAY", .string "x"), ("region", .string "y")]
            (normalizeRecipeQueryKey name)) := by
  have hprepared : prepareRecipeQueries (dayAnalysis []) [dayQuery] = .ok _ := rfl
  exact ⟨_, hprepared, orderIndependent_iff hprepared _ none⟩

/-- What the day query is rendered to. -/
def daySql (parameters : ParameterMap) (prepared : List PreparedRecipeQuery) : Option String :=
  prepared.head?.bind fun query => (renderRecipeQuerySql "orders" query
    (schemaOf prepared (some parameters) none).effectiveParameters none).toOption

/-- Of two spellings with different values the one that is written last is rendered. -/
theorem two_spellings_rendered_by_order :
    ∃ prepared, prepareRecipeQueries (dayAnalysis []) [dayQuery] = .ok prepared ∧
      daySql [("DAY", .string "x"), ("day", .string "y")] prepared = some "on 'y'" ∧
      daySql [("day", .string "y"), ("DAY", .string "x")] prepared = some "on 'x'" ∧
      ¬ OrderIndependent prepared [("DAY", .string "x"), ("day", .string "y")] none := by
  have hrendered : (prepareRecipeQueries (dayAnalysis []) [dayQuery]).toOption.any (fun prepared =>
      daySql [("DAY", .string "x"), ("day", .string "y")] prepared == some "on 'y'" &&
        daySql [("day", .string "y"), ("DAY", .string "x")] prepared == some "on 'x'") = true := by
    decide
  obtain ⟨prepared, hprepared, hboth⟩ := (Option.any_eq_true _ _).mp hrendered
  rw [toOption_eq_some] at hprepared
  rw [Bool.and_eq_true, beq_iff_eq, beq_iff_eq] at hboth
  refine ⟨prepared, hprepared, hboth.1, hboth.2, fun h => ?_⟩
  cases prepared with
  | nil => exact Option.some_ne_none _ hboth.1.symm
  | cons query rest =>
      have hsame := (h _ _ (List.Perm.refl _) (List.Perm.swap _ _ _) query List.mem_cons_self).2
        "orders"
      unfold daySql at hboth
      rw [List.head?_cons, Option.bind_some, Option.bind_some, hsame] at hboth
      exact absurd (hboth.1.symm.trans hboth.2) (by decide)

end Rendering

end DbtNova.ParameterOrder
