import DbtNova.EntityMeta
import DbtNova.RecipePlaceholder
import Mathlib.Data.List.Sort
import Mathlib.Data.String.Basic

/-!
# Parameters of recipe queries

The parameter specifications that `tools/recipes.rs` reads from the metadata of a query and
from the placeholders of its SQL, their union over several queries, and the values and types
that a call supplies. A `HashMap` is the list of its entries in the order of its iteration; of
two entries with one key the later one is in front.
-/
namespace DbtNova.RecipeSpecs
open Text JsonValue RecipePlaceholder

inductive SpecSource
  | metadata
  | placeholder
  deriving DecidableEq

structure RecipeParameterSpec where
  key : String
  name : String
  required : Bool
  placeholderType : Option String
  defaultValue : Option JsonValue
  description : Option String
  source : SpecSource

def RecipeParameterSpec.hasDefault (spec : RecipeParameterSpec) : Bool :=
  spec.defaultValue.isSome

def RecipeParameterSpec.effectiveRequired (spec : RecipeParameterSpec) : Bool :=
  spec.required && spec.defaultValue.isNone

/-! ## Metadata -/

def pointer (value : JsonValue) (path : List String) : Option JsonValue :=
  path.foldl (fun value key => value.bind fun value => value.get key) (some value)

def recipeContractRoots (payload : JsonValue) : List JsonValue :=
  (pointer payload ["meta", "nova", "recipe"]).toList ++
    (pointer payload ["config", "meta", "nova", "recipe"]).toList

def nonemptyTrimmed (value : String) : Option String :=
  if trim value = "" then none else some (trim value)

/-- The specification of a name, unless its key is empty. -/
def metadataSpec (name : String) (required : Bool) (placeholderType : Option String)
    (defaultValue : Option JsonValue) (description : Option String) :
    Option RecipeParameterSpec :=
  let key := normalizeRecipeQueryKey name
  if key = "" then none
  else some ⟨key, name, required, placeholderType, defaultValue, description, .metadata⟩

def parseMetadataParameterObject (nameHint : Option String) (value : JsonValue) :
    Option RecipeParameterSpec :=
  match value with
  | .object _ =>
      (((value.getStr "name").or nameHint).bind nonemptyTrimmed).bind fun name =>
        let defaultValue := value.get "default"
        let required := ((value.get "required").bind asBool).getD defaultValue.isNone
        let placeholderType :=
          ((((value.getStr "type").or (value.getStr "placeholder_type")).or
            (value.getStr "parameter_type")).bind nonemptyTrimmed).map toAsciiLowercase
        let description := (value.getStr "description").bind nonemptyTrimmed
        metadataSpec name required placeholderType defaultValue description
  | .string text =>
      (nameHint.bind nonemptyTrimmed).bind fun name =>
        metadataSpec name true (some (toAsciiLowercase (trim text))) none none
  | _ => none

def parseMetadataParameterList (entry : JsonValue) : Option RecipeParameterSpec :=
  match entry with
  | .object _ =>
      ((((entry.get "name").or (entry.get "parameter")).or (entry.get "id")).bind asStr).bind
        fun name => parseMetadataParameterObject (some name) entry
  | _ => none

/-- The specifications of one root in the order of its parameters. -/
def rootSpecs (root : JsonValue) : List RecipeParameterSpec :=
  match root.get "parameters" with
  | some (.object fields) =>
      fields.filterMap fun field => parseMetadataParameterObject (some field.1) field.2
  | some (.array entries) => entries.filterMap parseMetadataParameterList
  | _ => []

def insertSpec (specs : List RecipeParameterSpec) (spec : RecipeParameterSpec) :
    List RecipeParameterSpec :=
  spec :: specs.filter fun other => other.key != spec.key

def metadataParameterSpecs (payload : JsonValue) : List RecipeParameterSpec :=
  ((recipeContractRoots payload).flatMap rootSpecs).foldl insertSpec []

/-! ## Placeholders -/

def Piece.name? : Piece → Option String
  | .char _ => none
  | .placeholder name _ => some name

/-- The names of the placeholders in the order of the text. -/
def placeholderNames (sql : String) : List String :=
  (pieces none 0 sql.toList).filterMap Piece.name?

/-- Of the names with one key the first is taken. -/
def addName (names : List String) (name : String) : List String :=
  if names.any fun other => normalizeRecipeQueryKey other == normalizeRecipeQueryKey name then
    names
  else names ++ [name]

def extractQueryPlaceholders (sql : String) : List String :=
  (placeholderNames sql).foldl addName []

def containsQueryPlaceholders (sql : String) : Bool := !(placeholderNames sql).isEmpty

def addPlaceholder (specs : List RecipeParameterSpec) (token : String) :
    List RecipeParameterSpec :=
  let key := normalizeRecipeQueryKey token
  if key = "" then specs
  else if specs.any fun spec => spec.key == key then specs
  else ⟨key, token, true, none, none, none, .placeholder⟩ :: specs

def sortByName (specs : List RecipeParameterSpec) : List RecipeParameterSpec :=
  specs.insertionSort fun a b => a.name ≤ b.name

def buildQueryParameterSpecs (sql : String) (payload : JsonValue) : List RecipeParameterSpec :=
  sortByName ((extractQueryPlaceholders sql).foldl addPlaceholder
    (metadataParameterSpecs payload))

/-! ## Several queries -/

def mergeParameterSpecs (existing incoming : RecipeParameterSpec) : RecipeParameterSpec where
  key := existing.key
  name :=
    if existing.name ≠ incoming.name ∧ toAsciiLowercase existing.name = existing.name ∧
        toAsciiUppercase incoming.name = incoming.name then incoming.name
    else existing.name
  required := existing.required || incoming.required
  placeholderType := existing.placeholderType.or incoming.placeholderType
  defaultValue := existing.defaultValue.or incoming.defaultValue
  description := existing.description.or incoming.description
  source :=
    if existing.source = .placeholder ∧ incoming.source = .metadata then .metadata
    else existing.source

def aggregateSpec (merged : List RecipeParameterSpec) (spec : RecipeParameterSpec) :
    List RecipeParameterSpec :=
  if merged.any fun existing => existing.key == spec.key then
    merged.map fun existing =>
      if existing.key = spec.key then mergeParameterSpecs existing spec else existing
  else spec :: merged

def aggregateParameterSpecs (specs : List (List RecipeParameterSpec)) :
    List RecipeParameterSpec :=
  sortByName (specs.flatten.foldl aggregateSpec [])

/-! ## Values and types of a call -/

def normalizedParameters (parameters : ParameterMap) : ParameterMap :=
  parameters.foldl
    (fun effective parameter =>
      (normalizeRecipeQueryKey parameter.1, parameter.2) :: effective)
    []

/-- The default of a parameter that has no value. -/
def addDefault (effective : ParameterMap) (spec : RecipeParameterSpec) : ParameterMap :=
  match spec.defaultValue with
  | some value =>
      if (effective.lookup spec.key).isSome then effective else (spec.key, value) :: effective
  | none => effective

def buildEffectiveParameterMap (parameters : Option ParameterMap)
    (specs : List RecipeParameterSpec) : ParameterMap :=
  specs.foldl addDefault (normalizedParameters (parameters.getD []))

/-- The key of a type hint in the merged map; an empty one is left out. -/
def mergedKey (normalizeKeys : Bool) (key : String) : Option String :=
  let key := if normalizeKeys then normalizeRecipeQueryKey key else key
  if key = "" then none else some key

def addFallback (normalizeKeys : Bool) (merged : TypeMap) (entry : String × String) : TypeMap :=
  match mergedKey normalizeKeys entry.1 with
  | none => merged
  | some key => (key, entry.2) :: merged

def addPrimary (normalizeKeys : Bool) (context primaryName fallbackName : String)
    (merged : TypeMap) (entry : String × String) : Result TypeMap :=
  match mergedKey normalizeKeys entry.1 with
  | none => .ok merged
  | some key =>
      if (merged.lookup key).any (· != entry.2) then
        .error (.invalidParams (context ++ ": conflicting type hints for '" ++ entry.1 ++
          "' between " ++ primaryName ++ " and " ++ fallbackName))
      else .ok ((key, entry.2) :: merged)

def mergeOptionalTypeMaps (primary fallback : Option TypeMap)
    (context primaryName fallbackName : String) (normalizeKeys : Bool) :
    Result (Option TypeMap) := do
  let fallen := (fallback.getD []).foldl (addFallback normalizeKeys) []
  let merged ← (primary.getD []).foldlM
    (addPrimary normalizeKeys context primaryName fallbackName) fallen
  return if merged.isEmpty then none else some merged

def resolveRecipePlaceholderTypes (placeholderTypes legacyParameterTypes : Option TypeMap)
    (context : String) : Result (Option TypeMap) :=
  mergeOptionalTypeMaps placeholderTypes legacyParameterTypes context "placeholder_types"
    "parameter_types" true

def resolvePlaceholderTypeForSpec (spec : RecipeParameterSpec)
    (placeholderTypes : Option TypeMap) : Option String :=
  match (resolvePlaceholderValueType spec.name placeholderTypes).or
      (resolvePlaceholderValueType spec.key placeholderTypes) with
  | some runtimeOverride => some (toAsciiLowercase runtimeOverride)
  | none => spec.placeholderType

/-! ## Spellings of a key -/

section Spellings

/-- The key under which a map with normalized keys holds a name. -/
def IsKey (key : String) : Prop := normalizeRecipeQueryKey key = key

theorem normalize_isKey (name : String) : IsKey (normalizeRecipeQueryKey name) := by
  unfold IsKey normalizeRecipeQueryKey
  rw [trim_toAsciiLowercase, trim_trim, toAsciiLowercase_idem]

theorem normalize_lower (name : String) :
    normalizeRecipeQueryKey (toAsciiLowercase name) = normalizeRecipeQueryKey name := by
  unfold normalizeRecipeQueryKey
  rw [trim_toAsciiLowercase, toAsciiLowercase_idem]

theorem normalize_upper (name : String) :
    normalizeRecipeQueryKey (toAsciiUppercase name) = normalizeRecipeQueryKey name := by
  unfold normalizeRecipeQueryKey
  rw [trim_toAsciiUppercase, toAsciiLowercase_upper]

/-- Of the spellings of a name only its key can be found among normalized keys. -/
theorem findSome_lookupKeys {α : Type} {map : List (String × α)}
    (hmap : ∀ entry ∈ map, IsKey entry.1) (name : String) :
    ((lookupKeys name).findSome? fun c => map.lookup c) =
      map.lookup (normalizeRecipeQueryKey name) := by
  have hspelling : ∀ c, normalizeRecipeQueryKey c = normalizeRecipeQueryKey name →
      ∀ value, map.lookup c = some value →
        map.lookup (normalizeRecipeQueryKey name) = some value := by
    intro c hc value hvalue
    obtain ⟨before, after, hentries, -⟩ := List.lookup_eq_some_iff.mp hvalue
    have hkey : IsKey c := hmap (c, value) (hentries ▸ List.mem_append_right _ List.mem_cons_self)
    rw [← hc, hkey, hvalue]
  have hall : ∀ c ∈ lookupKeys name, normalizeRecipeQueryKey c = normalizeRecipeQueryKey name := by
    intro c hc
    simp only [lookupKeys, List.mem_cons, List.not_mem_nil, or_false] at hc
    rcases hc with rfl | rfl | rfl | rfl
    · rfl
    · exact normalize_lower name
    · exact normalize_upper name
    · exact normalize_isKey name
  cases hfound : (lookupKeys name).findSome? fun c => map.lookup c with
  | none =>
      have hkey := List.findSome?_eq_none_iff.mp hfound (normalizeRecipeQueryKey name)
      exact (hkey (by simp [lookupKeys])).symm
  | some value =>
      obtain ⟨before, c, after, hkeys, hvalue, -⟩ := List.findSome?_eq_some_iff.mp hfound
      have hc := hall c (hkeys ▸ List.mem_append_right _ List.mem_cons_self)
      exact (hspelling c hc value hvalue).symm

theorem lookup_isSome_iff {α : Type} {map : List (String × α)} {key : String} :
    (map.lookup key).isSome = true ↔ key ∈ map.map Prod.fst := by
  rw [← not_iff_not, Bool.not_eq_true, Option.isSome_eq_false_iff, Option.isNone_iff_eq_none,
    List.lookup_eq_none_iff, List.mem_map]
  simp only [bne_iff_ne, not_exists, not_and]
  exact forall₂_congr fun entry _ => ne_comm

end Spellings

/-! ## The keys of specifications -/

section Keys
variable {specs : List RecipeParameterSpec} {spec : RecipeParameterSpec}

/-- The key is that of the name. -/
structure Keyed (spec : RecipeParameterSpec) : Prop where
  key : spec.key = normalizeRecipeQueryKey spec.name
  nonempty : spec.key ≠ ""

theorem metadataSpec_keyed {name : String} {required : Bool} {placeholderType : Option String}
    {defaultValue : Option JsonValue} {description : Option String}
    (h : metadataSpec name required placeholderType defaultValue description = some spec) :
    Keyed spec := by
  unfold metadataSpec at h
  dsimp only at h
  split at h
  · contradiction
  · rename_i hkey
    cases Option.some.inj h
    exact ⟨rfl, hkey⟩

theorem parseMetadataParameterObject_keyed {nameHint : Option String} {value : JsonValue}
    (h : parseMetadataParameterObject nameHint value = some spec) : Keyed spec := by
  unfold parseMetadataParameterObject at h
  split at h
  · obtain ⟨name, -, hspec⟩ := Option.bind_eq_some_iff.mp h
    exact metadataSpec_keyed hspec
  · obtain ⟨name, -, hspec⟩ := Option.bind_eq_some_iff.mp h
    exact metadataSpec_keyed hspec
  · contradiction

theorem rootSpecs_keyed {root : JsonValue} (h : spec ∈ rootSpecs root) : Keyed spec := by
  unfold rootSpecs at h
  split at h
  · obtain ⟨field, -, hspec⟩ := List.mem_filterMap.mp h
    exact parseMetadataParameterObject_keyed hspec
  · obtain ⟨entry, -, hspec⟩ := List.mem_filterMap.mp h
    unfold parseMetadataParameterList at hspec
    split at hspec
    · obtain ⟨name, -, hspec⟩ := Option.bind_eq_some_iff.mp hspec
      exact parseMetadataParameterObject_keyed hspec
    · contradiction
  · exact absurd h List.not_mem_nil

theorem metadataParameterSpecs_keyed {payload : JsonValue}
    (h : spec ∈ metadataParameterSpecs payload) : Keyed spec := by
  have hfold : ∀ (found specs : List RecipeParameterSpec), (∀ spec ∈ found, Keyed spec) →
      (∀ spec ∈ specs, Keyed spec) → ∀ spec ∈ found.foldl insertSpec specs, Keyed spec := by
    intro found
    induction found with
    | nil => exact fun _ _ hspecs => hspecs
    | cons first found ih =>
        intro specs hfound hspecs
        apply ih _ (fun spec hspec => hfound spec (List.mem_cons_of_mem _ hspec))
        intro spec hspec
        cases List.mem_cons.mp hspec with
        | inl heq => exact heq ▸ hfound first List.mem_cons_self
        | inr hold => exact hspecs spec (List.mem_filter.mp hold).1
  refine hfold _ [] ?_ (fun _ hspec => absurd hspec List.not_mem_nil) spec h
  intro spec hspec
  obtain ⟨root, -, hroot⟩ := List.mem_flatMap.mp hspec
  exact rootSpecs_keyed hroot

theorem mem_addPlaceholder {token : String} :
    spec ∈ addPlaceholder specs token → spec ∈ specs ∨
      Keyed spec ∧ spec.key = normalizeRecipeQueryKey token := by
  unfold addPlaceholder
  dsimp only
  split
  · exact Or.inl
  · rename_i hkey
    split
    · exact Or.inl
    · intro hspec
      cases List.mem_cons.mp hspec with
      | inl heq => exact Or.inr ⟨heq ▸ ⟨rfl, hkey⟩, heq ▸ rfl⟩
      | inr hold => exact Or.inl hold

/-- Behind a token there is a specification of its key, unless the key is empty. -/
theorem addPlaceholder_covers {token : String} (h : normalizeRecipeQueryKey token ≠ "") :
    ∃ spec ∈ addPlaceholder specs token, spec.key = normalizeRecipeQueryKey token := by
  unfold addPlaceholder
  dsimp only
  rw [if_neg h]
  split
  · rename_i hany
    obtain ⟨spec, hspec, hkey⟩ := List.any_eq_true.mp hany
    exact ⟨spec, hspec, beq_iff_eq.mp hkey⟩
  · exact ⟨_, List.mem_cons_self, rfl⟩

theorem addPlaceholder_subset {token : String} (h : spec ∈ specs) :
    spec ∈ addPlaceholder specs token := by
  unfold addPlaceholder
  dsimp only
  split
  · exact h
  · split
    · exact h
    · exact List.mem_cons_of_mem _ h

theorem foldl_addPlaceholder_subset (tokens : List String) (h : spec ∈ specs) :
    spec ∈ tokens.foldl addPlaceholder specs := by
  induction tokens generalizing specs with
  | nil => exact h
  | cons token tokens ih =>
      rw [List.foldl_cons]
      exact ih (addPlaceholder_subset h)

theorem foldl_addPlaceholder_covers (tokens : List String) {token : String}
    (hmem : token ∈ tokens) (h : normalizeRecipeQueryKey token ≠ "") :
    ∃ spec ∈ tokens.foldl addPlaceholder specs, spec.key = normalizeRecipeQueryKey token := by
  induction tokens generalizing specs with
  | nil => exact absurd hmem List.not_mem_nil
  | cons first tokens ih =>
      rw [List.foldl_cons]
      cases List.mem_cons.mp hmem with
      | inl heq =>
          obtain ⟨spec, hspec, hkey⟩ : ∃ spec ∈ addPlaceholder specs token, _ :=
            addPlaceholder_covers h
          exact ⟨spec, foldl_addPlaceholder_subset tokens (heq ▸ hspec), hkey⟩
      | inr hrest => exact ih hrest

theorem foldl_addPlaceholder_keyed (tokens : List String) (h : ∀ spec ∈ specs, Keyed spec) :
    ∀ spec ∈ tokens.foldl addPlaceholder specs, Keyed spec := by
  induction tokens generalizing specs with
  | nil => exact h
  | cons token tokens ih =>
      rw [List.foldl_cons]
      apply ih
      intro spec hspec
      cases mem_addPlaceholder hspec with
      | inl hold => exact h spec hold
      | inr hnew => exact hnew.1

theorem addName_keys (names : List String) (name : String) :
    (∀ other ∈ names, other ∈ addName names name) ∧
      ∃ token ∈ addName names name,
        normalizeRecipeQueryKey token = normalizeRecipeQueryKey name := by
  unfold addName
  split
  · rename_i hany
    obtain ⟨token, htoken, hkey⟩ := List.any_eq_true.mp hany
    exact ⟨fun _ hother => hother, token, htoken, beq_iff_eq.mp hkey⟩
  · exact ⟨fun _ hother => List.mem_append_left _ hother, name,
      List.mem_append_right _ (List.mem_singleton_self name), rfl⟩

/-- Of each key a name is extracted. -/
theorem foldl_addName_covers (todo names : List String) {name : String}
    (h : name ∈ names ∨ name ∈ todo) :
    ∃ token ∈ todo.foldl addName names,
      normalizeRecipeQueryKey token = normalizeRecipeQueryKey name := by
  induction todo generalizing names name with
  | nil => exact ⟨name, h.resolve_right List.not_mem_nil, rfl⟩
  | cons first todo ih =>
      obtain ⟨hkept, token, htoken, hkey⟩ := addName_keys names first
      rw [List.foldl_cons]
      rw [List.mem_cons] at h
      rcases h with hin | heq | hin
      · exact ih _ (Or.inl (hkept name hin))
      · obtain ⟨found, hfound, hsame⟩ := ih (addName names first) (Or.inl htoken)
        exact ⟨found, hfound, by rw [hsame, hkey, heq]⟩
      · exact ih _ (Or.inr hin)

theorem mem_sortByName : spec ∈ sortByName specs ↔ spec ∈ specs :=
  (List.perm_insertionSort _ specs).mem_iff

theorem buildQueryParameterSpecs_keyed {sql : String} {payload : JsonValue}
    (h : spec ∈ buildQueryParameterSpecs sql payload) : Keyed spec :=
  foldl_addPlaceholder_keyed _ (fun _ hspec => metadataParameterSpecs_keyed hspec) spec
    (mem_sortByName.mp h)

/-- A placeholder of the SQL has a specification, unless its key is empty. -/
theorem buildQueryParameterSpecs_covers {sql name : String} {payload : JsonValue}
    (hname : name ∈ placeholderNames sql) (h : normalizeRecipeQueryKey name ≠ "") :
    ∃ spec ∈ buildQueryParameterSpecs sql payload, spec.key = normalizeRecipeQueryKey name := by
  obtain ⟨token, htoken, hkey⟩ : ∃ token ∈ extractQueryPlaceholders sql, _ :=
    foldl_addName_covers (placeholderNames sql) [] (Or.inr hname)
  rw [← hkey] at h
  obtain ⟨spec, hspec, hspecKey⟩ : ∃ spec ∈ (extractQueryPlaceholders sql).foldl addPlaceholder
      (metadataParameterSpecs payload), _ := foldl_addPlaceholder_covers _ htoken h
  exact ⟨spec, mem_sortByName.mpr hspec, hspecKey.trans hkey⟩

end Keys

/-! ## What several queries ask for together -/

section Aggregate
variable {specs merged : List RecipeParameterSpec} {key : String}

/-- Some specification of the key has the property. -/
def SomeSpec (property : RecipeParameterSpec → Bool) (specs : List RecipeParameterSpec)
    (key : String) : Prop :=
  ∃ spec ∈ specs, spec.key = key ∧ property spec = true

/-- The merged specifications have the keys of the given ones, a specification is required
when one of its key is, and has a default when one of its key has. -/
structure Aggregates (specs merged : List RecipeParameterSpec) : Prop where
  covers : ∀ spec ∈ specs, ∃ found ∈ merged, found.key = spec.key
  keys : ∀ found ∈ merged, ∃ spec ∈ specs, spec.key = found.key
  required : ∀ found ∈ merged,
    found.required = true ↔ SomeSpec RecipeParameterSpec.required specs found.key
  default : ∀ found ∈ merged,
    found.hasDefault = true ↔ SomeSpec RecipeParameterSpec.hasDefault specs found.key

theorem someSpec_concat {property : RecipeParameterSpec → Bool} {spec : RecipeParameterSpec} :
    SomeSpec property (specs ++ [spec]) key ↔
      SomeSpec property specs key ∨ spec.key = key ∧ property spec = true := by
  unfold SomeSpec
  simp only [List.mem_append, List.mem_singleton, or_and_right, exists_or, exists_eq_left]

theorem someSpec_concat_of_ne {property : RecipeParameterSpec → Bool}
    {spec : RecipeParameterSpec} (h : spec.key ≠ key) :
    SomeSpec property (specs ++ [spec]) key ↔ SomeSpec property specs key := by
  rw [someSpec_concat, or_iff_left fun hspec => h hspec.1]

theorem someSpec_concat_of_fresh {property : RecipeParameterSpec → Bool}
    {spec : RecipeParameterSpec} (h : ∀ other ∈ specs, other.key ≠ spec.key) :
    SomeSpec property (specs ++ [spec]) spec.key ↔ property spec = true := by
  rw [someSpec_concat, and_iff_right rfl, or_iff_right]
  rintro ⟨other, hother, hkey, -⟩
  exact h other hother hkey

theorem mergeParameterSpecs_hasDefault (existing incoming : RecipeParameterSpec) :
    (mergeParameterSpecs existing incoming).hasDefault =
      (existing.hasDefault || incoming.hasDefault) :=
  Option.isSome_or

theorem aggregates_merge {spec : RecipeParameterSpec} (h : Aggregates specs merged)
    (hany : ∃ existing ∈ merged, existing.key = spec.key) :
    Aggregates (specs ++ [spec]) (merged.map fun existing =>
      if existing.key = spec.key then mergeParameterSpecs existing spec else existing) := by
  have hkey : ∀ existing : RecipeParameterSpec, (if existing.key = spec.key then
      mergeParameterSpecs existing spec else existing).key = existing.key := by
    intro existing
    split <;> rfl
  have hmerged : ∀ property : RecipeParameterSpec → Bool,
      (∀ existing, property (mergeParameterSpecs existing spec) =
        (property existing || property spec)) →
      (∀ found ∈ merged, property found = true ↔ SomeSpec property specs found.key) →
      ∀ existing ∈ merged, property (if existing.key = spec.key then
          mergeParameterSpecs existing spec else existing) = true ↔
        SomeSpec property (specs ++ [spec]) existing.key := by
    intro property hproperty hold existing hexisting
    by_cases hsame : existing.key = spec.key
    · rw [if_pos hsame, someSpec_concat, ← hold existing hexisting, and_iff_right hsame.symm,
        hproperty, Bool.or_eq_true]
    · rw [if_neg hsame, someSpec_concat_of_ne fun heq => hsame heq.symm]
      exact hold existing hexisting
  refine ⟨?_, ?_, ?_, ?_⟩
  · intro wanted hwanted
    obtain ⟨existing, hexisting, hsame⟩ : ∃ existing ∈ merged, existing.key = wanted.key := by
      rcases List.mem_append.mp hwanted with hold | hnew
      · exact h.covers wanted hold
      · exact List.mem_singleton.mp hnew ▸ hany
    exact ⟨_, List.mem_map_of_mem hexisting, (hkey existing).trans hsame⟩
  · intro found hfound
    obtain ⟨existing, hexisting, rfl⟩ := List.mem_map.mp hfound
    obtain ⟨source, hsource, hsame⟩ := h.keys existing hexisting
    exact ⟨source, List.mem_append_left _ hsource, hsame.trans (hkey existing).symm⟩
  · intro found hfound
    obtain ⟨existing, hexisting, rfl⟩ := List.mem_map.mp hfound
    rw [hkey]
    exact hmerged RecipeParameterSpec.required (fun _ => rfl) h.required existing hexisting
  · intro found hfound
    obtain ⟨existing, hexisting, rfl⟩ := List.mem_map.mp hfound
    rw [hkey]
    exact hmerged RecipeParameterSpec.hasDefault
      (fun existing => mergeParameterSpecs_hasDefault existing spec) h.default existing hexisting

theorem aggregates_cons {spec : RecipeParameterSpec} (h : Aggregates specs merged)
    (hfresh : ∀ existing ∈ merged, existing.key ≠ spec.key) :
    Aggregates (specs ++ [spec]) (spec :: merged) := by
  have hspecs : ∀ other ∈ specs, other.key ≠ spec.key := by
    intro other hother hkey
    obtain ⟨found, hfound, hsame⟩ := h.covers other hother
    exact hfresh found hfound (hsame.trans hkey)
  refine ⟨?_, ?_, ?_, ?_⟩
  · intro wanted hwanted
    rcases List.mem_append.mp hwanted with hold | hnew
    · obtain ⟨found, hfound, hsame⟩ := h.covers wanted hold
      exact ⟨found, List.mem_cons_of_mem _ hfound, hsame⟩
    · exact ⟨spec, List.mem_cons_self, List.mem_singleton.mp hnew ▸ rfl⟩
  · intro found hfound
    rcases List.mem_cons.mp hfound with rfl | hold
    · exact ⟨found, List.mem_append_right _ (List.mem_singleton_self found), rfl⟩
    · obtain ⟨source, hsource, hsame⟩ := h.keys found hold
      exact ⟨source, List.mem_append_left _ hsource, hsame⟩
  · intro found hfound
    rcases List.mem_cons.mp hfound with rfl | hold
    · exact (someSpec_concat_of_fresh hspecs).symm
    · rw [someSpec_concat_of_ne (hfresh found hold).symm]
      exact h.required found hold
  · intro found hfound
    rcases List.mem_cons.mp hfound with rfl | hold
    · exact (someSpec_concat_of_fresh hspecs).symm
    · rw [someSpec_concat_of_ne (hfresh found hold).symm]
      exact h.default found hold

theorem aggregates_step {spec : RecipeParameterSpec} (h : Aggregates specs merged) :
    Aggregates (specs ++ [spec]) (aggregateSpec merged spec) := by
  unfold aggregateSpec
  split
  · rename_i hany
    obtain ⟨existing, hexisting, hkey⟩ := List.any_eq_true.mp hany
    exact aggregates_merge h ⟨existing, hexisting, beq_iff_eq.mp hkey⟩
  · rename_i hany
    apply aggregates_cons h
    intro existing hexisting hkey
    exact hany (List.any_eq_true.mpr ⟨existing, hexisting, beq_iff_eq.mpr hkey⟩)

theorem aggregates_specs (specs : List RecipeParameterSpec) :
    Aggregates specs (specs.foldl aggregateSpec []) := by
  induction specs using List.reverseRecOn with
  | nil =>
      exact ⟨fun _ hspec => absurd hspec List.not_mem_nil,
        fun _ hfound => absurd hfound List.not_mem_nil,
        fun _ hfound => absurd hfound List.not_mem_nil,
        fun _ hfound => absurd hfound List.not_mem_nil⟩
  | append_singleton specs spec ih =>
      rw [List.foldl_concat]
      exact aggregates_step ih

theorem aggregateParameterSpecs_aggregates (specs : List (List RecipeParameterSpec)) :
    Aggregates specs.flatten (aggregateParameterSpecs specs) := by
  have h := aggregates_specs specs.flatten
  refine ⟨?_, ?_, ?_, ?_⟩
  · intro spec hspec
    obtain ⟨found, hfound, hkey⟩ := h.covers spec hspec
    exact ⟨found, mem_sortByName.mpr hfound, hkey⟩
  · exact fun found hfound => h.keys found (mem_sortByName.mp hfound)
  · exact fun found hfound => h.required found (mem_sortByName.mp hfound)
  · exact fun found hfound => h.default found (mem_sortByName.mp hfound)

end Aggregate

/-! ## What a call has a value for -/

section Effective
variable {effective : ParameterMap} {key : String}

theorem mem_normalizedParameters {parameters : ParameterMap} :
    key ∈ (normalizedParameters parameters).map Prod.fst ↔
      ∃ parameter ∈ parameters, normalizeRecipeQueryKey parameter.1 = key := by
  have hfold : ∀ effective : ParameterMap,
      key ∈ (parameters.foldl (fun effective parameter =>
          (normalizeRecipeQueryKey parameter.1, parameter.2) :: effective)
        effective).map Prod.fst ↔
      key ∈ effective.map Prod.fst ∨
        ∃ parameter ∈ parameters, normalizeRecipeQueryKey parameter.1 = key := by
    induction parameters with
    | nil => simp
    | cons parameter parameters ih =>
        intro effective
        rw [List.foldl_cons, ih, List.map_cons, List.mem_cons, List.exists_mem_cons_iff,
          or_assoc, or_left_comm, eq_comm]
  exact (hfold []).trans (or_iff_right List.not_mem_nil)

theorem mem_addDefault {spec : RecipeParameterSpec} :
    key ∈ (addDefault effective spec).map Prod.fst ↔
      key ∈ effective.map Prod.fst ∨ spec.key = key ∧ spec.hasDefault = true := by
  unfold addDefault RecipeParameterSpec.hasDefault
  cases hdefault : spec.defaultValue with
  | none => simp
  | some value =>
      dsimp only
      split
      · rename_i hpresent
        rw [lookup_isSome_iff] at hpresent
        rw [Option.isSome_some, and_iff_left rfl, or_iff_left_of_imp]
        exact fun heq => heq ▸ hpresent
      · rw [List.map_cons, List.mem_cons, Option.isSome_some, and_iff_left rfl, or_comm, eq_comm]

/-- A key has a value when a parameter of it is supplied or a specification of it has a
default. -/
theorem mem_effective {parameters : Option ParameterMap} (specs : List RecipeParameterSpec) :
    key ∈ (buildEffectiveParameterMap parameters specs).map Prod.fst ↔
      (∃ parameter ∈ parameters.getD [], normalizeRecipeQueryKey parameter.1 = key) ∨
        SomeSpec RecipeParameterSpec.hasDefault specs key := by
  unfold buildEffectiveParameterMap
  induction specs using List.reverseRecOn with
  | nil =>
      rw [List.foldl_nil, mem_normalizedParameters, or_iff_left]
      rintro ⟨spec, hspec, -⟩
      exact List.not_mem_nil hspec
  | append_singleton specs spec ih =>
      rw [List.foldl_concat, mem_addDefault, ih, someSpec_concat, or_assoc]

/-- Every key of the effective values is normalized. -/
theorem effective_isKey {parameters : Option ParameterMap} {specs : List RecipeParameterSpec}
    (hspecs : ∀ spec ∈ specs, IsKey spec.key)
    (h : key ∈ (buildEffectiveParameterMap parameters specs).map Prod.fst) : IsKey key := by
  cases (mem_effective specs).mp h with
  | inl hsupplied =>
      obtain ⟨parameter, -, rfl⟩ := hsupplied
      exact normalize_isKey parameter.1
  | inr hdefault =>
      obtain ⟨spec, hspec, rfl, -⟩ := hdefault
      exact hspecs spec hspec

end Effective

/-! ## The type hints of a call -/

section Hints
variable {hints legacy types : Option TypeMap} {context key : String}

/-- A hint for the key is given. -/
def Hinted (hints : TypeMap) (key : String) : Prop :=
  ∃ hint ∈ hints, normalizeRecipeQueryKey hint.1 = key

theorem hinted_cons {hint : String × String} {hints : TypeMap} :
    Hinted (hint :: hints) key ↔ normalizeRecipeQueryKey hint.1 = key ∨ Hinted hints key :=
  List.exists_mem_cons_iff _ _ _

theorem mergedKey_eq_some {name : String} :
    mergedKey true name = some key ↔ normalizeRecipeQueryKey name = key ∧ key ≠ "" := by
  unfold mergedKey
  simp only [if_true, Option.ite_none_left_eq_some, Option.some.injEq]
  constructor
  · rintro ⟨hne, rfl⟩
    exact ⟨rfl, hne⟩
  · rintro ⟨rfl, hne⟩
    exact ⟨hne, rfl⟩

theorem mem_addFallback {merged : TypeMap} {entry : String × String} :
    key ∈ (addFallback true merged entry).map Prod.fst ↔
      key ∈ merged.map Prod.fst ∨ normalizeRecipeQueryKey entry.1 = key ∧ key ≠ "" := by
  rw [← mergedKey_eq_some]
  unfold addFallback
  cases mergedKey true entry.1 with
  | none => exact (or_iff_left (Option.some_ne_none key).symm).symm
  | some found => rw [List.map_cons, List.mem_cons, Option.some_inj, or_comm, eq_comm]

theorem mem_foldl_addFallback (entries merged : TypeMap) :
    key ∈ (entries.foldl (addFallback true) merged).map Prod.fst ↔
      key ∈ merged.map Prod.fst ∨ Hinted entries key ∧ key ≠ "" := by
  induction entries generalizing merged with
  | nil =>
      refine (or_iff_left ?_).symm
      rintro ⟨⟨hint, hmem, -⟩, -⟩
      exact List.not_mem_nil hmem
  | cons entry entries ih =>
      rw [List.foldl_cons, ih, mem_addFallback, hinted_cons, or_and_right, or_assoc]

/-- Where two hints do not conflict the one of the call is taken like a fallback. -/
theorem addPrimary_ok {normalizeKeys : Bool} {primaryName fallbackName : String}
    {merged next : TypeMap} {entry : String × String}
    (h : addPrimary normalizeKeys context primaryName fallbackName merged entry = .ok next) :
    next = addFallback normalizeKeys merged entry := by
  unfold addPrimary at h
  unfold addFallback
  cases hkey : mergedKey normalizeKeys entry.1 with
  | none =>
      rw [hkey] at h
      exact (Except.ok.inj h).symm
  | some key =>
      rw [hkey] at h
      dsimp only at h
      split at h
      · contradiction
      · exact (Except.ok.inj h).symm

theorem foldlM_addPrimary_ok {normalizeKeys : Bool} {primaryName fallbackName : String}
    (entries : TypeMap) {merged last : TypeMap}
    (h : entries.foldlM (addPrimary normalizeKeys context primaryName fallbackName) merged =
      .ok last) :
    last = entries.foldl (addFallback normalizeKeys) merged := by
  induction entries generalizing merged with
  | nil => exact (Except.ok.inj h).symm
  | cons entry entries ih =>
      rw [List.foldlM_cons] at h
      obtain ⟨next, hnext, hrest⟩ := bind_eq_ok.mp h
      rw [List.foldl_cons, ← addPrimary_ok hnext]
      exact ih hrest

/-- The resolved map has the normalized keys of the given hints. -/
theorem mem_resolved (h : resolveRecipePlaceholderTypes hints legacy context = .ok types) :
    key ∈ (types.getD []).map Prod.fst ↔
      (Hinted (legacy.getD []) key ∨ Hinted (hints.getD []) key) ∧ key ≠ "" := by
  unfold resolveRecipePlaceholderTypes mergeOptionalTypeMaps at h
  obtain ⟨merged, hmerged, hresult⟩ := bind_eq_ok.mp h
  have hkeys : types.getD [] = merged := by
    cases merged with
    | nil => exact congrArg (Option.getD · []) (Except.ok.inj hresult).symm
    | cons first rest => exact congrArg (Option.getD · []) (Except.ok.inj hresult).symm
  rw [hkeys, foldlM_addPrimary_ok _ hmerged, mem_foldl_addFallback, mem_foldl_addFallback,
    List.map_nil, or_iff_right List.not_mem_nil, or_and_right]

theorem resolved_isKey (h : resolveRecipePlaceholderTypes hints legacy context = .ok types) :
    ∀ entry ∈ types.getD [], IsKey entry.1 := by
  intro entry hentry
  obtain ⟨hhinted, -⟩ := (mem_resolved h).mp (List.mem_map_of_mem hentry)
  rcases hhinted with ⟨hint, -, hkey⟩ | ⟨hint, -, hkey⟩
  · exact hkey ▸ normalize_isKey hint.1
  · exact hkey ▸ normalize_isKey hint.1

/-- Among resolved hints a name is found under its key only. -/
theorem resolvePlaceholderValueType_eq
    (h : resolveRecipePlaceholderTypes hints legacy context = .ok types) (name : String) :
    resolvePlaceholderValueType name types =
      (types.getD []).lookup (normalizeRecipeQueryKey name) := by
  have hkeys := resolved_isKey h
  cases types with
  | none => rfl
  | some types => exact findSome_lookupKeys hkeys name

end Hints

end DbtNova.RecipeSpecs
