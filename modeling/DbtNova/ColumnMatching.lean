import DbtNova.EntityMeta
import DbtNova.Utf8
import Mathlib.Algebra.Order.Field.Basic

/-!
# Matching the columns of two entities

`match_column` of `tools/column_lineage.rs`. Each strategy offers columns of the target, and
of the offers for one column the first with the best score is recorded. The aliases and the
recorded matches are in hash maps, which are iterated in any order. Scores are those of an
ordered field in place of `f64`.
-/
namespace DbtNova.ColumnMatching
open JsonValue Text

inductive ConfidenceTier
  | high | medium | low

def ConfidenceTier.asStr : ConfidenceTier → String
  | .high => "high"
  | .medium => "medium"
  | .low => "low"

structure MatchingStrategy (K : Type*) where
  enabled : Bool
  confidenceTier : ConfidenceTier
  weight : K

structure ColumnMatchingConfig (K : Type*) where
  exactMatch : MatchingStrategy K
  sqlAlias : MatchingStrategy K
  sqlProximity : MatchingStrategy K
  suffixMatch : MatchingStrategy K
  prefixMatch : MatchingStrategy K
  normalizedMatch : MatchingStrategy K
  levenshteinMatch : MatchingStrategy K

structure ColumnLineageConfig (K : Type*) where
  defaultConfidence : String
  levenshteinThreshold : K
  sqlProximityMaxDistance : ℕ
  minPrefixSuffixLength : ℕ
  minLevenshteinLength : ℕ
  maxResults : ℕ
  maxDepth : ℕ
  maxMatchCandidates : ℕ
  matching : ColumnMatchingConfig K

inductive Detail (K : Type*)
  | text (value : String)
  | count (value : ℕ)
  | score (value : K)
  deriving DecidableEq

structure MatchExplanation (K : Type*) where
  strategiesTried : List String
  successfulStrategy : String
  details : List (String × Detail K)
  deriving DecidableEq

structure ColumnMatch (K : Type*) where
  columnName : String
  confidence : String
  matchReason : String
  score : K
  explanation : MatchExplanation K
  deriving DecidableEq

/-- The aliases of a statement under the names they stand for, and the other way round. -/
structure AliasMap where
  entries : List (String × String)
  unique : (entries.map Prod.fst).Nodup

/-- What is not in the repository: Unicode tables and the SQL parser. -/
structure Surroundings where
  toLowercase : String → String
  isAlphanumeric : Char → Bool
  findSqlAliases : String → AliasMap

/-- The orders in which one call iterates its hash maps. -/
structure IterationOrder (K : Type*) where
  aliases : AliasMap → List (String × String)
  aliases_perm : ∀ m, (aliases m).Perm m.entries
  values : List (ColumnMatch K) → List (ColumnMatch K)
  values_perm : ∀ best, (values best).Perm best

/-! ## Texts -/

def contains (haystack needle : String) : Bool :=
  (Utf8.find needle.toList haystack.toList).isSome

def startsWith (text front : String) : Bool := front.toList.isPrefixOf text.toList

def endsWith (text tail : String) : Bool := tail.toList.isSuffixOf text.toList

def len (text : String) : ℕ := Utf8.byteLen text.toList

/-- `skipped` characters belong to the match before. -/
def positionsFrom (needle : List Char) : ℕ → ℕ → List Char → List ℕ
  | _, _, [] => []
  | offset, skipped + 1, c :: rest => positionsFrom needle (offset + c.utf8Size) skipped rest
  | offset, 0, c :: rest =>
      if needle.isPrefixOf (c :: rest) then
        offset :: positionsFrom needle (offset + c.utf8Size) (needle.length - 1) rest
      else positionsFrom needle (offset + c.utf8Size) 0 rest

def findAllPositions (haystack needle : String) : List ℕ :=
  if needle.isEmpty then [] else positionsFrom needle.toList 0 0 haystack.toList

/-- A row of the distances behind its first cell `left`; the row above starts with `diagonal`. -/
def distanceRow (a : Char) : List Char → List ℕ → ℕ → List ℕ
  | b :: bs, diagonal :: above :: previous, left =>
      let cost := if a = b then 0 else 1
      let cell := min (min (above + 1) (left + 1)) (diagonal + cost)
      cell :: distanceRow a bs (above :: previous) cell
  | _, _, _ => []

def levenshteinDistance (a b : List Char) : ℕ :=
  if a.isEmpty then b.length
  else if b.isEmpty then a.length
  else
    ((a.zipIdx 1).foldl (fun previous c => c.2 :: distanceRow c.1 b previous c.2)
      (List.range (b.length + 1))).getLastD 0

def sqlForMatching (sqlEntity : JsonValue) : Option String :=
  (sqlEntity.getStr "compiled_code").or (sqlEntity.getStr "raw_code")

section Match
variable {K : Type*} [Field K] [LinearOrder K]

def levenshteinSimilarity (a b : String) : K :=
  let maxLen := max a.length b.length
  if maxLen = 0 then 1 else 1 - (levenshteinDistance a.toList b.toList : K) / (maxLen : K)

def numericTypes : List String :=
  ["int", "integer", "bigint", "float", "double", "decimal", "numeric"]

def stringTypes : List String := ["varchar", "text", "string", "char"]

def temporalTypes : List String := ["date", "datetime", "timestamp", "time"]

def typesCompatible (out : Surroundings) (a b : String) : Bool :=
  let a := out.toLowercase a
  let b := out.toLowercase b
  let both := fun names : List String => names.any (contains a) && names.any (contains b)
  both numericTypes || both stringTypes || both temporalTypes || a == b

def columnsCompatible (out : Surroundings) (sourceCol targetCol : Option JsonValue) : Bool :=
  let sourceType := sourceCol.bind (getStr · "data_type")
  let targetType := targetCol.bind (getStr · "data_type")
  match sourceType, targetType with
  | some s, some t => typesCompatible out s t
  | _, _ => true

def normalized (out : Surroundings) (text : String) : List Char :=
  text.toList.filter out.isAlphanumeric

def isNameSimilar (out : Surroundings) (config : ColumnLineageConfig K) (source target : String) :
    Bool :=
  if source = target then true
  else if source.isEmpty || target.isEmpty then false
  else if contains source target || contains target source then true
  else if !(normalized out source).isEmpty && normalized out source == normalized out target then
    true
  else
    config.minLevenshteinLength ≤ len source && config.minLevenshteinLength ≤ len target &&
      config.levenshteinThreshold ≤ levenshteinSimilarity source target

/-- The arguments of `match_column`. -/
structure MatchInput where
  sourceEntity : JsonValue
  sourceColumn : String
  targetEntity : JsonValue
  targetColumns : List String
  sqlEntity : JsonValue
  sqlAliases : Option AliasMap

def columnOf (entity : JsonValue) (column : String) : Option JsonValue :=
  ((entity.get "columns").bind asObject).bind (List.lookup column)

def MatchInput.sourceColValue (input : MatchInput) : Option JsonValue :=
  columnOf input.sourceEntity input.sourceColumn

def MatchInput.compatible (input : MatchInput) (out : Surroundings) (col : String) : Bool :=
  columnsCompatible out input.sourceColValue (columnOf input.targetEntity col)

/-- The arguments of `record_match`. -/
structure Candidate (K : Type*) where
  column : String
  reason : String
  tier : ConfidenceTier
  weight : K
  score : K
  details : List (String × Detail K)

def Candidate.entry (c : Candidate K) : ColumnMatch K where
  columnName := c.column
  confidence := c.tier.asStr
  matchReason := c.reason
  score := c.score * c.weight
  explanation :=
    { strategiesTried := [c.reason]
      successfulStrategy := c.reason
      details := c.details }

def recordMatch (best : List (ColumnMatch K)) (c : Candidate K) : List (ColumnMatch K) :=
  match best.find? fun existing => existing.columnName == c.column with
  | some existing =>
      if existing.score < c.entry.score then
        best.map fun other => if other.columnName = c.column then c.entry else other
      else best
  | none => best ++ [c.entry]

def MatchingStrategy.offer (strat : MatchingStrategy K) (reason : String) (score : K)
    (details : List (String × Detail K)) (col : String) : Candidate K :=
  ⟨col, reason, strat.confidenceTier, strat.weight, score, details⟩

/-! ## The strategies, in their order -/

/-- A score with two digits. -/
def hundredths (n : ℕ) : K := (n : K) / ((100 : ℕ) : K)

section Strategies
variable (out : Surroundings) (config : ColumnLineageConfig K) (input : MatchInput)

def exactMatch : List (Candidate K) :=
  let strat := config.matching.exactMatch
  if strat.enabled then
    (input.targetColumns.filter fun col =>
      eqIgnoreAsciiCase col input.sourceColumn && input.compatible out col).map fun col =>
        strat.offer "exact_match" 1 [("column", .text col)] col
  else []

/-- What an alias offers for a column. -/
def aliasDetails (col : String) (entry : String × String) : Option (List (String × Detail K)) :=
  let sourceLower := out.toLowercase input.sourceColumn
  if sourceLower = out.toLowercase entry.1 then
    if eqIgnoreAsciiCase col entry.2 && input.compatible out col then
      some [("alias", .text entry.2)]
    else none
  else if sourceLower = out.toLowercase entry.2 then
    if eqIgnoreAsciiCase col entry.1 && input.compatible out col then
      some [("alias", .text entry.2), ("source", .text entry.1)]
    else none
  else none

/-- The alias map that is used, if any. -/
def aliasMap : Option AliasMap :=
  input.sqlAliases.or ((sqlForMatching input.sqlEntity).map out.findSqlAliases)

def aliasOffers (aliases : List (String × String)) : List (Candidate K) :=
  let strat := config.matching.sqlAlias
  aliases.flatMap fun entry => input.targetColumns.filterMap fun col =>
    (aliasDetails out input col entry).map fun details =>
      strat.offer "sql_alias" (9 / 10) details col

def sqlAlias (order : IterationOrder K) : List (Candidate K) :=
  if config.matching.sqlAlias.enabled then
    match aliasMap out input with
    | some aliases => aliasOffers out config input (order.aliases aliases)
    | none => []
  else []

/-- The nearest two positions, the first of several. -/
def nearest (maxDistance : ℕ) (sourcePositions colPositions : List ℕ) : Option (ℕ × ℕ × ℕ) :=
  (sourcePositions.product colPositions).foldl (fun best pair =>
    let dist := (pair.1 - pair.2) + (pair.2 - pair.1)
    if dist ≤ maxDistance && best.all (fun b => dist < b.1) then some (dist, pair) else best) none

def sqlProximity : List (Candidate K) :=
  let strat := config.matching.sqlProximity
  if strat.enabled then
    match sqlForMatching input.sqlEntity with
    | none => []
    | some sql =>
        let sqlLower := out.toLowercase sql
        let sourceLower := out.toLowercase input.sourceColumn
        let sourcePositions := findAllPositions sqlLower sourceLower
        input.targetColumns.filterMap fun col =>
          let colLower := out.toLowercase col
          if isNameSimilar out config sourceLower colLower && input.compatible out col then
            (nearest config.sqlProximityMaxDistance sourcePositions
              (findAllPositions sqlLower colLower)).map fun found =>
                strat.offer "sql_proximity" (7 / 10)
                  [("source_position", .count found.2.1), ("target_position", .count found.2.2),
                    ("distance", .count found.1)] col
          else none
  else []

/-- A field of a struct that the SQL names, with or without an underscore. -/
def nestedField (sqlLower structLower fieldLower structName field : String) :
    Option (List (String × Detail K)) :=
  let underscored := contains sqlLower (structLower ++ "._" ++ fieldLower)
  if contains sqlLower (structLower ++ "." ++ fieldLower) || underscored then
    let matchedField := if underscored then "_" ++ field else field
    some [("struct_column", .text structName), ("field", .text matchedField),
      ("field_path", .text (structName ++ "." ++ matchedField))]
  else none

def dataTypeLower (column : Option JsonValue) : String :=
  out.toLowercase ((column.bind (getStr · "data_type")).getD "")

def sqlNestedField : List (Candidate K) :=
  let strat := config.matching.sqlAlias
  match sqlForMatching input.sqlEntity with
  | none => []
  | some sql =>
      let sqlLower := out.toLowercase sql
      let sourceLower := out.toLowercase input.sourceColumn
      let offer := strat.offer "sql_nested_field" (hundredths 65)
      let targets := input.targetColumns.filterMap fun col =>
        (columnOf input.targetEntity col).bind fun targetMeta =>
          if contains (dataTypeLower out (some targetMeta)) "struct" then
            (nestedField sqlLower (out.toLowercase col) sourceLower col input.sourceColumn).map
              fun details => offer details col
          else none
      let sources :=
        if contains (dataTypeLower out input.sourceColValue) "struct" then
          input.targetColumns.filterMap fun col =>
            (nestedField sqlLower sourceLower (out.toLowercase col) input.sourceColumn col).map
              fun details => offer details col
        else []
      targets ++ sources

/-- Columns of which one name is a part of the other at the end, or at the front. -/
def affixMatch (strat : MatchingStrategy K) (reason : String) (isAffix : String → String → Bool) :
    List (Candidate K) :=
  if strat.enabled then
    let sourceLower := out.toLowercase input.sourceColumn
    (input.targetColumns.filter fun col =>
      let colLower := out.toLowercase col
      (isAffix colLower sourceLower || isAffix sourceLower colLower) &&
        config.minPrefixSuffixLength ≤ len colLower &&
        config.minPrefixSuffixLength ≤ len sourceLower && input.compatible out col).map fun col =>
          strat.offer reason (6 / 10)
            [("col", .text (out.toLowercase col)), ("source", .text sourceLower)] col
  else []

def suffixMatch : List (Candidate K) :=
  affixMatch out config input config.matching.suffixMatch "suffix_match" endsWith

def prefixMatch : List (Candidate K) :=
  affixMatch out config input config.matching.prefixMatch "prefix_match" startsWith

def normalizedMatch : List (Candidate K) :=
  let strat := config.matching.normalizedMatch
  if strat.enabled then
    let sourceNormalized := normalized out (out.toLowercase input.sourceColumn)
    (input.targetColumns.filter fun col =>
      !sourceNormalized.isEmpty && sourceNormalized == normalized out (out.toLowercase col) &&
        input.compatible out col).map fun col =>
          strat.offer "normalized_match" (hundredths 55)
            [("normalized", .text (String.ofList sourceNormalized))] col
  else []

def levenshteinMatch : List (Candidate K) :=
  let strat := config.matching.levenshteinMatch
  if strat.enabled then
    let sourceLower := out.toLowercase input.sourceColumn
    (input.targetColumns.filter fun col =>
      let colLower := out.toLowercase col
      config.minLevenshteinLength ≤ len sourceLower && config.minLevenshteinLength ≤ len colLower &&
        config.levenshteinThreshold ≤ levenshteinSimilarity sourceLower colLower &&
        input.compatible out col).map fun col =>
          let similarity := levenshteinSimilarity sourceLower (out.toLowercase col)
          strat.offer "levenshtein_match" similarity [("similarity", .score similarity)] col
  else []

/-- A source without columns, whose SQL names the column. -/
def directSelect : List (Candidate K) :=
  let strat := config.matching.exactMatch
  if input.targetEntity.getStr "resource_type" = some "source" then
    match sqlForMatching input.sqlEntity with
    | none => []
    | some sql =>
        let sourceLower := out.toLowercase input.sourceColumn
        if !sourceLower.isEmpty && contains (out.toLowercase sql) sourceLower then
          [strat.offer "direct_select" (hundredths 85) [("column", .text input.sourceColumn)]
            input.sourceColumn]
        else []
  else []

/-- What is offered behind the aliases. -/
def laterOffers : List (Candidate K) :=
  sqlProximity out config input ++ sqlNestedField out config input ++
    suffixMatch out config input ++ prefixMatch out config input ++
    normalizedMatch out config input ++ levenshteinMatch out config input

def offers (order : IterationOrder K) : List (Candidate K) :=
  exactMatch out config input ++ sqlAlias out config input order ++ laterOffers out config input

/-- The map `best` in the order of its insertions. -/
def bestMatches (order : IterationOrder K) : List (ColumnMatch K) :=
  let best := (offers out config input order).foldl recordMatch []
  if best.isEmpty && input.targetColumns.isEmpty then
    (directSelect out config input).foldl recordMatch best
  else best

def matchColumn (order : IterationOrder K) : List (ColumnMatch K) :=
  order.values (bestMatches out config input order)

end Strategies
end Match

end DbtNova.ColumnMatching
