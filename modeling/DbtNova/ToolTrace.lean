import DbtNova.SqlStructure

/-!
# The parameters of a tool call in the trace

The summary of the parameters keeps the names of all of them, the values of those that
are safe, and of a statement its structure. The parser is given: it is tried with five
dialects.
-/
namespace DbtNova.ToolTrace
open PrintedSql SqlStructure

/-! ## The structure of a statement -/

inductive SqlDialect where
  | generic
  | snowflake
  | bigquery
  | duckdb
  | databricks
  deriving DecidableEq, Repr

def SqlDialect.name : SqlDialect → String
  | .generic => "generic"
  | .snowflake => "snowflake"
  | .bigquery => "bigquery"
  | .duckdb => "duckdb"
  | .databricks => "databricks"

inductive Statement where
  | query (query : Query Literal)
  | other

abbrev SqlParser := SqlDialect → String → Except String (List Statement)

section Parser
variable (parseSql : SqlParser)

def parseAttempts (trimmed : String) : List SqlDialect → List String → Except String Statement
  | [], errors => .error ("failed to parse SQL for query structure grading: " ++
      "; ".intercalate errors)
  | dialect :: dialects, errors =>
      match parseSql dialect trimmed with
      | .ok [statement] => .ok statement
      | .ok statements => parseAttempts trimmed dialects (errors ++ [dialect.name ++
          ": expected exactly one statement, parsed " ++ toString statements.length])
      | .error error => parseAttempts trimmed dialects (errors ++ [dialect.name ++ ": " ++ error])

def parseSingleStatement (sql : String) : Except String Statement :=
  let trimmed := Text.trim sql
  if trimmed = "" then .error "SQL must be non-empty"
  else parseAttempts parseSql trimmed [.generic, .snowflake, .bigquery, .duckdb, .databricks] []

def sqlStructureSignature (sql : String) : Except String SqlStructureSignature := do
  match ← parseSingleStatement parseSql sql with
  | .query query => signatureForQuery query
  | .other => .error "query structure grading supports SELECT queries only"

def SqlStructureSignature.toJson (signature : SqlStructureSignature) : JsonValue :=
  .object [("tables", .array (signature.tables.map .string)),
    ("joins", .array (signature.joins.map .string)),
    ("select", .array (signature.select.map .string)),
    ("filters", .array (signature.filters.map .string)),
    ("group_by", .array (signature.groupBy.map .string))]

def sqlStructureSummaryJson (sql : String) : Except String JsonValue :=
  (sqlStructureSignature parseSql sql).map SqlStructureSignature.toJson

/-! ## The summary of the parameters -/

def maxParamKeys : ℕ := 50

def maxArrayItems : ℕ := 20

def maxSummaryStringChars : ℕ := 256

def safeParamSummaryKeys : List String :=
  ["query", "persona", "id_or_name", "resource_type", "resource_types", "roles",
    "semantic_types", "recipe_id", "direction", "depth", "detail", "group_mode",
    "indicator_types", "include_support_signals", "max_parent_groups", "min_score", "fuzzy",
    "include_highlights", "include_sql", "explain", "include_columns", "include_upstream",
    "include_downstream", "include_tests", "include_docs", "context_mode", "lineage_depth",
    "upstream_limit", "downstream_limit", "preflight_only", "row_limit", "byte_limit",
    "max_poll_seconds", "limit", "offset", "scope"]

def truncateString (value : String) (maxChars : ℕ) : String :=
  String.ofList (value.toList.take maxChars)

def paramsType : JsonValue → String
  | .null => "null"
  | .bool _ => "bool"
  | .number _ => "number"
  | .string _ => "string"
  | .array _ => "array"
  | .object _ => "object"

def summarizeSafeArrayValue : JsonValue → Option JsonValue
  | .null => some .null
  | .bool flag => some (.bool flag)
  | .number text => some (.number text)
  | .string value => some (.string (truncateString value maxSummaryStringChars))
  | .array _ | .object _ => none

def summarizeSafeValue : JsonValue → Option JsonValue
  | .null => some .null
  | .bool flag => some (.bool flag)
  | .number text => some (.number text)
  | .string value => some (.string (truncateString value maxSummaryStringChars))
  | .array items => some (.array ((items.take maxArrayItems).filterMap summarizeSafeArrayValue))
  | .object _ => none

/-- What the summary says of the statement. -/
def statementStructure (statement : Option JsonValue) : List (String × JsonValue) :=
  match statement with
  | some (.string text) =>
      let statement := Text.trim text
      if statement = "" then []
      else match sqlStructureSummaryJson parseSql statement with
        | .ok summary => [("statement_structure", summary)]
        | .error _ =>
            [("statement_structure_error", .string "failed to parse SQL structure summary")]
  | _ => []

def summarizeParams (params : JsonValue) : JsonValue :=
  match params with
  | .object fields =>
      let keys := (fields.take maxParamKeys).map fun field =>
        JsonValue.string (truncateString field.1 maxSummaryStringChars)
      let safe := safeParamSummaryKeys.filterMap fun key =>
        ((fields.lookup key).bind summarizeSafeValue).map fun value => (key, value)
      .object (("keys", .array keys) :: safe ++
        statementStructure parseSql (fields.lookup "statement"))
  | _ => .object [("type", .string (paramsType params))]

end Parser

/-! ## Literals of a statement -/

section Hiding
variable {parseSql : SqlParser}

theorem sqlStructureSummaryJson_trim (sql : String) :
    sqlStructureSummaryJson parseSql (Text.trim sql) = sqlStructureSummaryJson parseSql sql := by
  unfold sqlStructureSummaryJson sqlStructureSignature parseSingleStatement
  rw [Text.trim_trim]

theorem sqlStructureSummaryJson_query {sql : String} {query : Query Literal}
    (h : parseSingleStatement parseSql sql = .ok (.query query)) :
    sqlStructureSummaryJson parseSql sql =
      (signatureForQuery query).map SqlStructureSignature.toJson := by
  unfold sqlStructureSummaryJson sqlStructureSignature
  rw [h]
  rfl

/-- Of the statement, the summary of the parameters uses the structure only. -/
theorem summarizeParams_congr {sql sql' : String} (hempty : Text.trim sql ≠ "")
    (hempty' : Text.trim sql' ≠ "")
    (h : sqlStructureSummaryJson parseSql sql = sqlStructureSummaryJson parseSql sql')
    (before after : List (String × JsonValue)) :
    summarizeParams parseSql (.object (before ++ ("statement", .string sql) :: after)) =
      summarizeParams parseSql (.object (before ++ ("statement", .string sql') :: after)) := by
  have hkeys : ((before ++ ("statement", JsonValue.string sql) :: after).take maxParamKeys).map
        (fun field => JsonValue.string (truncateString field.1 maxSummaryStringChars)) =
      ((before ++ ("statement", JsonValue.string sql') :: after).take maxParamKeys).map
        (fun field => JsonValue.string (truncateString field.1 maxSummaryStringChars)) := by
    rw [List.map_take, List.map_take, List.map_append, List.map_append]
    rfl
  have hlookup : ∀ key ∈ safeParamSummaryKeys,
      (before ++ ("statement", JsonValue.string sql) :: after).lookup key =
        (before ++ ("statement", JsonValue.string sql') :: after).lookup key := by
    intro key hkey
    have hne : (key == "statement") = false := by
      rw [beq_eq_false_iff_ne]
      intro heq
      rw [heq] at hkey
      exact absurd hkey (by decide)
    rw [List.lookup_append, List.lookup_append, List.lookup_cons, List.lookup_cons, hne]
  have hstatement : statementStructure parseSql
        ((before ++ ("statement", JsonValue.string sql) :: after).lookup "statement") =
      statementStructure parseSql
        ((before ++ ("statement", JsonValue.string sql') :: after).lookup "statement") := by
    rw [List.lookup_append, List.lookup_append, List.lookup_cons_self, List.lookup_cons_self]
    cases before.lookup "statement" with
    | some value => rfl
    | none =>
        unfold statementStructure
        simp only [Option.none_or, if_neg hempty, if_neg hempty', sqlStructureSummaryJson_trim, h]
  unfold summarizeParams
  simp only [hkeys, hstatement]
  have hsafe : safeParamSummaryKeys.filterMap (fun key =>
        (((before ++ ("statement", JsonValue.string sql) :: after).lookup key).bind
          summarizeSafeValue).map fun value => (key, value)) =
      safeParamSummaryKeys.filterMap (fun key =>
        (((before ++ ("statement", JsonValue.string sql') :: after).lookup key).bind
          summarizeSafeValue).map fun value => (key, value)) := by
    apply List.filterMap_congr
    intro key hkey
    rw [hlookup key hkey]
  rw [hsafe]

theorem trim_ne_of_parsed {sql : String} {statement : Statement}
    (h : parseSingleStatement parseSql sql = .ok statement) : Text.trim sql ≠ "" := by
  intro hempty
  unfold parseSingleStatement at h
  simp only at h
  rw [if_pos hempty] at h
  cases h

end Hiding

/-! ### Two statements -/

/-- A query on one table with one condition. -/
def filteredQuery (condition : Printed LiteralPair) : Query LiteralPair :=
  .select (.mk [.mk (.table [.fixed "orders"] none) []] [.expr (.other [.fixed "id"])]
    (some (.other condition)) none none none (.expressions []))

/-- A parser that knows this query with both bodies. -/
def pairParser (query : Query LiteralPair) (sql : String) : SqlParser := fun _ text =>
  .ok [.query (if text = sql then query.map LiteralPair.first else query.map LiteralPair.second)]

theorem pairParser_first (query : Query LiteralPair) {sql : String} (htrim : Text.trim sql = sql)
    (hne : sql ≠ "") : parseSingleStatement (pairParser query sql) sql =
      .ok (.query (query.map LiteralPair.first)) := by
  unfold parseSingleStatement
  simp only
  rw [htrim, if_neg hne, parseAttempts, pairParser, if_pos rfl]

theorem pairParser_second (query : Query LiteralPair) {sql sql' : String}
    (htrim : Text.trim sql' = sql') (hne : sql' ≠ "") (hother : sql' ≠ sql) :
    parseSingleStatement (pairParser query sql) sql' =
      .ok (.query (query.map LiteralPair.second)) := by
  unfold parseSingleStatement
  simp only
  rw [htrim, if_neg hne, parseAttempts, pairParser, if_neg hother]

/-- Conditions with a literal that stays in the text: behind a quote in an identifier, in
other quotes, with an escaped quote, with a suffix, and without a whole part. -/
def leakingConditions : List (Printed LiteralPair) :=
  [[.fixed "\"it's\" = ", .literal ⟨.singleQuoted .plain, "US", "GB"⟩],
    [.fixed "country = ", .literal ⟨.doubleQuoted .plain, "US", "GB"⟩],
    [.fixed "country = ", .literal ⟨.dollarQuoted "", "US", "GB"⟩],
    [.fixed "country = ", .literal ⟨.singleQuoted .escaped, "\\'US", "\\'GB"⟩],
    [.fixed "amount > ", .literal ⟨.number true, "100", "200"⟩],
    [.fixed "amount > ", .literal ⟨.number false, ".5", "5"⟩]]

end DbtNova.ToolTrace
