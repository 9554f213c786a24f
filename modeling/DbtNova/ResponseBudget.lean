import DbtNova.BoundedCollect
import DbtNova.EntityMeta
import Mathlib.Data.List.Sort
import Mathlib.Data.List.Dedup

/-!
# The byte budget of a tool response

A response over the budget is cut down three times, each time harder, and brought
back into shape; what is still too long is replaced by a short stub. The paths
that lost something are collected on the way and reported in the metadata.
-/
namespace DbtNova.ResponseBudget
open JsonValue

/-- The number of bytes of a text. -/
def bytes (cs : List Char) : ℕ := (cs.map Char.utf8Size).sum

def serializedLen (value : JsonValue) : ℕ := bytes value.chars

structure BudgetConfig where
  mcpMaxResponseBytes : ℕ
  mcpMaxStringChars : ℕ
  mcpIncludeTruncationMeta : Bool

def ofNat (n : ℕ) : JsonValue := .number (toString n)

/-! ## Truncation -/

structure Limits where
  maxStringChars : ℕ
  maxArrayItems : ℕ
  maxObjectEntries : ℕ

def noisyKeys : List String := ["block_contents", "compiled_code", "raw_code", "sql"]

def importantKeys : List String :=
  ["rows", "columns", "column_types", "truncated", "stats", "state", "provider", "success",
    "count", "total_available", "data", "parent_groups", "unique_id", "parent_unique_id", "name",
    "resource_type", "relation_name", "grain", "expression", "indicator_name", "indicator_type"]

/-- The keys that a large object keeps: important ones, then the first of the others. -/
def keptKeys (keys : List String) (maxObjectEntries : ℕ) : List String :=
  keys.foldl
    (fun keep key =>
      if maxObjectEntries ≤ keep.length ∨ key ∈ keep then keep else keep ++ [key])
    ((importantKeys.filter (· ∈ keys)).take maxObjectEntries)

mutual

/-- The truncated value, and the paths that lost something. -/
def truncateJsonForBudget (limits : Limits) (path : String) :
    JsonValue → JsonValue × List String
  | .string text =>
      if limits.maxStringChars < text.toList.length then
        (.string (String.ofList (text.toList.take limits.maxStringChars) ++ "...[truncated]"),
          [path])
      else (.string text, [])
  | .array items =>
      let kept := truncateItems limits path 0 items
      let here := if limits.maxArrayItems < items.length then [path] else []
      (.array kept.1, here ++ kept.2)
  | .object fields =>
      let keys := fields.map Prod.fst
      let prunes := path ≠ "$" ∧ limits.maxObjectEntries < fields.length
      let keep := if prunes then keptKeys keys limits.maxObjectEntries else keys
      let kept := truncateFields limits path keep fields
      let here := if prunes then [path ++ ".*"] else []
      let noisy := noisyKeys.flatMap fun key => (kept.lookup key).elim [] Prod.snd
      let others := (kept.filter fun entry => entry.1 ∉ noisyKeys).flatMap fun entry => entry.2.2
      (.object (kept.map fun entry => (entry.1, entry.2.1)), here ++ noisy ++ others)
  | value => (value, [])

def truncateItems (limits : Limits) (path : String) (idx : ℕ) :
    List JsonValue → List JsonValue × List String
  | [] => ([], [])
  | item :: items =>
      if limits.maxArrayItems ≤ idx then ([], [])
      else
        let first := truncateJsonForBudget limits s!"{path}.{idx}" item
        let rest := truncateItems limits path (idx + 1) items
        (first.1 :: rest.1, first.2 ++ rest.2)

def truncateFields (limits : Limits) (path : String) (keep : List String) :
    List (String × JsonValue) → List (String × JsonValue × List String)
  | [] => []
  | field :: fields =>
      if field.1 ∈ keep then truncateField limits path field :: truncateFields limits path keep fields
      else truncateFields limits path keep fields

/-- Code and texts of blocks are cut at 2048 characters in any case. -/
def truncateField (limits : Limits) (path : String) :
    String × JsonValue → String × JsonValue × List String
  | (key, child) =>
      let own :=
        if key ∈ noisyKeys then { limits with maxStringChars := min limits.maxStringChars 2048 }
        else limits
      (key, truncateJsonForBudget own s!"{path}.{key}" child)

end

/-! ## The shape of a response -/

def arrayLen (value : Option JsonValue) : Option ℕ := (value.bind asArray).map List.length

/-- A total that is no number hides the count. -/
def resultCountHint (value : JsonValue) : Option ℕ :=
  ((value.get "total_available").or (value.get "count")).bind asU64

structure ResponseShapeSnapshot where
  count : Option ℕ
  totalCountHint : Option ℕ
  dataRowsLen : Option ℕ
  dataObjectArrayLens : List (String × ℕ)

namespace ResponseShapeSnapshot

def capture (value : JsonValue) : ResponseShapeSnapshot where
  count := (value.get "count").bind asU64
  totalCountHint := resultCountHint value
  dataRowsLen := arrayLen (((value.get "data").bind asObject).bind (List.lookup "rows"))
  dataObjectArrayLens :=
    (((value.get "data").bind asObject).getD []).filterMap fun field =>
      (arrayLen (some field.2)).map (field.1, ·)

def originalDataArrayLen (shape : ResponseShapeSnapshot) (key : String) : Option ℕ :=
  shape.dataObjectArrayLens.lookup key

end ResponseShapeSnapshot

abbrev Fields := List (String × JsonValue)

def normalizeBudgetedCount (obj : Fields) (returnedCount : ℕ) (originalCount : Option ℕ) :
    Fields :=
  let countChanged := ((obj.lookup "count").bind asU64).any (· != returnedCount)
  let counted := if countChanged then putField "count" (ofNat returnedCount) obj else obj
  if originalCount.any (fun count => decide (returnedCount < count)) || countChanged then
    putField "truncated" (.bool true) counted
  else counted

def putExisting (key : String) (value : JsonValue) (fields : Fields) : Fields :=
  if (fields.lookup key).isSome then putField key value fields else fields

def updateDataReturnedCount (data : Fields) (key : String) (returnedCount : ℕ) : Fields :=
  putExisting key (ofNat returnedCount) data

def returnedKeys : List String := ["entities_returned", "columns_returned", "items_returned"]

def hasReturnedKey (summary : Fields) : Bool :=
  returnedKeys.any fun key => (summary.lookup key).isSome

def putReturned (key : String) (returned : Option ℕ) (summary : Fields) : Fields :=
  match returned with
  | some returned => putExisting key (ofNat returned) summary
  | none => summary

/-- The new data, when there is a summary to bring up to date. -/
def normalizeUndocumentedSummary (data : Fields) : Option Fields :=
  match (data.lookup "summary").bind asObject with
  | none => none
  | some summary =>
      if hasReturnedKey summary then
        let entitiesReturned := arrayLen (data.lookup "entities")
        let columnsReturned := arrayLen (data.lookup "undocumented_columns")
        let updated := putReturned "columns_returned" columnsReturned
          (putReturned "entities_returned" entitiesReturned summary)
        let count (returned : Option ℕ) (key : String) : ℕ :=
          returned.getD (((updated.lookup key).bind asU64).getD 0)
        let itemsReturned := BoundedCollect.saturatingAdd
          (count entitiesReturned "entities_returned") (count columnsReturned "columns_returned")
        some (setField "summary"
          (.object (putExisting "items_returned" (ofNat itemsReturned) updated)) data)
      else none

/-- The data on its way through the normalization. -/
structure Normalized where
  data : Fields
  topCount : Option ℕ
  dataTruncated : Bool

def noteRows (shape : ResponseShapeSnapshot) (state : Normalized) : Normalized :=
  match arrayLen (state.data.lookup "rows") with
  | none => state
  | some returnedCount =>
      { data := putField "truncated" (.bool true) state.data
        topCount := some returnedCount
        dataTruncated :=
          state.dataTruncated || shape.dataRowsLen.any (fun n => decide (returnedCount < n)) }

/-- One array of the data: its own count is brought up to date, and the count of the
response follows it when the two were equal. -/
def noteArray (shape : ResponseShapeSnapshot) (key : String) (countField : Option String)
    (isCounted : Bool) (state : Normalized) : Normalized :=
  match arrayLen (state.data.lookup key) with
  | none => state
  | some returnedCount =>
      let original := shape.originalDataArrayLen key
      { data := countField.elim state.data fun field =>
          updateDataReturnedCount state.data field returnedCount
        topCount :=
          if isCounted && original.any (fun n => shape.count == some n) then some returnedCount
          else state.topCount
        dataTruncated :=
          state.dataTruncated || original.any (fun n => decide (returnedCount < n)) }

def noteColumns (shape : ResponseShapeSnapshot) (state : Normalized) : Normalized :=
  if (state.data.lookup "rows").isSome then state else noteArray shape "columns" none true state

def noteSummary (state : Normalized) : Normalized :=
  match normalizeUndocumentedSummary state.data with
  | none => state
  | some data =>
      { state with
        data := data
        topCount := (((data.lookup "summary").bind (JsonValue.get · "items_returned")).bind asU64) }

def normalizeData (shape : ResponseShapeSnapshot) (data : Fields) : Normalized :=
  let rows := noteRows shape ⟨data, none, false⟩
  let entities := noteArray shape "entities" (some "found_count") true rows
  let lineage := noteArray shape "lineage" none true entities
  let notFound := noteArray shape "not_found" (some "not_found_count") false lineage
  let edges := noteArray shape "edges" none false notFound
  let references := noteArray shape "references" (some "reference_count") false edges
  noteSummary (noteColumns shape references)

def normalizeBudgetedResponseShape (value : JsonValue) (shape : ResponseShapeSnapshot)
    (budgetTruncated : Bool) : JsonValue :=
  match value with
  | .object fields =>
      let obj := if budgetTruncated then putField "truncated" (.bool true) fields else fields
      match obj.lookup "data" with
      | some (.array items) =>
          .object (normalizeBudgetedCount obj items.length shape.totalCountHint)
      | some (.object data) =>
          let state := normalizeData shape data
          let marked :=
            if state.dataTruncated || budgetTruncated then
              putField "truncated" (.bool true) state.data
            else state.data
          let placed := setField "data" (.object marked) obj
          match state.topCount with
          | some returnedCount =>
              .object (normalizeBudgetedCount placed returnedCount shape.totalCountHint)
          | none => .object placed
      | _ => .object obj
  | value => value

/-! ## The stub of a response -/

/-- The arrays of the data that can be emptied, with the field that counts them. -/
def mcpBudgetableDataArrayFields : List (String × Option String) :=
  [("columns", none), ("entities", some "found_count"), ("lineage", none), ("edges", none),
    ("references", some "reference_count"), ("not_found", some "not_found_count"),
    ("undocumented_columns", none)]

def isArrayField (data : Fields) (key : String) : Bool :=
  ((data.lookup key).bind asArray).isSome

def dataContainsCollectionPayload (data : Fields) : Bool :=
  mcpBudgetableDataArrayFields.any fun field => isArrayField data field.1

def compactField (data : Fields) (compact : Fields) (field : String × Option String) : Fields :=
  let emptied := if isArrayField data field.1 then putField field.1 (.array []) compact else compact
  match field.2 with
  | some countField =>
      if (data.lookup countField).isSome then putField countField (ofNat 0) emptied else emptied
  | none => emptied

def compactSummary (data compact : Fields) : Fields :=
  match (data.lookup "summary").bind asObject with
  | none => compact
  | some summary =>
      if hasReturnedKey summary then
        let zeroed := returnedKeys.foldl
          (fun fields key => putExisting key (ofNat 0) fields) summary
        putField "summary" (.object zeroed) compact
      else compact

def compactCollectionPayload (data obj : Fields) : Fields :=
  let compact := compactSummary data (mcpBudgetableDataArrayFields.foldl (compactField data) [])
  putField "data" (.object (putField "truncated" (.bool true) compact))
    (putField "count" (ofNat 0) obj)

def copiedKeys : List String := ["api", "success", "total_available", "persona"]

def copyField (source obj : Fields) (key : String) : Fields :=
  match source.lookup key with
  | some child => putField key child obj
  | none => obj

def compactData (source obj : Fields) : Fields :=
  match source.lookup "data" with
  | some (.array _) => putField "data" (.array []) (putField "count" (ofNat 0) obj)
  | some (.object data) =>
      if (data.lookup "rows").isSome then
        putField "data" (.object [("rows", .array []), ("truncated", .bool true)])
          (putField "count" (ofNat 0) obj)
      else if dataContainsCollectionPayload data then compactCollectionPayload data obj
      else
        putField "data" (.object [("_truncated", .bool true)]) (copyField source obj "count")
  | some (.string _) => putField "data" (.string "[truncated]") (copyField source obj "count")
  | _ => putField "data" .null (copyField source obj "count")

def compactFields : JsonValue → Fields
  | .object source => compactData source (copiedKeys.foldl (copyField source) [])
  | _ => putField "data" .null []

def compactTruncatedResponse (value : JsonValue) : JsonValue :=
  .object (putField "truncated" (.bool true) (compactFields value))

/-! ## The metadata -/

def metaKey : String := "_nova_result_meta"

def resultMeta (responseBytes budgetBytes : ℕ) (truncated : Bool) (omittedPaths : List String)
    (originalCount : Option ℕ) : Fields :=
  let paths := (omittedPaths.insertionSort (· ≤ ·)).dedup
  let fields := [("budget_bytes", ofNat budgetBytes),
    ("omitted_paths", .array (paths.map .string)), ("response_bytes", ofNat responseBytes),
    ("truncated", .bool truncated)]
  originalCount.elim fields fun count => putField "original_count" (ofNat count) fields

def attachResultMeta (value : JsonValue) (responseBytes budgetBytes : ℕ) (truncated : Bool)
    (omittedPaths : List String) (originalCount : Option ℕ) : JsonValue :=
  match value with
  | .object fields =>
      .object (putField metaKey
        (.object (resultMeta responseBytes budgetBytes truncated omittedPaths originalCount)) fields)
  | value => value

/-- One field of the metadata is replaced, where there is metadata. -/
def putInMeta (key : String) (child value : JsonValue) : JsonValue :=
  match value with
  | .object fields =>
      match (fields.lookup metaKey).bind asObject with
      | some metadata => .object (setField metaKey (.object (putField key child metadata)) fields)
      | none => .object fields
  | value => value

def updateResultMetaResponseBytes (value : JsonValue) : JsonValue :=
  putInMeta "response_bytes" (ofNat (serializedLen value)) value

def trimResultMetaPathsForBudget (value : JsonValue) (budget : ℕ) : JsonValue :=
  if serializedLen value ≤ budget then value
  else putInMeta "omitted_paths" (.array [.string "$"]) value

def trimResultMetaForBudget (value : JsonValue) (budget : ℕ) : JsonValue :=
  let trimmed := trimResultMetaPathsForBudget value budget
  if serializedLen trimmed ≤ budget then trimmed
  else
    match trimmed with
    | .object fields => .object (fields.filter fun field => field.1 = metaKey)
    | value => value

def finalizeMcpBudgetedResponse (value : JsonValue) (budget : ℕ) (includeMeta : Bool)
    (omittedPaths : List String) (originalCount : Option ℕ) : JsonValue :=
  if serializedLen value ≤ budget then
    if includeMeta then
      let attached := attachResultMeta value (serializedLen value) budget true omittedPaths
        originalCount
      let withMeta := updateResultMetaResponseBytes (trimResultMetaPathsForBudget attached budget)
      if serializedLen withMeta ≤ budget then withMeta else value
    else value
  else
    let fallback := compactTruncatedResponse value
    if includeMeta then
      let attached := attachResultMeta fallback (serializedLen fallback) budget true
        (omittedPaths ++ ["$"]) originalCount
      updateResultMetaResponseBytes (trimResultMetaForBudget attached budget)
    else fallback

/-! ## The whole -/

/-- One more truncation of a value that is still too long. -/
def truncateAgain (budget : ℕ) (limits : Limits) (state : JsonValue × List String) :
    JsonValue × List String :=
  if budget < serializedLen state.1 then
    let truncated := truncateJsonForBudget limits "$" state.1
    (truncated.1, state.2 ++ truncated.2)
  else state

/-- The value after up to three truncations, and what they left out. -/
def truncateThrice (value : JsonValue) (config : BudgetConfig) : JsonValue × List String :=
  let budget := config.mcpMaxResponseBytes
  let first := truncateJsonForBudget ⟨max config.mcpMaxStringChars 1, 50, 50⟩ "$" value
  truncateAgain budget ⟨512, 5, 5⟩ (truncateAgain budget ⟨1024, 20, 20⟩ first)

/-- The truncated value, back in shape. -/
def shrunk (value : JsonValue) (config : BudgetConfig) : JsonValue :=
  let truncated := truncateThrice value config
  normalizeBudgetedResponseShape truncated.1 (.capture value) (!truncated.2.isEmpty)

def applyMcpResponseBudget (value : JsonValue) (config : BudgetConfig) : JsonValue :=
  let budget := config.mcpMaxResponseBytes
  if budget = 0 then value
  else if serializedLen value ≤ budget then value
  else
    finalizeMcpBudgetedResponse (shrunk value config) budget config.mcpIncludeTruncationMeta
      (truncateThrice value config).2 (resultCountHint value)

end DbtNova.ResponseBudget
