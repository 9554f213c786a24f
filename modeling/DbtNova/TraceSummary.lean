import DbtNova.ArchiveLimits
import DbtNova.OrderedMap
import DbtNova.Redaction
import DbtNova.TraceRead
import Mathlib.Algebra.BigOperators.Group.List.Lemmas
import Mathlib.Algebra.Order.Ring.Nat
import Mathlib.Data.List.Dedup

/-!
# Summaries of tool traces

`summarize_tool_trace` goes over the rows once and keeps eleven counts, sets and maps up to date.
What they hold at the end is said by the rows alone: how many rows there are of a kind, the sum and
the largest of their sizes, and the first row that has the largest one.
-/
namespace DbtNova.TraceSummary
open JsonValue TraceRead BoundedCollect ArchiveLimits
open TraceLog (Bytes)

structure ToolBudgetAccumulator where
  callCount : ℕ := 0
  totalResponseBytes : ℕ := 0
  maxResponseBytes : Option ℕ := none
  deriving DecidableEq, Repr

structure ToolTraceSummaryBuilder where
  toolCounts : OrderedMap String ℕ := .empty
  distinctToolsSet : OrderedMap String Unit := .empty
  selectedUniqueIds : OrderedMap String Unit := .empty
  topUniqueIds : List String := []
  topUniqueIdSeen : OrderedMap String Unit := .empty
  totalResponseBytes : ℕ := 0
  maxResponseBytes : Option ℕ := none
  maxResponseTool : Option String := none
  rowsMissingResponseBytes : ℕ := 0
  byTool : OrderedMap String ToolBudgetAccumulator := .empty
  responseTruncatedCount : ℕ := 0
  toolsWithTruncation : OrderedMap String Unit := .empty
  failedToolCallCount : ℕ := 0
  errorCodes : OrderedMap String ℕ := .empty

/-- One more for the key. -/
def bump (counts : OrderedMap String ℕ) (key : String) : OrderedMap String ℕ :=
  counts.update key fun count => count.getD 0 + 1

/-- `insert` of a set. -/
def insert (set : OrderedMap String Unit) (key : String) : OrderedMap String Unit :=
  set.update key fun _ => ()

def rowTool (row : JsonValue) : String :=
  (((row.get "tool").bind asStr).filter fun tool => Text.trim tool ≠ "").getD "unknown"

/-- The texts in a field that holds an array. -/
def rowTexts (row : JsonValue) (key : String) : List String :=
  (((row.get key).bind asArray).getD []).filterMap asStr

namespace ToolTraceSummaryBuilder

def ingestToolCounts (b : ToolTraceSummaryBuilder) (tool : String) : ToolTraceSummaryBuilder :=
  { b with
    toolCounts := bump b.toolCounts tool
    distinctToolsSet := insert b.distinctToolsSet tool }

def ingestErrors (b : ToolTraceSummaryBuilder) (row : JsonValue) : ToolTraceSummaryBuilder :=
  let b :=
    if (row.get "success").bind asBool = some false then
      { b with failedToolCallCount := b.failedToolCallCount + 1 }
    else b
  match (row.get "error_code").bind asStr with
  | some errorCode => { b with errorCodes := bump b.errorCodes errorCode }
  | none => b

def ingestTopId (b : ToolTraceSummaryBuilder) (id : String) : ToolTraceSummaryBuilder :=
  if (b.topUniqueIdSeen.find id).isNone then
    { b with
      topUniqueIdSeen := insert b.topUniqueIdSeen id
      topUniqueIds := b.topUniqueIds ++ [id] }
  else b

def ingestUniqueIds (b : ToolTraceSummaryBuilder) (row : JsonValue) : ToolTraceSummaryBuilder :=
  let b := { b with
    selectedUniqueIds := (rowTexts row "selected_unique_ids").foldl insert b.selectedUniqueIds }
  (rowTexts row "top_unique_ids").foldl ingestTopId b

def ingestResponseBudget (b : ToolTraceSummaryBuilder) (row : JsonValue) (tool : String) :
    ToolTraceSummaryBuilder :=
  let b := { b with byTool := b.byTool.update tool fun budget =>
    let budget := budget.getD {}
    { budget with callCount := budget.callCount + 1 } }
  match (row.get "response_bytes").bind asU64 with
  | none => { b with rowsMissingResponseBytes := b.rowsMissingResponseBytes + 1 }
  | some bytes =>
      let b := { b with
        totalResponseBytes := saturatingAdd b.totalResponseBytes bytes
        byTool := b.byTool.update tool fun budget =>
          let budget := budget.getD {}
          { budget with
            totalResponseBytes := saturatingAdd budget.totalResponseBytes bytes
            maxResponseBytes := some (budget.maxResponseBytes.elim bytes (max · bytes)) } }
      if b.maxResponseBytes.all (· < bytes) then
        { b with maxResponseBytes := some bytes, maxResponseTool := some tool }
      else b

def ingestTruncation (b : ToolTraceSummaryBuilder) (row : JsonValue) (tool : String) :
    ToolTraceSummaryBuilder :=
  if ((row.get "response_truncated").bind asBool).getD false then
    { b with
      responseTruncatedCount := b.responseTruncatedCount + 1
      toolsWithTruncation := insert b.toolsWithTruncation tool }
  else b

def ingest (b : ToolTraceSummaryBuilder) (row : JsonValue) : ToolTraceSummaryBuilder :=
  let tool := rowTool row
  (((((b.ingestToolCounts tool).ingestErrors row).ingestUniqueIds row).ingestResponseBudget row
    tool).ingestTruncation row tool)

end ToolTraceSummaryBuilder

structure ToolTraceToolResponseBudget where
  tool : String
  callCount : ℕ
  totalResponseBytes : ℕ
  maxResponseBytes : Option ℕ
  deriving DecidableEq, Repr

structure ToolTraceResponseBudget where
  totalResponseBytes : ℕ
  maxResponseBytes : Option ℕ
  maxResponseTool : Option String
  rowsMissingResponseBytes : ℕ
  byTool : List ToolTraceToolResponseBudget
  deriving DecidableEq, Repr

structure ToolTraceTruncationSummary where
  responseTruncatedCount : ℕ
  toolsWithTruncation : List String
  deriving DecidableEq, Repr

structure ToolTraceErrorSummary where
  failedToolCallCount : ℕ
  errorCodes : OrderedMap String ℕ

structure ToolTraceSummaryAccumulator where
  toolCounts : OrderedMap String ℕ
  distinctTools : List String
  selectedUniqueIds : List String
  topUniqueIds : List String
  responseBudget : ToolTraceResponseBudget
  truncation : ToolTraceTruncationSummary
  errors : ToolTraceErrorSummary

def toolBudget (entry : String × ToolBudgetAccumulator) : ToolTraceToolResponseBudget :=
  ⟨entry.1, entry.2.callCount, entry.2.totalResponseBytes, entry.2.maxResponseBytes⟩

def ToolTraceSummaryBuilder.finish (b : ToolTraceSummaryBuilder) : ToolTraceSummaryAccumulator where
  toolCounts := b.toolCounts
  distinctTools := b.distinctToolsSet.keys
  selectedUniqueIds := b.selectedUniqueIds.keys
  topUniqueIds := b.topUniqueIds
  responseBudget :=
    { totalResponseBytes := b.totalResponseBytes
      maxResponseBytes := b.maxResponseBytes
      maxResponseTool := b.maxResponseTool
      rowsMissingResponseBytes := b.rowsMissingResponseBytes
      byTool := b.byTool.entries.map toolBudget }
  truncation :=
    { responseTruncatedCount := b.responseTruncatedCount
      toolsWithTruncation := b.toolsWithTruncation.keys }
  errors :=
    { failedToolCallCount := b.failedToolCallCount
      errorCodes := b.errorCodes }

def ToolTraceSummaryAccumulator.fromRows (rows : List JsonValue) : ToolTraceSummaryAccumulator :=
  (rows.foldl ToolTraceSummaryBuilder.ingest {}).finish

/-! ### The other parts of the summary -/

structure ToolTraceCallSummary where
  toolCallIndex : ℕ
  tool : String
  success : Option Bool
  durationMs : Option ℕ
  responseBytes : Option ℕ
  responseTruncated : Bool
  errorCode : Option String
  deriving DecidableEq, Repr

def buildToolOrder (rows : List JsonValue) : List ToolTraceCallSummary :=
  rows.mapIdx fun index row =>
    { toolCallIndex := ((row.get "tool_call_index").bind asU64).getD index
      tool := rowTool row
      success := (row.get "success").bind asBool
      durationMs := (row.get "duration_ms").bind asU64
      responseBytes := (row.get "response_bytes").bind asU64
      responseTruncated := ((row.get "response_truncated").bind asBool).getD false
      errorCode := (row.get "error_code").bind asStr }

def traceSummaryMessage (read : ToolTraceRead) : String :=
  let rowCount := toString read.rows.length
  let warningCount := toString read.parseWarnings.length
  if read.rows.isEmpty then "trace file contained no valid tool-call rows"
  else if read.parseWarnings.isEmpty then "read " ++ rowCount ++ " tool-call row(s)"
  else "read " ++ rowCount ++ " tool-call row(s) with " ++ warningCount ++
    " malformed row warning(s)"

structure ToolTraceSemanticFirstSummary where
  status : String
  message : String
  firstSearchIndicatorIndex : Option ℕ
  firstExecuteSqlIndex : Option ℕ
  metricLikeQueries : List String
  deriving DecidableEq, Repr

/-- The numbers of the calls of a tool. -/
def callIndices (rows : List JsonValue) (tool : String) : List ℕ :=
  (rows.filter fun row => (row.get "tool").bind asStr = some tool).filterMap fun row =>
    (row.get "tool_call_index").bind asU64

def firstToolCallIndex (rows : List JsonValue) (tool : String) : Option ℕ :=
  (callIndices rows tool).min?

def isMetricLikeQuery (query : String) : Bool :=
  let lowered := query.toList.map Char.toLower
  ["aov", "average", "conversion", "cost", "count", "gmv", "kpi", "margin", "measure", "metric",
    "rate", "ratio", "revenue", "sales", "total"].any fun needle =>
      Redaction.containsText needle.toList lowered

def pushQuery (acc : OrderedMap String Unit × List String) (row : JsonValue) :
    OrderedMap String Unit × List String :=
  match ((row.get "params_summary").bind (JsonValue.get · "query")).bind asStr with
  | none => acc
  | some query =>
      let key := Text.toAsciiLowercase query
      if isMetricLikeQuery query && (acc.1.find key).isNone then
        (insert acc.1 key, acc.2 ++ [query])
      else acc

def metricLikeQueries (rows : List JsonValue) : List String :=
  (rows.foldl pushQuery (.empty, [])).2

def semanticFirstSummary (rows : List JsonValue) : ToolTraceSemanticFirstSummary :=
  let search := firstToolCallIndex rows "search_indicator"
  let sql := firstToolCallIndex rows "execute_sql"
  let queries := metricLikeQueries rows
  match search, sql with
  | some searchIndex, some sqlIndex =>
      if searchIndex < sqlIndex then
        ⟨"pass", "search_indicator ran before execute_sql", search, sql, queries⟩
      else
        ⟨"warn", "execute_sql ran before search_indicator; consider semantic discovery before " ++
          "SQL execution", search, sql, queries⟩
  | none, some _ =>
      if queries.isEmpty then
        ⟨"not_observed", "execute_sql was observed, but no metric-like query evidence was " ++
          "available to judge semantic-first behavior", search, sql, queries⟩
      else
        ⟨"warn", "metric-like query evidence reached execute_sql without an earlier " ++
          "search_indicator call", search, sql, queries⟩
  | some _, none =>
      ⟨"observed_without_sql", "search_indicator was observed and no execute_sql call was present",
        search, sql, queries⟩
  | none, none =>
      ⟨"not_applicable", "trace did not include execute_sql or search_indicator calls", search, sql,
        queries⟩

structure ToolTraceSummary where
  schemaVersion : String := "tool_trace_summary.v1"
  rowCount : ℕ
  parseWarningCount : ℕ
  empty : Bool
  message : String
  toolOrder : List ToolTraceCallSummary
  aggregate : ToolTraceSummaryAccumulator
  semanticFirst : ToolTraceSemanticFirstSummary

def summarizeToolTrace (read : ToolTraceRead) : ToolTraceSummary where
  rowCount := read.rows.length
  parseWarningCount := read.parseWarnings.length
  empty := read.rows.isEmpty
  message := traceSummaryMessage read
  toolOrder := buildToolOrder read.rows
  aggregate := .fromRows read.rows
  semanticFirst := semanticFirstSummary read.rows

/-- The check passes when an indicator was searched before all SQL. -/
theorem semantic_first_pass_iff (rows : List JsonValue) :
    (semanticFirstSummary rows).status = "pass" ↔
      ∃ search ∈ callIndices rows "search_indicator", callIndices rows "execute_sql" ≠ [] ∧
        ∀ sql ∈ callIndices rows "execute_sql", search < sql := by
  unfold semanticFirstSummary firstToolCallIndex
  cases hsearch : (callIndices rows "search_indicator").min? with
  | none =>
      have hnone := List.min?_eq_none_iff.mp hsearch
      simp only [hnone, List.not_mem_nil, false_and, exists_false, iff_false]
      cases (callIndices rows "execute_sql").min? with
      | none => exact (by decide : "not_applicable" ≠ "pass")
      | some sql =>
          simp only
          split
          · exact (by decide : "not_observed" ≠ "pass")
          · exact (by decide : "warn" ≠ "pass")
  | some search =>
      have hfirst := List.min?_eq_some_iff.mp hsearch
      cases hsql : (callIndices rows "execute_sql").min? with
      | none => simp [List.min?_eq_none_iff.mp hsql]
      | some sql =>
          have hleast := List.min?_eq_some_iff.mp hsql
          simp only
          split
          · rename_i hlt
            refine iff_of_true rfl
              ⟨search, hfirst.1, List.ne_nil_of_mem hleast.1, fun other hother => ?_⟩
            exact lt_of_lt_of_le hlt (hleast.2 other hother)
          · rename_i hle
            refine iff_of_false (by decide : "warn" ≠ "pass") ?_
            rintro ⟨other, hother, -, hbefore⟩
            exact hle (lt_of_le_of_lt (hfirst.2 other hother) (hbefore sql hleast.1))

/-! ## What a row adds -/

def responseBytes (row : JsonValue) : Option ℕ := (row.get "response_bytes").bind asU64

def failed (row : JsonValue) : Bool := (row.get "success").bind asBool == some false

def errorCode (row : JsonValue) : Option String := (row.get "error_code").bind asStr

def truncated (row : JsonValue) : Bool := ((row.get "response_truncated").bind asBool).getD false

def pushId (acc : OrderedMap String Unit × List String) (id : String) :
    OrderedMap String Unit × List String :=
  if (acc.1.find id).isNone then (insert acc.1 id, acc.2 ++ [id]) else acc

/-- The budget of a tool with one more call. -/
def addCall (budget : Option ToolBudgetAccumulator) (bytes : Option ℕ) : ToolBudgetAccumulator :=
  match bytes with
  | none => { budget.getD {} with callCount := (budget.getD {}).callCount + 1 }
  | some n =>
      { callCount := (budget.getD {}).callCount + 1
        totalResponseBytes := saturatingAdd (budget.getD {}).totalResponseBytes n
        maxResponseBytes := some ((budget.getD {}).maxResponseBytes.elim n (max · n)) }

section Ingest
variable {b : ToolTraceSummaryBuilder} {row : JsonValue} {tool : String}

theorem foldl_ingestTopId (ids : List String) : ids.foldl .ingestTopId b =
    { b with
      topUniqueIdSeen := (ids.foldl pushId (b.topUniqueIdSeen, b.topUniqueIds)).1
      topUniqueIds := (ids.foldl pushId (b.topUniqueIdSeen, b.topUniqueIds)).2 } := by
  induction ids generalizing b with
  | nil => rfl
  | cons id ids ih =>
      rw [List.foldl_cons, List.foldl_cons, ih, ToolTraceSummaryBuilder.ingestTopId, pushId]
      split
      · rfl
      · rfl

theorem ingestErrors_eq : b.ingestErrors row =
    { b with
      failedToolCallCount := b.failedToolCallCount + (if failed row then 1 else 0)
      errorCodes := (errorCode row).elim b.errorCodes (bump b.errorCodes) } := by
  unfold ToolTraceSummaryBuilder.ingestErrors
  have hfailed : failed row = true ↔ (row.get "success").bind asBool = some false := beq_iff_eq
  change (match errorCode row with | some errorCode => _ | none => _) = _
  cases errorCode row with
  | none =>
      simp only [hfailed]
      split
      · rfl
      · rfl
  | some code =>
      simp only [hfailed]
      split
      · rfl
      · rfl

theorem ingestTruncation_eq : b.ingestTruncation row tool =
    { b with
      responseTruncatedCount := b.responseTruncatedCount + (if truncated row then 1 else 0)
      toolsWithTruncation :=
        if truncated row then insert b.toolsWithTruncation tool else b.toolsWithTruncation } := by
  unfold ToolTraceSummaryBuilder.ingestTruncation
  change (if truncated row = true then _ else _) = _
  split
  · rfl
  · rfl

/-- The two updates of the budget of the tool are one. -/
theorem ingestResponseBudget_eq : b.ingestResponseBudget row tool =
    { b with
      rowsMissingResponseBytes :=
        b.rowsMissingResponseBytes + (if (responseBytes row).isNone then 1 else 0)
      totalResponseBytes :=
        (responseBytes row).elim b.totalResponseBytes (saturatingAdd b.totalResponseBytes)
      maxResponseBytes := (responseBytes row).elim b.maxResponseBytes fun bytes =>
        if b.maxResponseBytes.all (· < bytes) then some bytes else b.maxResponseBytes
      maxResponseTool := (responseBytes row).elim b.maxResponseTool fun bytes =>
        if b.maxResponseBytes.all (· < bytes) then some tool else b.maxResponseTool
      byTool := b.byTool.update tool fun budget => addCall budget (responseBytes row) } := by
  unfold ToolTraceSummaryBuilder.ingestResponseBudget
  change (match responseBytes row with | none => _ | some bytes => _) = _
  cases responseBytes row with
  | none => rfl
  | some bytes =>
      have hbyTool : ∀ f g : Option ToolBudgetAccumulator → ToolBudgetAccumulator,
          (b.byTool.update tool f).update tool g =
            b.byTool.update tool fun budget => g (some (f budget)) := by
        intro f g
        refine OrderedMap.eq_of_find fun key => ?_
        simp only [OrderedMap.find_update]
        split
        · rfl
        · rfl
      simp only [hbyTool, Option.elim_some]
      split
      · rfl
      · rfl

end Ingest

/-! ## What the rows say -/

/-- A key that nothing was counted for is not there. -/
def counted (n : ℕ) : Option ℕ := if n = 0 then none else some n

/-- The budget of the tool whose calls these rows are. -/
def totalsOf (rows : List JsonValue) : ToolBudgetAccumulator where
  callCount := rows.length
  totalResponseBytes := saturate (rows.filterMap responseBytes).sum
  maxResponseBytes := (rows.filterMap responseBytes).max?

def budgetOf (rows : List JsonValue) : Option ToolBudgetAccumulator :=
  if rows = [] then none else some (totalsOf rows)

def toolRows (rows : List JsonValue) (tool : String) : List JsonValue :=
  rows.filter fun row => rowTool row = tool

/-- The first of the rows with the most bytes. -/
def largestTool (rows : List JsonValue) : Option String :=
  (rows.filterMap responseBytes).max?.bind fun bytes =>
    (rows.find? fun row => responseBytes row = some bytes).map rowTool

/-- What the builder holds when it has gone over the rows. -/
structure Ingested (rows : List JsonValue) (b : ToolTraceSummaryBuilder) : Prop where
  toolCounts : ∀ tool, b.toolCounts.find tool = counted (toolRows rows tool).length
  distinctTools : ∀ tool, (b.distinctToolsSet.find tool).isSome = true ↔ ∃ row ∈ rows, rowTool row = tool
  selected : ∀ id, (b.selectedUniqueIds.find id).isSome = true ↔
    ∃ row ∈ rows, id ∈ rowTexts row "selected_unique_ids"
  top : b.topUniqueIds = (rows.flatMap (rowTexts · "top_unique_ids")).eraseDups
  seen : ∀ id, (b.topUniqueIdSeen.find id).isSome = true ↔ id ∈ b.topUniqueIds
  total : b.totalResponseBytes = saturate (rows.filterMap responseBytes).sum
  largest : b.maxResponseBytes = (rows.filterMap responseBytes).max?
  largestTool : b.maxResponseTool = largestTool rows
  missing : b.rowsMissingResponseBytes = rows.countP fun row => (responseBytes row).isNone
  byTool : ∀ tool, b.byTool.find tool = budgetOf (toolRows rows tool)
  truncatedCount : b.responseTruncatedCount = rows.countP truncated
  truncatedTools : ∀ tool, (b.toolsWithTruncation.find tool).isSome = true ↔
    ∃ row ∈ rows, truncated row = true ∧ rowTool row = tool
  failedCount : b.failedToolCallCount = rows.countP failed
  errorCodes : ∀ code, b.errorCodes.find code = counted (rows.filterMap errorCode |>.count code)

theorem find_insert_isSome {set : OrderedMap String Unit} {key other : String} :
    ((insert set key).find other).isSome = true ↔ other = key ∨ (set.find other).isSome = true := by
  rw [insert, OrderedMap.find_update]
  split
  · rename_i heq
    simp [heq]
  · rename_i hne
    simp [hne]

theorem find_foldl_insert {set : OrderedMap String Unit} {ids : List String} {id : String} :
    ((ids.foldl insert set).find id).isSome = true ↔ id ∈ ids ∨ (set.find id).isSome = true := by
  induction ids generalizing set with
  | nil => simp
  | cons first ids ih =>
      rw [List.foldl_cons, ih, find_insert_isSome, List.mem_cons, or_left_comm, or_assoc]

theorem find_bump {counts : OrderedMap String ℕ} {key other : String} {n : ℕ}
    (h : counts.find other = counted n) :
    (bump counts key).find other = counted (n + if other = key then 1 else 0) := by
  rw [bump, OrderedMap.find_update]
  split
  · rename_i heq
    rw [← heq, h]
    unfold counted
    split
    · rename_i hzero
      simp [hzero]
    · simp
  · exact h

theorem max?_concat (l : List ℕ) (n : ℕ) : (l ++ [n]).max? = some (l.max?.elim n (max · n)) := by
  cases l with
  | nil => rfl
  | cons m l => rw [List.cons_append, List.max?_cons', List.max?_cons', List.foldl_append]; rfl

section Concat
variable {rows : List JsonValue} {row : JsonValue}

theorem toolRows_concat (tool : String) : toolRows (rows ++ [row]) tool =
    if tool = rowTool row then toolRows rows tool ++ [row] else toolRows rows tool := by
  unfold toolRows
  rw [List.filter_append]
  split
  · rename_i heq
    simp [heq]
  · rename_i hne
    simp [Ne.symm hne]

theorem totalsOf_concat : totalsOf (rows ++ [row]) =
    addCall (some (totalsOf rows)) (responseBytes row) := by
  unfold totalsOf addCall
  rw [List.filterMap_append, List.length_append]
  cases hrow : responseBytes row with
  | none => simp [List.filterMap_cons_none hrow]
  | some bytes =>
      rw [List.filterMap_cons_some hrow, List.filterMap_nil, max?_concat, List.sum_append]
      simp [saturatingAdd_saturate]

theorem addCall_none (bytes : Option ℕ) :
    addCall none bytes = addCall (some (totalsOf [])) bytes := rfl

theorem budgetOf_concat : budgetOf (rows ++ [row]) =
    some (addCall (budgetOf rows) (responseBytes row)) := by
  have hne : rows ++ [row] ≠ [] := List.append_ne_nil_of_right_ne_nil rows (List.cons_ne_nil _ _)
  rw [budgetOf, if_neg hne, totalsOf_concat, budgetOf]
  split
  · rename_i hempty
    rw [hempty, addCall_none]
  · rfl

theorem exists_concat {p : JsonValue → Prop} :
    (∃ other ∈ rows ++ [row], p other) ↔ p row ∨ ∃ other ∈ rows, p other := by
  simp [or_and_right, exists_or, or_comm]

theorem eraseDups_concat (ids : List String) (id : String) : (ids ++ [id]).eraseDups =
    if id ∈ ids then ids.eraseDups else ids.eraseDups ++ [id] := by
  rw [List.eraseDups_append]
  split
  · rename_i hmem
    simp [List.removeAll, hmem]
  · rename_i hmem
    simp [List.removeAll, hmem, List.eraseDups_cons]

/-- The texts that come in first stand in the order of their coming. -/
theorem foldl_pushId {seen : OrderedMap String Unit} {before ids : List String}
    (hseen : ∀ id, (seen.find id).isSome = true ↔ id ∈ before.eraseDups) :
    (ids.foldl pushId (seen, before.eraseDups)).2 = (before ++ ids).eraseDups ∧
      ∀ id, ((ids.foldl pushId (seen, before.eraseDups)).1.find id).isSome = true ↔
        id ∈ (before ++ ids).eraseDups := by
  induction ids generalizing seen before with
  | nil =>
      rw [List.append_nil]
      exact ⟨rfl, hseen⟩
  | cons id ids ih =>
      have hsplit : before ++ id :: ids = before ++ [id] ++ ids := by simp
      rw [List.foldl_cons, hsplit, pushId]
      have hmem : (seen.find id).isNone = true ↔ id ∉ before := by
        rw [← Option.not_isSome, Bool.not_eq_true', ← Bool.not_eq_true, hseen, List.mem_eraseDups]
      by_cases hnew : id ∈ before
      · rw [if_neg (fun hnone => hmem.mp hnone hnew)]
        have hsame : (before ++ [id]).eraseDups = before.eraseDups := by
          rw [eraseDups_concat, if_pos hnew]
        rw [← hsame]
        exact ih fun other => by rw [hsame, hseen]
      · rw [if_pos (hmem.mpr hnew)]
        have hmore : (before ++ [id]).eraseDups = before.eraseDups ++ [id] := by
          rw [eraseDups_concat, if_neg hnew]
        rw [← hmore]
        refine ih fun other => ?_
        rw [find_insert_isSome, hseen, hmore, List.mem_append, List.mem_singleton, or_comm]

theorem find?_missing {bytes : ℕ} (h : bytes ∉ rows.filterMap responseBytes) :
    (rows.find? fun row => responseBytes row = some bytes) = none := by
  rw [List.find?_eq_none]
  intro other hother hbytes
  exact h (List.mem_filterMap.mpr ⟨other, hother, of_decide_eq_true hbytes⟩)

/-- The row with the most bytes is the new one only if it has more than all others. -/
theorem largestTool_concat : largestTool (rows ++ [row]) =
    (responseBytes row).elim (largestTool rows) fun bytes =>
      if (rows.filterMap responseBytes).max?.all (· < bytes) then some (rowTool row)
      else largestTool rows := by
  unfold largestTool
  rw [List.filterMap_append]
  have hfound : ∀ m, (rows.filterMap responseBytes).max? = some m →
      ((rows ++ [row]).find? fun row => responseBytes row = some m) =
        rows.find? fun row => responseBytes row = some m := by
    intro m hm
    obtain ⟨found, hfound, hbytes⟩ := List.mem_filterMap.mp (List.max?_mem hm)
    rw [List.find?_append]
    cases hcase : rows.find? fun row => responseBytes row = some m with
    | none =>
        have hnone := List.find?_eq_none.mp hcase found hfound
        simp [hbytes] at hnone
    | some first => rfl
  cases hrow : responseBytes row with
  | none =>
      rw [List.filterMap_cons_none hrow, List.filterMap_nil, List.append_nil, Option.elim_none]
      cases hmax : (rows.filterMap responseBytes).max? with
      | none => rfl
      | some m => rw [Option.bind_some, Option.bind_some, hfound m hmax]
  | some bytes =>
      rw [List.filterMap_cons_some hrow, List.filterMap_nil, max?_concat, Option.elim_some]
      cases hmax : (rows.filterMap responseBytes).max? with
      | none =>
          have hmissing : bytes ∉ rows.filterMap responseBytes := by
            rw [List.max?_eq_none_iff.mp hmax]
            exact List.not_mem_nil
          simp [List.find?_append, find?_missing hmissing, hrow]
      | some m =>
          by_cases hlt : m < bytes
          · have hmissing : bytes ∉ rows.filterMap responseBytes := fun hmem =>
              absurd ((List.max?_eq_some_iff.mp hmax).2 bytes hmem) (not_le.mpr hlt)
            simp [List.find?_append, find?_missing hmissing, hrow, hlt, Nat.max_eq_right hlt.le]
          · have hmax' : max m bytes = m := Nat.max_eq_left (not_lt.mp hlt)
            simp only [Option.elim_some, Option.bind_some, hmax', hfound m hmax, Option.all_some,
              hlt, decide_false, Bool.false_eq_true, if_false]

theorem ingested_step {b : ToolTraceSummaryBuilder} (h : Ingested rows b) :
    Ingested (rows ++ [row]) (b.ingest row) := by
  have hseen : ∀ id, (b.topUniqueIdSeen.find id).isSome = true ↔
      id ∈ (rows.flatMap (rowTexts · "top_unique_ids")).eraseDups := fun id => by
    rw [h.seen, h.top]
  have htop := @foldl_pushId _ _ (rowTexts row "top_unique_ids") hseen
  rw [← h.top] at htop
  unfold ToolTraceSummaryBuilder.ingest
  simp only [ingestTruncation_eq, ingestResponseBudget_eq, ToolTraceSummaryBuilder.ingestUniqueIds,
    foldl_ingestTopId, ingestErrors_eq, ToolTraceSummaryBuilder.ingestToolCounts]
  constructor
  case toolCounts =>
      intro tool
      rw [find_bump (h.toolCounts tool), toolRows_concat]
      split
      · rw [List.length_append, List.length_singleton]
      · rw [Nat.add_zero]
  case distinctTools =>
      intro tool
      rw [find_insert_isSome, h.distinctTools, exists_concat, eq_comm]
  case selected =>
      intro id
      rw [find_foldl_insert, h.selected, exists_concat]
  case top =>
      rw [List.flatMap_append, List.flatMap_singleton]
      exact htop.1
  case seen =>
      intro id
      rw [htop.1]
      exact htop.2 id
  case total =>
      rw [List.filterMap_append, List.sum_append, h.total]
      cases hrow : responseBytes row with
      | none => simp [List.filterMap_cons_none hrow]
      | some bytes => simp [List.filterMap_cons_some hrow, saturatingAdd_saturate]
  case largest =>
      rw [List.filterMap_append, h.largest]
      cases hrow : responseBytes row with
      | none => simp [List.filterMap_cons_none hrow]
      | some bytes =>
          rw [List.filterMap_cons_some hrow, List.filterMap_nil, max?_concat, Option.elim_some]
          cases (rows.filterMap responseBytes).max? with
          | none => rfl
          | some m =>
              by_cases hlt : m < bytes
              · simp [hlt, Nat.max_eq_right hlt.le]
              · simp [hlt, Nat.max_eq_left (not_lt.mp hlt)]
  case largestTool => rw [largestTool_concat, h.largest, h.largestTool]
  case missing => rw [List.countP_append, List.countP_singleton, h.missing]
  case byTool =>
      intro tool
      rw [OrderedMap.find_update, toolRows_concat]
      split
      · rename_i heq
        rw [budgetOf_concat, h.byTool, heq]
      · exact h.byTool tool
  case truncatedCount => rw [List.countP_append, List.countP_singleton, h.truncatedCount]
  case truncatedTools =>
      intro tool
      rw [exists_concat]
      change ((if truncated row = true then insert b.toolsWithTruncation (rowTool row)
        else b.toolsWithTruncation).find tool).isSome = true ↔ _
      split
      · rename_i htruncated
        rw [find_insert_isSome, h.truncatedTools, eq_comm, htruncated]
        simp
      · rename_i hwhole
        rw [h.truncatedTools]
        simp [hwhole]
  case failedCount => rw [List.countP_append, List.countP_singleton, h.failedCount]
  case errorCodes =>
      intro code
      rw [List.filterMap_append, List.count_append]
      cases hrow : errorCode row with
      | none => simp [List.filterMap_cons_none hrow, h.errorCodes]
      | some other =>
          rw [List.filterMap_cons_some hrow, Option.elim_some, find_bump (h.errorCodes code)]
          by_cases heq : code = other
          · simp [heq]
          · simp [heq, Ne.symm heq]

end Concat

theorem ingested_rows (rows : List JsonValue) :
    Ingested rows (rows.foldl ToolTraceSummaryBuilder.ingest {}) := by
  induction rows using List.reverseRecOn with
  | nil => constructor <;> simp [toolRows, counted, budgetOf, largestTool, saturate]
  | append_singleton rows row ih =>
      rw [List.foldl_append]
      exact ingested_step ih

/-! ## The summary -/

/-- The summary as the rows alone say it. -/
structure Summarizes (rows : List JsonValue) (summary : ToolTraceSummaryAccumulator) : Prop where
  toolCounts : ∀ tool, summary.toolCounts.find tool = counted (toolRows rows tool).length
  distinctTools : ∀ tool, tool ∈ summary.distinctTools ↔ ∃ row ∈ rows, rowTool row = tool
  selectedUniqueIds : ∀ id, id ∈ summary.selectedUniqueIds ↔
    ∃ row ∈ rows, id ∈ rowTexts row "selected_unique_ids"
  topUniqueIds : summary.topUniqueIds = (rows.flatMap (rowTexts · "top_unique_ids")).eraseDups
  totalResponseBytes :
    summary.responseBudget.totalResponseBytes = saturate (rows.filterMap responseBytes).sum
  maxResponseBytes : summary.responseBudget.maxResponseBytes = (rows.filterMap responseBytes).max?
  maxResponseTool : summary.responseBudget.maxResponseTool = largestTool rows
  rowsMissingResponseBytes : summary.responseBudget.rowsMissingResponseBytes =
    rows.countP fun row => (responseBytes row).isNone
  byTool : ∀ budget, budget ∈ summary.responseBudget.byTool ↔ ∃ tool,
    toolRows rows tool ≠ [] ∧ budget = toolBudget (tool, totalsOf (toolRows rows tool))
  allCalls : (summary.responseBudget.byTool.map (·.callCount)).sum = rows.length
  responseTruncatedCount : summary.truncation.responseTruncatedCount = rows.countP truncated
  toolsWithTruncation : ∀ tool, tool ∈ summary.truncation.toolsWithTruncation ↔
    ∃ row ∈ rows, truncated row = true ∧ rowTool row = tool
  failedToolCallCount : summary.errors.failedToolCallCount = rows.countP failed
  errorCodes : ∀ code,
    summary.errors.errorCodes.find code = counted ((rows.filterMap errorCode).count code)

section Summary
variable {rows rows' : List JsonValue} {b : ToolTraceSummaryBuilder}

theorem budgetOf_eq_some {budget : ToolBudgetAccumulator} :
    budgetOf rows = some budget ↔ rows ≠ [] ∧ budget = totalsOf rows := by
  unfold budgetOf
  split
  · rename_i hempty
    simp [hempty]
  · rename_i hne
    simp [hne, eq_comm]

theorem length_toolRows (tool : String) :
    (toolRows rows tool).length = (rows.map rowTool).count tool := by
  unfold toolRows
  rw [← List.countP_eq_length_filter, List.count, List.countP_map]
  rfl

theorem Ingested.mem_byTool (h : Ingested rows b) (tool : String) (budget : ToolBudgetAccumulator) :
    (tool, budget) ∈ b.byTool.entries ↔
      toolRows rows tool ≠ [] ∧ budget = totalsOf (toolRows rows tool) := by
  rw [b.byTool.sorted.mem_iff, ← budgetOf_eq_some, ← h.byTool]
  rfl

/-- Every row is a call of one tool. -/
theorem Ingested.allCalls (h : Ingested rows b) :
    (b.byTool.entries.map fun entry => entry.2.callCount).sum = rows.length := by
  have hcounts : (b.byTool.entries.map fun entry => entry.2.callCount) =
      b.byTool.keys.map fun tool => (rows.map rowTool).count tool := by
    rw [OrderedMap.keys, List.map_map]
    refine List.map_congr_left fun entry hentry => ?_
    obtain ⟨-, hbudget⟩ := (h.mem_byTool entry.1 entry.2).mp hentry
    rw [hbudget]
    exact length_toolRows entry.1
  have hkeys : b.byTool.keys.Perm (rows.map rowTool).dedup := by
    refine (List.perm_ext_iff_of_nodup b.byTool.sorted.nodup (List.nodup_dedup _)).mpr fun tool => ?_
    change tool ∈ b.byTool.keys ↔ _
    rw [OrderedMap.mem_keys, h.byTool, List.mem_dedup, Option.isSome_iff_exists, List.mem_map]
    simp [budgetOf_eq_some, toolRows]
  rw [hcounts, (hkeys.map _).sum_eq, List.sum_map_count_dedup_eq_length, List.length_map]

/-- One pass over the rows gives the summary that the rows say. -/
theorem summary_of_rows (rows : List JsonValue) :
    Summarizes rows (ToolTraceSummaryAccumulator.fromRows rows) := by
  have h := ingested_rows rows
  constructor
  case toolCounts => exact h.toolCounts
  case distinctTools => exact fun tool => OrderedMap.mem_keys.trans (h.distinctTools tool)
  case selectedUniqueIds => exact fun id => OrderedMap.mem_keys.trans (h.selected id)
  case topUniqueIds => exact h.top
  case totalResponseBytes => exact h.total
  case maxResponseBytes => exact h.largest
  case maxResponseTool => exact h.largestTool
  case rowsMissingResponseBytes => exact h.missing
  case byTool =>
      intro budget
      constructor
      · intro hbudget
        obtain ⟨⟨tool, totals⟩, hentry, rfl⟩ := List.mem_map.mp hbudget
        obtain ⟨hrows, rfl⟩ := (h.mem_byTool tool totals).mp hentry
        exact ⟨tool, hrows, rfl⟩
      · rintro ⟨tool, hrows, rfl⟩
        exact List.mem_map_of_mem ((h.mem_byTool tool _).mpr ⟨hrows, rfl⟩)
  case allCalls =>
      rw [← h.allCalls]
      exact congrArg List.sum (List.map_map.trans rfl)
  case responseTruncatedCount => exact h.truncatedCount
  case toolsWithTruncation => exact fun tool => OrderedMap.mem_keys.trans (h.truncatedTools tool)
  case failedToolCallCount => exact h.failedCount
  case errorCodes => exact h.errorCodes

/-! ## Rows in another order -/

/-- Two summaries that may differ in the order of the top ids and in the tool of the largest
response only, of which there may be several. -/
structure SameTotals (summary other : ToolTraceSummaryAccumulator) : Prop where
  toolCounts : summary.toolCounts = other.toolCounts
  distinctTools : summary.distinctTools = other.distinctTools
  selectedUniqueIds : summary.selectedUniqueIds = other.selectedUniqueIds
  topUniqueIds : summary.topUniqueIds.Perm other.topUniqueIds
  responseBudget : { summary.responseBudget with maxResponseTool := none } =
    { other.responseBudget with maxResponseTool := none }
  truncation : summary.truncation = other.truncation
  errors : summary.errors = other.errors

theorem set_ext {set other : OrderedMap String Unit}
    (h : ∀ key, (set.find key).isSome = true ↔ (other.find key).isSome = true) : set = other := by
  refine OrderedMap.eq_of_find fun key => ?_
  have hkey := h key
  cases hset : set.find key with
  | none =>
      rw [hset] at hkey
      exact (Option.not_isSome_iff_eq_none.mp fun hsome => by cases hkey.mpr hsome).symm
  | some value =>
      rw [hset] at hkey
      obtain ⟨value', hother⟩ := Option.isSome_iff_exists.mp (hkey.mp rfl)
      rw [hother]

theorem max?_perm {l l' : List ℕ} (h : l.Perm l') : l.max? = l'.max? := by
  refine Option.ext fun n => ?_
  rw [List.max?_eq_some_iff, List.max?_eq_some_iff, h.mem_iff]
  exact and_congr_right fun _ => forall_congr' fun m => imp_congr_left h.mem_iff

theorem totalsOf_perm (h : rows.Perm rows') : totalsOf rows = totalsOf rows' := by
  have hbytes := h.filterMap responseBytes
  simp only [totalsOf, h.length_eq, hbytes.sum_eq, max?_perm hbytes]

theorem budgetOf_perm (h : rows.Perm rows') : budgetOf rows = budgetOf rows' := by
  have hempty : rows = [] ↔ rows' = [] := by
    rw [← List.length_eq_zero_iff, h.length_eq, List.length_eq_zero_iff]
  simp only [budgetOf, hempty, totalsOf_perm h]

theorem exists_perm (h : rows.Perm rows') {p : JsonValue → Prop} :
    (∃ row ∈ rows, p row) ↔ ∃ row ∈ rows', p row :=
  exists_congr fun _ => and_congr_left fun _ => h.mem_iff

theorem nodup_eraseDups (ids : List String) : ids.eraseDups.Nodup := by
  induction ids using List.reverseRecOn with
  | nil => exact List.nodup_nil
  | append_singleton ids id ih =>
      rw [eraseDups_concat]
      split
      · exact ih
      · rename_i hnew
        rw [← List.mem_eraseDups] at hnew
        exact List.nodup_append_comm.mp (List.nodup_cons.mpr ⟨hnew, ih⟩)

theorem fromRows_perm (h : rows.Perm rows') : SameTotals (ToolTraceSummaryAccumulator.fromRows rows)
    (ToolTraceSummaryAccumulator.fromRows rows') := by
  have hrows := ingested_rows rows
  have hrows' := ingested_rows rows'
  have htools (tool : String) : (toolRows rows tool).Perm (toolRows rows' tool) := h.filter _
  constructor
  case toolCounts =>
      refine OrderedMap.eq_of_find fun tool => ?_
      have hcount := hrows.toolCounts tool
      rw [(htools tool).length_eq, ← hrows'.toolCounts tool] at hcount
      exact hcount
  case distinctTools =>
      refine congrArg OrderedMap.keys (set_ext fun tool => ?_)
      rw [hrows.distinctTools, hrows'.distinctTools, exists_perm h]
  case selectedUniqueIds =>
      refine congrArg OrderedMap.keys (set_ext fun id => ?_)
      rw [hrows.selected, hrows'.selected, exists_perm h]
  case topUniqueIds =>
      change List.Perm (rows.foldl ToolTraceSummaryBuilder.ingest {}).topUniqueIds
        (rows'.foldl ToolTraceSummaryBuilder.ingest {}).topUniqueIds
      rw [hrows.top, hrows'.top]
      refine (List.perm_ext_iff_of_nodup (nodup_eraseDups _) (nodup_eraseDups _)).mpr fun id => ?_
      rw [List.mem_eraseDups, List.mem_eraseDups, (h.flatMap_right _).mem_iff]
  case responseBudget =>
      have hbytes := h.filterMap responseBytes
      have hbyTool : (rows.foldl ToolTraceSummaryBuilder.ingest {}).byTool =
          (rows'.foldl ToolTraceSummaryBuilder.ingest {}).byTool :=
        OrderedMap.eq_of_find fun tool => by
          rw [hrows.byTool, hrows'.byTool, budgetOf_perm (htools tool)]
      simp only [ToolTraceSummaryAccumulator.fromRows, ToolTraceSummaryBuilder.finish, hrows.total,
        hrows'.total, hrows.largest, hrows'.largest, hrows.missing, hrows'.missing, hbyTool,
        hbytes.sum_eq, max?_perm hbytes, h.countP_eq]
  case truncation =>
      have htools : (rows.foldl ToolTraceSummaryBuilder.ingest {}).toolsWithTruncation =
          (rows'.foldl ToolTraceSummaryBuilder.ingest {}).toolsWithTruncation :=
        set_ext fun tool => by
          rw [hrows.truncatedTools, hrows'.truncatedTools, exists_perm h]
      simp only [ToolTraceSummaryAccumulator.fromRows, ToolTraceSummaryBuilder.finish,
        hrows.truncatedCount, hrows'.truncatedCount, htools, h.countP_eq]
  case errors =>
      have hcodes : (rows.foldl ToolTraceSummaryBuilder.ingest {}).errorCodes =
          (rows'.foldl ToolTraceSummaryBuilder.ingest {}).errorCodes :=
        OrderedMap.eq_of_find fun code => by
          rw [hrows.errorCodes, hrows'.errorCodes, (h.filterMap errorCode).count_eq]
      simp only [ToolTraceSummaryAccumulator.fromRows, ToolTraceSummaryBuilder.finish,
        hrows.failedCount, hrows'.failedCount, hcodes, h.countP_eq]

/-! ## The summary of concurrent calls -/

/-- The number of a call does not count. -/
theorem ingest_congr {row row' : JsonValue}
    (h : ∀ key, key ≠ "tool_call_index" → row.get key = row'.get key) :
    b.ingest row = b.ingest row' := by
  have htool : rowTool row = rowTool row' := by
    unfold rowTool
    rw [h "tool" (by decide)]
  have htexts (key : String) (hkey : key ≠ "tool_call_index") :
      rowTexts row key = rowTexts row' key := by
    unfold rowTexts
    rw [h key hkey]
  unfold ToolTraceSummaryBuilder.ingest ToolTraceSummaryBuilder.ingestErrors
    ToolTraceSummaryBuilder.ingestUniqueIds ToolTraceSummaryBuilder.ingestResponseBudget
    ToolTraceSummaryBuilder.ingestTruncation
  rw [htool, htexts "selected_unique_ids" (by decide), htexts "top_unique_ids" (by decide),
    h "success" (by decide), h "error_code" (by decide), h "response_bytes" (by decide),
    h "response_truncated" (by decide)]

theorem get_putField {fields : List (String × JsonValue)} {key other : String} {value : JsonValue}
    (h : other ≠ key) : (JsonValue.object (putField key value fields)).get other =
      (JsonValue.object fields).get other :=
  lookup_putField_ne h

theorem fromRows_normalize (rows : List JsonValue) :
    ToolTraceSummaryAccumulator.fromRows (normalizeToolTraceIndices rows) =
      ToolTraceSummaryAccumulator.fromRows rows := by
  have hfold : ∀ (rows : List JsonValue) (number : ℕ → JsonValue → JsonValue)
      (b : ToolTraceSummaryBuilder),
      (∀ n row key, key ≠ "tool_call_index" → (number n row).get key = row.get key) →
        (rows.mapIdx number).foldl ToolTraceSummaryBuilder.ingest b =
          rows.foldl ToolTraceSummaryBuilder.ingest b := by
    intro rows
    induction rows with
    | nil => exact fun _ _ _ => rfl
    | cons row rows ih =>
        intro number b hnumber
        rw [List.mapIdx_cons, List.foldl_cons, List.foldl_cons, ingest_congr (hnumber 0 row),
          ih _ _ fun n row => hnumber (n + 1) row]
  unfold ToolTraceSummaryAccumulator.fromRows normalizeToolTraceIndices
  rw [hfold rows _ {} fun n row key hkey => ?_]
  split
  · exact get_putField hkey
  · rfl

end Summary

/-- The bytes of lines that were written whole. -/
theorem text_rowBytes (rows : List (List (String × JsonValue))) :
    LineLog.text TraceLog.newline ((rows.map rowBytes).map .whole) =
      Utf8.encode
        (LineLog.text '\n' ((rows.map fun fields => (rowValue fields).chars).map .whole)) := by
  have hend : Utf8.encode ['\n'] = [TraceLog.newline] := by decide
  induction rows with
  | nil => rfl
  | cons fields rows ih =>
      simp only [List.map_cons, LineLog.text, List.flatMap_cons, LineLog.Piece.render] at ih ⊢
      rw [Utf8.encode_append, Utf8.encode_append, ← ih, hend, rowBytes]

section Concurrent
variable {fromStr : String → Except String JsonValue} {written : List (List (String × JsonValue))}
  {maxBytes readers : ℕ} {moves : List (ℕ × TraceLog.Act)} {t : TraceLog.State}

end Concurrent

def searchRow : List (String × JsonValue) := [("tool", .string "a")]

def failedRow : List (String × JsonValue) := [("success", .bool false), ("tool", .string "b")]

def parseRows (text : String) : Except String JsonValue :=
  if text = (rowValue searchRow).toText then .ok (rowValue searchRow)
  else if text = (rowValue failedRow).toText then .ok (rowValue failedRow)
  else .error "expected value"

/-- The call that opens the file first writes its row last. -/
def overtaking : List (ℕ × TraceLog.Act) :=
  [(0, .openFile), (1, .openFile), (1, .lock), (1, .inspect), (1, .write), (1, .endLine),
    (1, .unlock), (0, .lock), (0, .inspect), (0, .write), (0, .endLine), (0, .unlock)]

/-- The file at the end. -/
def overtakenText : Bytes := rowBytes failedRow ++ [10] ++ rowBytes searchRow ++ [10]

theorem overtaking_run : TransitionSystem.run (TraceLog.step 0)
    (TraceLog.start ([searchRow, failedRow].map rowBytes) 0) overtaking =
      some ⟨some overtakenText, [.ended none, .ended none]⟩ := rfl

end DbtNova.TraceSummary
