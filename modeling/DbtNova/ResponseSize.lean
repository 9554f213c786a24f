import DbtNova.ResponseMeta

/-!
# When the reported size of a response is true

The offset of the next page is noted in the metadata behind the budget step, and the size is
measured and written again. Which number is written last, and which one it replaces, is read
off the branches of the two steps.
-/
namespace DbtNova.ResponseBudget
open JsonValue

/-! ## The offset of the next page -/

structure PaginationParams where
  limit : Option ℕ
  offset : ℕ

def responseIsTruncated (value : JsonValue) : Bool :=
  ((value.get "truncated").bind asBool).getD false ||
    (((value.get metaKey).bind (JsonValue.get · "truncated")).bind asBool).getD false

/-- The offset behind the page, when there is more. -/
def nextOffset (value : JsonValue) (pagination : Option PaginationParams) : Option ℕ := do
  let pagination ← pagination
  let totalAvailable ← (value.get "total_available").bind asU64
  let count ← (value.get "count").bind asU64
  let next := BoundedCollect.saturatingAdd pagination.offset count
  if count = 0 ∨ totalAvailable ≤ next then none else some next

def orInsert (key : String) (value : JsonValue) (fields : Fields) : Fields :=
  if (fields.lookup key).isSome then fields else insertField key value fields

/-- The metadata with the offset of the next page. -/
def notedMeta (next : ℕ) (marks truncated : Bool) (metadata : Fields) : Fields :=
  let noted := putField "next_offset" (ofNat next) metadata
  if marks then orInsert "truncated" (.bool truncated) noted else noted

def removeKey (key : String) (fields : Fields) : Fields :=
  fields.filter fun field => field.1 ≠ key

def removeNextOffset (value : JsonValue) : JsonValue :=
  match resultMetaOf value with
  | some metadata => setMeta (removeKey "next_offset" metadata) value
  | none => value

def removeMeta (value : JsonValue) : JsonValue :=
  match value with
  | .object fields => .object (removeKey metaKey fields)
  | value => value

/-- The offset is noted in metadata that was there before. -/
def refreshMeta (value : JsonValue) (budget next : ℕ) (metadata : Fields) : JsonValue :=
  let noted := setMeta (notedMeta next true (responseIsTruncated value) metadata) value
  let counted := updateResultMetaResponseBytes noted
  if 0 < budget ∧ budget < serializedLen counted then
    updateResultMetaResponseBytes (removeNextOffset counted)
  else counted

/-- The offset is noted in metadata of its own. -/
def addMeta (value : JsonValue) (config : BudgetConfig) (next : ℕ) : JsonValue :=
  let noted := setMeta
    (notedMeta next config.mcpIncludeTruncationMeta (responseIsTruncated value) []) value
  if 0 < config.mcpMaxResponseBytes ∧ config.mcpMaxResponseBytes < serializedLen noted then
    removeMeta noted
  else noted

def applyMcpNextOffsetMeta (value : JsonValue) (config : BudgetConfig)
    (pagination : Option PaginationParams) : JsonValue :=
  match nextOffset value pagination with
  | none => value
  | some next =>
      match value.get metaKey with
      | none => addMeta value config next
      | some (.object metadata) => refreshMeta value config.mcpMaxResponseBytes next metadata
      | some _ => value

/-- What the server prints of a tool's response. -/
def budgetedValue (value : JsonValue) (config : BudgetConfig)
    (pagination : Option PaginationParams) : JsonValue :=
  applyMcpNextOffsetMeta (applyMcpResponseBudget value config) config pagination

/-! ## The number behind the offset -/

section NextOffset
variable {value : JsonValue} {config : BudgetConfig} {pagination : Option PaginationParams}
  {metadata fields : Fields} {budget next : ℕ} {key other : String}

/-- The number that is written last behind the offset of the next page has as many digits as
the one it replaces: the last but one when the offset is taken out again. -/
def NextSettled (value : JsonValue) (budget next : ℕ) (metadata : Fields) : Prop :=
  let noted := setMeta (notedMeta next true (responseIsTruncated value) metadata) value
  let counted := updateResultMetaResponseBytes noted
  if 0 < budget ∧ budget < serializedLen counted then
    digits (serializedLen noted) = digits (serializedLen (removeNextOffset counted))
  else ∃ number, reportedBytes value = some number ∧
    serializedLen number = digits (serializedLen noted)

theorem lookup_orInsert_ne (h : key ≠ other) {child : JsonValue} :
    (orInsert other child fields).lookup key = fields.lookup key := by
  unfold orInsert
  split
  · rfl
  · exact lookup_insertField_ne h

theorem lookup_removeKey_ne (h : key ≠ other) :
    (removeKey other fields).lookup key = fields.lookup key := by
  unfold removeKey
  induction fields with
  | nil => rfl
  | cons field fields ih =>
      obtain ⟨first, found⟩ := field
      by_cases hfirst : first = other
      · rw [List.filter_cons_of_neg (by simpa using hfirst), ih, hfirst, lookup_cons_ne h]
      · rw [List.filter_cons_of_pos (by simpa using hfirst), List.lookup_cons, List.lookup_cons, ih]

theorem nodup_removeKey (h : (metadata.map Prod.fst).Nodup) :
    ((removeKey key metadata).map Prod.fst).Nodup :=
  h.sublist (List.filter_sublist.map Prod.fst)

theorem resultMetaOf_removeNextOffset (h : resultMetaOf value = some metadata) :
    resultMetaOf (removeNextOffset value) = some (removeKey "next_offset" metadata) := by
  unfold removeNextOffset
  rw [h]
  exact resultMetaOf_setMeta (asObject_isSome h)

theorem keysOnce_removeNextOffset (h : KeysOnce value) : KeysOnce (removeNextOffset value) := by
  unfold removeNextOffset
  split
  · rename_i metadata hmeta
    exact keysOnce_setMeta h (nodup_removeKey (h.nodup_metadata hmeta))
  · exact h

theorem nodup_orInsert {child : JsonValue} (h : (fields.map Prod.fst).Nodup) :
    ((orInsert key child fields).map Prod.fst).Nodup := by
  unfold orInsert
  split
  · exact h
  · rename_i hnone
    have hput : insertField key child fields = putField key child fields := (if_neg hnone).symm
    rw [hput]
    exact nodup_putField h

theorem notedMeta_lookup {marks truncated : Bool} :
    (notedMeta next marks truncated metadata).lookup "response_bytes" =
      metadata.lookup "response_bytes" := by
  unfold notedMeta
  dsimp only
  split
  · rw [lookup_orInsert_ne (by decide), lookup_putField_ne (by decide)]
  · rw [lookup_putField_ne (by decide)]

theorem notedMeta_nodup {marks truncated : Bool} (h : (metadata.map Prod.fst).Nodup) :
    ((notedMeta next marks truncated metadata).map Prod.fst).Nodup := by
  unfold notedMeta
  dsimp only
  split
  · exact nodup_orInsert (nodup_putField h)
  · exact nodup_putField h

theorem refreshMeta_reportsTrueSize (h : KeysOnce value)
    (hmeta : resultMetaOf value = some metadata) :
    ReportsTrueSize (refreshMeta value budget next metadata) ↔
      NextSettled value budget next metadata := by
  have hnotedMeta : resultMetaOf
      (setMeta (notedMeta next true (responseIsTruncated value) metadata) value) = some _ :=
    resultMetaOf_setMeta (asObject_isSome hmeta)
  have hnoted : KeysOnce
      (setMeta (notedMeta next true (responseIsTruncated value) metadata) value) :=
    keysOnce_setMeta h (notedMeta_nodup (h.nodup_metadata hmeta))
  unfold refreshMeta NextSettled
  dsimp only
  generalize hvalue : setMeta (notedMeta next true (responseIsTruncated value) metadata) value =
    noted at hnotedMeta hnoted
  split
  · have hcounted := resultMetaOf_update hnotedMeta
    have hlast := resultMetaOf_removeNextOffset hcounted
    have hkeys := keysOnce_removeNextOffset (keysOnce_update hnoted)
    rw [update_reportsTrueSize hkeys hlast]
    unfold Settled reportedBytes
    rw [hlast, Option.bind_some, lookup_removeKey_ne (by decide), lookup_putField]
    constructor
    · rintro ⟨number, hnumber, hdigits⟩
      cases hnumber
      exact hdigits
    · exact fun hdigits => ⟨_, rfl, hdigits⟩
  · rw [update_reportsTrueSize hnoted hnotedMeta]
    unfold Settled reportedBytes
    rw [hnotedMeta, hmeta, Option.bind_some, Option.bind_some, notedMeta_lookup]

theorem reportedBytes_addMeta : reportedBytes (addMeta value config next) = none := by
  have hnone : ∀ marks truncated, (notedMeta next marks truncated []).lookup "response_bytes" =
      none := fun _ _ => notedMeta_lookup
  unfold addMeta
  dsimp only
  cases value with
  | object fields =>
      split
      · have hremoved : (removeKey metaKey (putField metaKey (.object (notedMeta next
            config.mcpIncludeTruncationMeta (responseIsTruncated (.object fields)) []))
              fields)).lookup metaKey = none := by
          rw [List.lookup_eq_none_iff]
          intro field hfield
          have hkey := of_decide_eq_true (List.mem_filter.mp hfield).2
          exact bne_iff_ne.mpr (Ne.symm hkey)
        unfold reportedBytes resultMetaOf JsonValue.get removeMeta setMeta
        rw [asObject, Option.bind_some, hremoved]
        rfl
      · unfold reportedBytes
        rw [resultMetaOf_setMeta rfl, Option.bind_some, hnone]
  | _ =>
      split
      · rfl
      · rfl

/-- The offset of the next page leaves a true size exactly when the last number written has
the digits of the one before it. -/
theorem applyMcpNextOffsetMeta_reportsTrueSize (h : KeysOnce value) :
    ReportsTrueSize (applyMcpNextOffsetMeta value config pagination) ↔
      match nextOffset value pagination with
      | none => ReportsTrueSize value
      | some next => ∀ metadata, resultMetaOf value = some metadata →
          NextSettled value config.mcpMaxResponseBytes next metadata := by
  unfold applyMcpNextOffsetMeta
  cases nextOffset value pagination with
  | none => exact Iff.rfl
  | some next =>
      dsimp only
      have hmetaOf : resultMetaOf value = (value.get metaKey).bind asObject := rfl
      split
      · rename_i hget
        refine iff_of_true ?_ ?_
        · intro number hnumber
          rw [reportedBytes_addMeta] at hnumber
          contradiction
        · intro metadata hmetadata
          rw [hmetaOf, hget] at hmetadata
          contradiction
      · rename_i metadata hget
        have hmeta : resultMetaOf value = some metadata := by
          rw [hmetaOf, hget]
          rfl
        rw [refreshMeta_reportsTrueSize h hmeta]
        constructor
        · intro hsettled other hother
          rw [hmeta] at hother
          exact Option.some.inj hother ▸ hsettled
        · exact fun hall => hall metadata hmeta
      · rename_i child hnot hget
        have hmeta : resultMetaOf value = none := by
          rw [hmetaOf, hget]
          cases child with
          | object metadata => exact absurd rfl (hnot metadata)
          | _ => rfl
        refine iff_of_true ?_ ?_
        · intro number hnumber
          unfold reportedBytes at hnumber
          rw [hmeta] at hnumber
          contradiction
        · intro metadata hmetadata
          rw [hmeta] at hmetadata
          contradiction

end NextOffset

/-! ## The budget -/

section Budget
variable {value : JsonValue} {config : BudgetConfig} {budget n : ℕ} {paths : List String}
  {originalCount : Option ℕ}

/-- Metadata that reports a size measured before. -/
structure Carries (value : JsonValue) (n : ℕ) : Prop where
  keysOnce : KeysOnce value
  reports : ∃ metadata, resultMetaOf value = some metadata ∧
    metadata.lookup "response_bytes" = some (ofNat n)

theorem Carries.update_reportsTrueSize (h : Carries value n) :
    ReportsTrueSize (updateResultMetaResponseBytes value) ↔
      digits n = digits (serializedLen value) := by
  obtain ⟨metadata, hmeta, hnumber⟩ := h.reports
  rw [ResponseBudget.update_reportsTrueSize h.keysOnce hmeta]
  unfold Settled reportedBytes
  rw [hmeta, Option.bind_some, hnumber]
  constructor
  · rintro ⟨number, hnumber, hdigits⟩
    cases hnumber
    exact hdigits
  · exact fun hdigits => ⟨_, rfl, hdigits⟩

theorem attachResultMeta_eq :
    attachResultMeta value n budget true paths originalCount =
      setMeta (resultMeta n budget true paths originalCount) value := by
  cases value <;> rfl

theorem resultMeta_keys_nodup :
    ((resultMeta n budget true paths originalCount).map Prod.fst).Nodup := by
  rw [resultMeta_eq]
  cases originalCount with
  | none =>
      simp only [Option.toList_none, List.map_nil, List.append_nil, List.map_append, List.map_cons]
      decide
  | some count =>
      simp only [Option.toList_some, List.map_append, List.map_cons, List.map_nil]
      decide

theorem resultMeta_lookup :
    (resultMeta n budget true paths originalCount).lookup "response_bytes" = some (ofNat n) := by
  rw [resultMeta_eq]
  cases originalCount with
  | none => rfl
  | some count => rfl

theorem carries_attached (h : KeysOnce value) (hobject : value.asObject.isSome = true) :
    Carries (attachResultMeta value n budget true paths originalCount) n := by
  rw [attachResultMeta_eq]
  exact ⟨keysOnce_setMeta h resultMeta_keys_nodup, _, resultMetaOf_setMeta hobject,
    resultMeta_lookup⟩

theorem carries_trimPaths (h : Carries value n) :
    Carries (trimResultMetaPathsForBudget value budget) n := by
  obtain ⟨metadata, hmeta, hnumber⟩ := h.reports
  unfold trimResultMetaPathsForBudget
  split
  · exact h
  · rw [putInMeta_eq hmeta]
    refine ⟨keysOnce_setMeta h.keysOnce (nodup_putField (h.keysOnce.nodup_metadata hmeta)), _,
      resultMetaOf_setMeta (asObject_isSome hmeta), ?_⟩
    rw [lookup_putField_ne (by decide), hnumber]

theorem carries_trim (h : Carries value n) :
    Carries (trimResultMetaForBudget value budget) n := by
  have htrimmed : Carries (trimResultMetaPathsForBudget value budget) n := carries_trimPaths h
  unfold trimResultMetaForBudget
  dsimp only
  generalize trimResultMetaPathsForBudget value budget = trimmed at htrimmed
  split
  · exact htrimmed
  · obtain ⟨metadata, hmeta, hnumber⟩ := htrimmed.reports
    obtain ⟨fields, rfl, hlookup⟩ := resultMetaOf_eq_some.mp hmeta
    have hkept : (fields.filter fun field => decide (field.1 = metaKey)).lookup metaKey =
        some (.object metadata) := by
      rw [lookup_filter_key, hlookup]
    refine ⟨⟨htrimmed.keysOnce.1.sublist (List.filter_sublist.map Prod.fst), ?_⟩, metadata,
      resultMetaOf_eq_some.mpr ⟨_, rfl, hkept⟩, hnumber⟩
    exact fun other hmem => htrimmed.keysOnce.2 other (List.mem_of_mem_filter hmem)

/-- The response with its metadata, as it is measured. -/
def measuredWithMeta (value : JsonValue) (budget : ℕ) (paths : List String)
    (originalCount : Option ℕ) : JsonValue :=
  trimResultMetaPathsForBudget
    (attachResultMeta value (serializedLen value) budget true paths originalCount) budget

/-- The size of the response before and with its metadata have equally many digits, when the
metadata is kept; without it the response's own metadata counts. -/
def FitSettled (value : JsonValue) (budget : ℕ) (paths : List String)
    (originalCount : Option ℕ) : Prop :=
  let measured := measuredWithMeta value budget paths originalCount
  if serializedLen (updateResultMetaResponseBytes measured) ≤ budget then
    value.asObject.isSome = true → digits (serializedLen value) = digits (serializedLen measured)
  else ReportsTrueSize value

def StubSettled (stub : JsonValue) (budget : ℕ) (paths : List String)
    (originalCount : Option ℕ) : Prop :=
  digits (serializedLen stub) = digits (serializedLen (trimResultMetaForBudget
    (attachResultMeta stub (serializedLen stub) budget true paths originalCount) budget))

theorem reportsTrueSize_of_not_object (h : ¬ value.asObject.isSome = true) :
    ReportsTrueSize value := by
  intro number hnumber
  obtain ⟨metadata, hmeta, -⟩ := Option.bind_eq_some_iff.mp hnumber
  exact absurd (asObject_isSome hmeta) h

theorem attachResultMeta_not_object (h : ¬ value.asObject.isSome = true) :
    attachResultMeta value n budget true paths originalCount = value := by
  cases value with
  | object fields => exact absurd rfl h
  | _ => rfl

theorem putInMeta_not_object (h : ¬ value.asObject.isSome = true) (key : String)
    (child : JsonValue) : putInMeta key child value = value := by
  cases value with
  | object fields => exact absurd rfl h
  | _ => rfl

theorem fitSettled_iff (h : KeysOnce value) :
    ReportsTrueSize
        (let withMeta :=
          updateResultMetaResponseBytes (measuredWithMeta value budget paths originalCount)
        if serializedLen withMeta ≤ budget then withMeta else value) ↔
      FitSettled value budget paths originalCount := by
  unfold FitSettled
  dsimp only
  split
  · by_cases hobject : value.asObject.isSome = true
    · have hcarries : Carries (measuredWithMeta value budget paths originalCount)
          (serializedLen value) := carries_trimPaths (carries_attached h hobject)
      rw [hcarries.update_reportsTrueSize, imp_iff_right hobject]
    · refine iff_of_true ?_ fun hsome => absurd hsome hobject
      have htrimmed : trimResultMetaPathsForBudget value budget = value := by
        unfold trimResultMetaPathsForBudget
        rw [putInMeta_not_object hobject, ite_self]
      unfold updateResultMetaResponseBytes measuredWithMeta
      rw [attachResultMeta_not_object hobject, htrimmed, putInMeta_not_object hobject]
      exact reportsTrueSize_of_not_object hobject
  · exact Iff.rfl

theorem reportedBytes_stub (value : JsonValue) :
    reportedBytes (compactTruncatedResponse value) = none := by
  have hnone := lookup_eq_none (plain_stub value).fresh
  unfold reportedBytes resultMetaOf JsonValue.get compactTruncatedResponse
  rw [asObject, Option.bind_some, hnone]
  rfl

theorem nodup_copyField {source obj : Fields} {key : String} (h : (obj.map Prod.fst).Nodup) :
    ((copyField source obj key).map Prod.fst).Nodup := by
  unfold copyField
  split
  · exact nodup_putField h
  · exact h

theorem nodup_compactFields (value : JsonValue) : ((compactFields value).map Prod.fst).Nodup := by
  have hempty : (([] : Fields).map Prod.fst).Nodup := List.nodup_nil
  unfold compactFields
  split
  · rename_i source
    have hcopied : ((copiedKeys.foldl (copyField source) []).map Prod.fst).Nodup :=
      nodup_copyField (nodup_copyField (nodup_copyField (nodup_copyField hempty)))
    generalize copiedKeys.foldl (copyField source) [] = obj at hcopied
    unfold compactData
    split
    · exact nodup_putField (nodup_putField hcopied)
    · split
      · exact nodup_putField (nodup_putField hcopied)
      · split
        · exact nodup_putField (nodup_putField hcopied)
        · exact nodup_putField (nodup_copyField hcopied)
    · exact nodup_putField (nodup_copyField hcopied)
    · exact nodup_putField (nodup_copyField hcopied)
  · exact nodup_putField hempty

theorem keysOnce_compact (value : JsonValue) : KeysOnce (compactTruncatedResponse value) := by
  refine ⟨nodup_putField (nodup_compactFields value), fun metadata hmem => ?_⟩
  exact absurd (List.mem_map_of_mem hmem) (plain_stub value).fresh

/-- When the budget step reports a true size: the number that it writes has the digits of the
number it replaces, and where it writes none the response brings none or a true one. -/
def BudgetSettled (value : JsonValue) (config : BudgetConfig) : Prop :=
  let budget := config.mcpMaxResponseBytes
  let paths := (truncateThrice value config).2
  if budget = 0 ∨ serializedLen value ≤ budget then ReportsTrueSize value
  else if serializedLen (shrunk value config) ≤ budget then
    if config.mcpIncludeTruncationMeta then
      FitSettled (shrunk value config) budget paths (resultCountHint value)
    else ReportsTrueSize (shrunk value config)
  else
    config.mcpIncludeTruncationMeta = true →
      StubSettled (stub value config) budget (paths ++ ["$"]) (resultCountHint value)

theorem keysOnce_trimPaths (h : KeysOnce value) :
    KeysOnce (trimResultMetaPathsForBudget value budget) := by
  unfold trimResultMetaPathsForBudget
  split
  · exact h
  · exact keysOnce_putInMeta h _ _

theorem keysOnce_finalize (h : KeysOnce value) (includeMeta : Bool) :
    KeysOnce (finalizeMcpBudgetedResponse value budget includeMeta paths originalCount) := by
  have hattached : ∀ (n : ℕ) {value : JsonValue} {paths : List String}, KeysOnce value →
      KeysOnce (attachResultMeta value n budget true paths originalCount) := by
    intro n value paths hvalue
    rw [attachResultMeta_eq]
    exact keysOnce_setMeta hvalue resultMeta_keys_nodup
  unfold finalizeMcpBudgetedResponse
  dsimp only
  split
  · split
    · split
      · exact keysOnce_update (keysOnce_trimPaths (hattached _ h))
      · exact h
    · exact h
  · split
    · exact keysOnce_update (carries_trim (carries_attached (keysOnce_compact value) rfl)).keysOnce
    · exact keysOnce_compact value

theorem keysOnce_applyMcpResponseBudget (h : KeysOnce value) :
    KeysOnce (applyMcpResponseBudget value config) := by
  unfold applyMcpResponseBudget
  dsimp only
  split
  · exact h
  · split
    · exact h
    · exact keysOnce_finalize (keysOnce_shrunk h config) _

theorem applyMcpResponseBudget_reportsTrueSize (h : KeysOnce value) :
    ReportsTrueSize (applyMcpResponseBudget value config) ↔ BudgetSettled value config := by
  unfold applyMcpResponseBudget BudgetSettled
  dsimp only
  by_cases hreturned : config.mcpMaxResponseBytes = 0 ∨
      serializedLen value ≤ config.mcpMaxResponseBytes
  · rw [if_pos hreturned]
    rcases hreturned with hzero | hfits
    · rw [if_pos hzero]
    · rw [if_pos hfits, ite_self]
  · rw [if_neg hreturned]
    rw [not_or] at hreturned
    rw [if_neg hreturned.1, if_neg hreturned.2]
    unfold finalizeMcpBudgetedResponse
    by_cases hshrunk : serializedLen (shrunk value config) ≤ config.mcpMaxResponseBytes
    · rw [if_pos hshrunk, if_pos hshrunk]
      split
      · exact fitSettled_iff (keysOnce_shrunk h config)
      · exact Iff.rfl
    · rw [if_neg hshrunk, if_neg hshrunk]
      dsimp only
      split
      · rename_i hinclude
        rw [imp_iff_right hinclude]
        have hcarries : Carries (trimResultMetaForBudget (attachResultMeta (stub value config)
            (serializedLen (stub value config)) config.mcpMaxResponseBytes true
            ((truncateThrice value config).2 ++ ["$"]) (resultCountHint value))
              config.mcpMaxResponseBytes) (serializedLen (stub value config)) :=
          carries_trim (carries_attached (keysOnce_compact _) rfl)
        exact hcarries.update_reportsTrueSize
      · rename_i hinclude
        refine iff_of_true ?_ fun htrue => absurd htrue hinclude
        intro number hnumber
        rw [reportedBytes_stub] at hnumber
        contradiction

/-- When the response that leaves the server reports a true size: the number that is written
last has the digits of the number it replaces. The offset of the next page may write it once
more. -/
def SizeSettled (value : JsonValue) (config : BudgetConfig)
    (pagination : Option PaginationParams) : Prop :=
  let budgeted := applyMcpResponseBudget value config
  match nextOffset budgeted pagination with
  | none => BudgetSettled value config
  | some next => ∀ metadata, resultMetaOf budgeted = some metadata →
      NextSettled budgeted config.mcpMaxResponseBytes next metadata

end Budget

def sqlResponse (n : ℕ) : JsonValue :=
  .object [("data", .object [("sql", .string (String.ofList (List.replicate n 'a')))])]

theorem keysOnce_sqlResponse (n : ℕ) : KeysOnce (sqlResponse n) := by
  refine ⟨List.nodup_singleton _, fun metadata hmem => ?_⟩
  have hkey := (Prod.mk.inj (List.mem_singleton.mp hmem)).1
  exact absurd hkey (by decide)

theorem nextOffset_none (value : JsonValue) : nextOffset value none = none := rfl

/-- A text is all the data; the marks stand behind it and behind the data. -/
def textResponse (text : List Char) (marks : Fields) : JsonValue :=
  .object (("data", .object (("sql", .string (String.ofList text)) :: marks)) :: marks)

def cutText : List Char := List.replicate 200 'a' ++ "...[truncated]".toList

def cutMarks : Fields := [("truncated", .bool true)]

theorem truncate_string {limits : Limits} {path : String} {text : List Char}
    (h : limits.maxStringChars < text.length) :
    truncateJsonForBudget limits path (.string (String.ofList text)) =
      (.string (String.ofList (text.take limits.maxStringChars ++ "...[truncated]".toList)),
        [path]) := by
  unfold truncateJsonForBudget
  rw [String.toList_ofList, if_pos h, String.ofList_append, String.ofList_toList]

theorem truncate_sql (value : JsonValue) :
    truncateJsonForBudget ⟨200, 50, 50⟩ "$" (.object [("data", .object [("sql", value)])]) =
      let cut := truncateJsonForBudget ⟨200, 50, 50⟩ "$.data.sql" value
      (.object [("data", .object [("sql", cut.1)])], cut.2) := by
  have hdata : toString "$" ++ toString "." ++ toString "data" = "$.data" := by decide
  have hsql : toString "$.data" ++ toString "." ++ toString "sql" = "$.data.sql" := by decide
  simp [truncateJsonForBudget, truncateFields, truncateField, noisyKeys, List.lookup_cons, hdata, hsql]

theorem truncate_sqlResponse : truncateJsonForBudget ⟨200, 50, 50⟩ "$" (sqlResponse 400) =
    (textResponse cutText [], ["$.data.sql"]) := by
  have hlong : 200 < (List.replicate 400 'a').length := by
    rw [List.length_replicate]
    decide
  unfold sqlResponse
  rw [truncate_sql, truncate_string hlong, List.take_replicate]
  rfl

theorem plainText_cutText : PlainText cutText := by
  intro c hc
  rcases List.mem_append.mp hc with ha | hmark
  · exact plainText_replicate 200 c ha
  · have hall : "...[truncated]".toList.all
        (fun c => decide (escapeChar c = [c] ∧ c.utf8Size = 1)) = true := by decide
    exact of_decide_eq_true (List.all_eq_true.mp hall c hmark)

theorem length_cutText : cutText.length = 214 := by
  unfold cutText
  rw [List.length_append, List.length_replicate]
  decide

theorem serializedLen_textResponse {text : List Char} (h : PlainText text) (marks : Fields) :
    serializedLen (textResponse text marks) = text.length + 19 + 2 * weight marks := by
  have hdata : bytes (quoteText "data") = 6 := by decide
  have hsql : bytes (quoteText "sql") = 5 := by decide
  have htext : serializedLen (.string (String.ofList text)) = text.length + 2 :=
    bytes_quoteText h
  unfold textResponse
  rw [serializedLen_object (List.cons_ne_nil _ _), weight_cons, fieldLen_eq,
    serializedLen_object (List.cons_ne_nil _ _), weight_cons, fieldLen_eq, hdata, hsql, htext]
  omega

theorem weight_cutMarks : weight cutMarks = 17 := by
  unfold cutMarks
  rw [weight_cons, fieldLen_eq]
  decide

theorem cutText_len : serializedLen (textResponse cutText []) = 233 := by
  rw [serializedLen_textResponse plainText_cutText, length_cutText]
  rfl

theorem truncateThrice_sqlResponse : truncateThrice (sqlResponse 400) ⟨400, 200, true⟩ =
    (textResponse cutText [], ["$.data.sql"]) := by
  have hagain : ∀ limits, truncateAgain 400 limits (textResponse cutText [], ["$.data.sql"]) =
      (textResponse cutText [], ["$.data.sql"]) := by
    intro limits
    unfold truncateAgain
    rw [cutText_len]
    rfl
  unfold truncateThrice
  change truncateAgain 400 _ (truncateAgain 400 _
    (truncateJsonForBudget ⟨200, 50, 50⟩ "$" (sqlResponse 400))) = _
  rw [truncate_sqlResponse, hagain, hagain]

theorem shrunk_sqlResponse :
    shrunk (sqlResponse 400) ⟨400, 200, true⟩ = textResponse cutText cutMarks := by
  unfold shrunk
  rw [truncateThrice_sqlResponse]
  rfl

theorem attach_cutText (number : ℕ) :
    attachResultMeta (textResponse cutText cutMarks) number 400 true ["$.data.sql"] none =
      .object [(metaKey, .object (resultMeta number 400 true ["$.data.sql"] none)),
        ("data", .object (("sql", .string (String.ofList cutText)) :: cutMarks)),
        ("truncated", .bool true)] := rfl

theorem metaRoom_cutSql : metaRoom 400 ["$.data.sql"] none = 107 := by
  unfold metaRoom fieldLen metaFieldOf
  simp only [resultMeta_eq, Option.toList_none, List.map_nil, List.append_nil, List.cons_append,
    List.nil_append, charsOfField, chars, charsOfFields, ofNat]
  decide

theorem cutText_marked_len : serializedLen (textResponse cutText cutMarks) = 267 := by
  rw [serializedLen_textResponse plainText_cutText, length_cutText, weight_cutMarks]

theorem serializedLen_cons (field : String × JsonValue) {fields : Fields} (h : fields ≠ []) :
    serializedLen (.object (field :: fields)) =
      fieldLen field + 1 + serializedLen (.object fields) := by
  rw [serializedLen_object (List.cons_ne_nil _ _), serializedLen_object h, weight_cons]
  omega

theorem attach_cutText_len {number : ℕ} (h : number = 267 ∨ number = 377) :
    serializedLen (attachResultMeta (textResponse cutText cutMarks) number 400 true
      ["$.data.sql"] none) = 377 := by
  have hmeta := fieldLen_metaFieldOf 400 ["$.data.sql"] none number
  have hdigits : digits number = 3 := by
    rcases h with rfl | rfl
    · decide
    · decide
  rw [metaRoom_cutSql, hdigits] at hmeta
  rw [attach_cutText, serializedLen_cons _ (List.cons_ne_nil _ _)]
  change fieldLen (metaFieldOf 400 ["$.data.sql"] none number) + 1 +
    serializedLen (textResponse cutText cutMarks) = 377
  rw [cutText_marked_len]
  omega

theorem cutSql_over : ¬ (400 = 0 ∨ serializedLen (sqlResponse 400) ≤ 400) := by
  have hlen : serializedLen (sqlResponse 400) = 419 := by
    refine (serializedLen_oneText (plainText_replicate 400)).trans ?_
    rw [List.length_replicate]
  rw [hlen]
  decide

theorem cutSql_len : serializedLen (shrunk (sqlResponse 400) ⟨400, 200, true⟩) = 267 := by
  rw [shrunk_sqlResponse, cutText_marked_len]

theorem cutSql_measured : measuredWithMeta (shrunk (sqlResponse 400) ⟨400, 200, true⟩) 400
    (truncateThrice (sqlResponse 400) ⟨400, 200, true⟩).2 (resultCountHint (sqlResponse 400)) =
      attachResultMeta (textResponse cutText cutMarks) 267 400 true ["$.data.sql"] none := by
  unfold measuredWithMeta trimResultMetaPathsForBudget
  rw [cutSql_len, truncateThrice_sqlResponse, shrunk_sqlResponse]
  exact if_pos ((attach_cutText_len (Or.inl rfl)).trans_le (by decide))

theorem cutSql_keeps_meta :
    serializedLen (updateResultMetaResponseBytes (measuredWithMeta
      (shrunk (sqlResponse 400) ⟨400, 200, true⟩) 400
      (truncateThrice (sqlResponse 400) ⟨400, 200, true⟩).2
      (resultCountHint (sqlResponse 400)))) ≤ 400 := by
  rw [cutSql_measured]
  unfold updateResultMetaResponseBytes
  rw [attach_cutText_len (Or.inl rfl)]
  exact (attach_cutText_len (Or.inr rfl)).trans_le (by decide)

theorem cutSql_digits :
    digits (serializedLen (shrunk (sqlResponse 400) ⟨400, 200, true⟩)) =
      digits (serializedLen (measuredWithMeta (shrunk (sqlResponse 400) ⟨400, 200, true⟩) 400
        (truncateThrice (sqlResponse 400) ⟨400, 200, true⟩).2
        (resultCountHint (sqlResponse 400)))) := by
  rw [cutSql_measured, cutSql_len, attach_cutText_len (Or.inl rfl)]
  decide

theorem trimmed_stubOfText :
    trimResultMetaForBudget (attachResultMeta (.object stubOfText)
      (serializedLen (.object stubOfText)) 146 true ["$"] none) 146 =
      withMeta 146 ["$"] none 45 stubOfText := by
  have hdigits : digits 45 = 2 := by decide
  have hfits : serializedLen (withMeta 146 ["$"] none 45 stubOfText) ≤ 146 := by
    rw [serializedLen_withMeta plain_stubOfText, serializedLen_stubOfText, metaRoom_stub (.inr rfl),
      hdigits]
    decide
  unfold trimResultMetaForBudget
  dsimp only
  rw [serializedLen_stubOfText, attachResultMeta_plain plain_stubOfText,
    trimPaths_withMeta plain_stubOfText, if_pos hfits, if_pos hfits]

theorem budgeted_stubOfText :
    budgetedValue (sqlResponse 140) ⟨146, 200, true⟩ none =
      withMeta 146 ["$"] none 145 stubOfText := by
  have hlen : (List.replicate 140 'a').length = 140 := List.length_replicate
  have hdigits : digits 45 = 2 := by decide
  have hbudgeted := budgeted_oneText (plainText_replicate 140) (hlen.trans_le (by decide))
    (by decide : 146 ≠ 0) (by rw [hlen]; decide)
  unfold budgetedValue applyMcpNextOffsetMeta
  rw [nextOffset_none]
  refine hbudgeted.trans ?_
  rw [trimmed_stubOfText, update_withMeta plain_stubOfText,
    serializedLen_withMeta plain_stubOfText, serializedLen_stubOfText, metaRoom_stub (.inr rfl),
    hdigits]

end DbtNova.ResponseBudget
