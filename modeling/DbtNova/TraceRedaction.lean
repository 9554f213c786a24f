import DbtNova.ResponsePages
import DbtNova.SanitizeUri
import DbtNova.ToolTrace
import DbtNova.TraceRead
import Mathlib.Algebra.Order.Ring.Nat
import Mathlib.Logic.Relation

/-!
# Redacted tool traces

`redact_tool_trace_file` writes each row of a trace anew with the fields of an allow list only.
Text in these fields that looks like a secret is masked, and URIs lose what may be secret in
them. The redacted row is given key by key, and from that follows which changes of a row nobody
can see in it. The file that is written reads back as the rows that were put into it.
-/
namespace DbtNova.TraceRedaction
open JsonValue TraceLog TraceRead Redaction ToolTrace

abbrev Fields := List (String × JsonValue)

/-- The two counters that are handed through. -/
structure Counts where
  fieldsRemoved : ℕ := 0
  fieldsMasked : ℕ := 0
  deriving DecidableEq, Repr

def Counts.remove (counts : Counts) : Counts :=
  { counts with fieldsRemoved := counts.fieldsRemoved + 1 }

def Counts.mask (counts : Counts) : Counts :=
  { counts with fieldsMasked := counts.fieldsMasked + 1 }

def redactedValue : String := "[REDACTED]"

def sensitiveKeyFragments : List String :=
  ["authorization", "credential", "password", "passwd", "private_key", "secret", "session",
    "token", "access_key", "api_key", "apikey", "proof_key", "raw_output"]

def lowered (text : String) : List Char := text.toList.map Char.toLower

def sensitiveKey (key : String) : Bool :=
  sensitiveKeyFragments.any fun fragment => containsText fragment.toList (lowered key)

def sensitiveValue (value : String) : Bool :=
  ["-----begin ", "authorization:", "bearer ", "snowflake token="].any fun needle =>
    containsText needle.toList (lowered value)

def looksLikeSensitiveUri (value : String) : Bool :=
  (containsText "://".toList (lowered value) || containsText ['?'] (lowered value)) &&
    ["access_token", "api_key", "apikey", "password", "secret", "token"].any fun needle =>
      containsText needle.toList (lowered value)

section Values
variable (toLowercase : List Char → List Char)

def redactStringValue (key value : String) (counts : Counts) : String × Counts :=
  if sensitiveKey key || sensitiveValue value then (redactedValue, counts.mask)
  else if looksLikeSensitiveUri value then
    let sanitized := String.ofList (sanitizeUri toLowercase value.toList)
    (sanitized, if sanitized ≠ value then counts.mask else counts)
  else (truncateString value maxSummaryStringChars, counts)

mutual

def redactSafeSummaryValue (key : String) : JsonValue → Counts → Option JsonValue × Counts
  | .null, counts => (some .null, counts)
  | .bool flag, counts => (some (.bool flag), counts)
  | .number text, counts => (some (.number text), counts)
  | .string value, counts =>
      let (shown, counts) := redactStringValue toLowercase key value counts
      (some (.string shown), counts)
  | .array items, counts =>
      let (shown, counts) := redactSafeSummaryValues key items counts
      (some (.array shown), counts)
  | .object _, counts => (none, counts)

def redactSafeSummaryValues (key : String) : List JsonValue → Counts → List JsonValue × Counts
  | [], counts => ([], counts)
  | item :: items, counts =>
      let (shown, counts) := redactSafeSummaryValue key item counts
      let (rest, counts) := redactSafeSummaryValues key items counts
      (shown.toList ++ rest, counts)

end

/-- One parameter of the summary. -/
def redactParam (acc : Fields × Counts) (param : String × JsonValue) : Fields × Counts :=
  if param.1 ∈ safeParamSummaryKeys then
    match redactSafeSummaryValue toLowercase param.1 param.2 acc.2 with
    | (some shown, counts) => (putField param.1 shown acc.1, counts)
    | (none, counts) => (acc.1, counts.remove)
  else (acc.1, acc.2.remove)

def redactParamsSummary (params : JsonValue) (counts : Counts) : Fields × Counts :=
  match params with
  | .object fields => fields.foldl (redactParam toLowercase) ([], counts)
  | _ => ([], counts.remove)

/-- What the copying functions share: a field that is there is kept or counted as removed. -/
def copyField (keep : JsonValue → Counts → Option JsonValue × Counts) (input : Fields)
    (key : String) (acc : Fields × Counts) : Fields × Counts :=
  match input.lookup key with
  | none => acc
  | some value =>
      match keep value acc.2 with
      | (some kept, counts) => (putField key kept acc.1, counts)
      | (none, counts) => (acc.1, counts.remove)

def copyU128ishField : Fields → String → Fields × Counts → Fields × Counts :=
  copyField fun value counts => (if value.asU64.isSome then some value else none, counts)

def copyU64Field : Fields → String → Fields × Counts → Fields × Counts :=
  copyField fun value counts => (if value.asU64.isSome then some value else none, counts)

def copyBoolField : Fields → String → Fields × Counts → Fields × Counts :=
  copyField fun value counts => (if value.asBool.isSome then some value else none, counts)

def copyStringField (input : Fields) (key : String) : Fields × Counts → Fields × Counts :=
  copyField (fun value counts =>
    match value.asStr with
    | some text =>
        let (shown, counts) := redactStringValue toLowercase key text counts
        (some (.string shown), counts)
    | none => (none, counts)) input key

/-- One item of an array that should hold texts. -/
def redactItem (key : String) (acc : List JsonValue × Counts) (item : JsonValue) :
    List JsonValue × Counts :=
  match item.asStr with
  | some text =>
      let (shown, counts) := redactStringValue toLowercase key text acc.2
      (acc.1 ++ [.string shown], counts)
  | none => (acc.1, acc.2.remove)

def copyStringArrayField (input : Fields) (key : String) : Fields × Counts → Fields × Counts :=
  copyField (fun value counts =>
    match value.asArray with
    | some items =>
        let (strings, counts) := items.foldl (redactItem toLowercase key) ([], counts)
        (some (.array strings), counts)
    | none => (none, counts)) input key

/-- The summary of the parameters is left out when nothing of it is left. -/
def copyParamsSummary (input : Fields) (acc : Fields × Counts) : Fields × Counts :=
  match input.lookup "params_summary" with
  | none => acc
  | some params =>
      let (shown, counts) := redactParamsSummary toLowercase params acc.2
      (if shown.isEmpty then acc.1 else putField "params_summary" (.object shown) acc.1, counts)

def isRedactedTopLevelKey (key : String) : Bool :=
  ["timestamp_ms", "tool_call_index", "transport", "tool", "success", "duration_ms",
    "request_id", "error_code", "response_bytes", "response_truncated", "result_count",
    "total_available", "selected_unique_ids", "top_unique_ids"].contains key

/-- The calls that build a redacted row, one after the other. -/
def rowCopies (map : Fields) : List (Fields × Counts → Fields × Counts) :=
  [copyU128ishField map "timestamp_ms",
    copyU64Field map "tool_call_index",
    copyStringField toLowercase map "transport",
    copyStringField toLowercase map "tool",
    copyBoolField map "success",
    copyU64Field map "duration_ms",
    copyStringField toLowercase map "request_id",
    copyStringField toLowercase map "error_code",
    copyParamsSummary toLowercase map,
    copyU64Field map "response_bytes",
    copyBoolField map "response_truncated",
    copyU64Field map "result_count",
    copyU64Field map "total_available",
    copyStringArrayField toLowercase map "selected_unique_ids",
    copyStringArrayField toLowercase map "top_unique_ids"]

def countUnlisted (counts : Counts) (field : String × JsonValue) : Counts :=
  if !isRedactedTopLevelKey field.1 && field.1 != "params_summary" then counts.remove else counts

def redactTraceRow (row : JsonValue) (counts : Counts) : JsonValue × Counts :=
  match row with
  | .object map =>
      let (out, counts) := (rowCopies toLowercase map).foldl (fun acc copy => copy acc) ([], counts)
      (.object out, map.foldl countUnlisted counts)
  | _ => (.object [("redaction_warning", .string "trace row was not an object")], counts)

/-- The next row of the file. -/
def redactRow (acc : List JsonValue × Counts) (row : JsonValue) : List JsonValue × Counts :=
  let (redacted, counts) := redactTraceRow toLowercase row acc.2
  (acc.1 ++ [redacted], counts)

def redactRows (rows : List JsonValue) : List JsonValue × Counts :=
  rows.foldl (redactRow toLowercase) ([], {})

structure ToolTraceRedactionReport where
  rowsRead : ℕ
  rowsWritten : ℕ
  malformedRows : ℕ
  fieldsRemoved : ℕ
  fieldsMasked : ℕ
  parseWarnings : List ToolTraceParseWarning

/-- The lines joined, with an end of line behind the last one. -/
def redactedBody (rows : List JsonValue) : List Char :=
  let body := List.intercalate ['\n'] (rows.map chars)
  if body = [] then body else body ++ ['\n']

/-- What is written for a trace that could be read, and the report. -/
def redactToolTraceFile (read : ToolTraceRead) : Bytes × ToolTraceRedactionReport :=
  let (rows, counts) := redactRows toLowercase read.rows
  (Utf8.encode (redactedBody rows),
    { rowsRead := read.rows.length
      rowsWritten := rows.length
      malformedRows := read.parseWarnings.length
      fieldsRemoved := counts.fieldsRemoved
      fieldsMasked := counts.fieldsMasked
      parseWarnings := read.parseWarnings })

end Values

/-! ## Maps that are put together field by field -/

/-- One entry comes in, if there is something to come in. -/
def putKept (acc : Fields) (entry : String × Option JsonValue) : Fields :=
  match entry.2 with
  | some value => putField entry.1 value acc
  | none => acc

section PutKept
variable {entries : List (String × Option JsonValue)} {acc : Fields} {key : String}

theorem keySorted_putField {value : JsonValue} (h : KeySorted acc) :
    KeySorted (putField key value acc) := by
  unfold putField
  split
  · exact keySorted_setField h
  · rename_i hnone
    exact keySorted_insertField h fun hmem => hnone (lookup_isSome hmem)

theorem keySorted_putKept {entry : String × Option JsonValue} (h : KeySorted acc) :
    KeySorted (putKept acc entry) := by
  unfold putKept
  split
  · exact keySorted_putField h
  · exact h

theorem keySorted_foldl (h : KeySorted acc) : KeySorted (entries.foldl putKept acc) := by
  induction entries generalizing acc with
  | nil => exact h
  | cons entry entries ih => exact ih (keySorted_putKept h)

theorem lookup_putKept_ne {entry : String × Option JsonValue} (h : key ≠ entry.1) :
    (putKept acc entry).lookup key = acc.lookup key := by
  unfold putKept
  split
  · exact lookup_putField_ne h
  · rfl

theorem lookup_foldl_of_notMem (h : key ∉ entries.map Prod.fst) :
    (entries.foldl putKept acc).lookup key = acc.lookup key := by
  induction entries generalizing acc with
  | nil => rfl
  | cons entry entries ih =>
      rw [List.map_cons, List.mem_cons, not_or] at h
      rw [List.foldl_cons, ih h.2, lookup_putKept_ne h.1]

/-- Each key has what its entry says, when it has one. -/
theorem lookup_foldl (hnodup : (entries.map Prod.fst).Nodup) :
    (entries.foldl putKept acc).lookup key =
      ((entries.lookup key).join).or (acc.lookup key) := by
  induction entries generalizing acc with
  | nil => rfl
  | cons entry entries ih =>
      obtain ⟨first, kept⟩ := entry
      rw [List.map_cons, List.nodup_cons] at hnodup
      rw [List.foldl_cons, List.lookup_cons]
      by_cases hkey : key = first
      · subst hkey
        rw [lookup_foldl_of_notMem hnodup.1, beq_self_eq_true]
        cases kept with
        | none => rfl
        | some value => exact lookup_putField
      · rw [ih hnodup.2, beq_eq_false_iff_ne.mpr hkey, lookup_putKept_ne hkey]

end PutKept

/-! ## The redacted row, key by key -/

section Shown
variable (toLowercase : List Char → List Char)

def shownString (key value : String) : String := (redactStringValue toLowercase key value {}).1

def shownValue (key : String) (value : JsonValue) : Option JsonValue :=
  (redactSafeSummaryValue toLowercase key value {}).1

def shownParam (param : String × JsonValue) : String × Option JsonValue :=
  (param.1, if param.1 ∈ safeParamSummaryKeys then shownValue toLowercase param.1 param.2 else none)

def shownParams (params : Fields) : Fields :=
  (params.map (shownParam toLowercase)).foldl putKept []

inductive Kind where
  | number
  | flag
  | text
  | texts
  | params
  deriving DecidableEq, Repr

/-- The allow list. -/
def tracedFields : List (String × Kind) :=
  [("timestamp_ms", .number), ("tool_call_index", .number), ("transport", .text), ("tool", .text),
    ("success", .flag), ("duration_ms", .number), ("request_id", .text), ("error_code", .text),
    ("params_summary", .params), ("response_bytes", .number), ("response_truncated", .flag),
    ("result_count", .number), ("total_available", .number), ("selected_unique_ids", .texts),
    ("top_unique_ids", .texts)]

/-- What is kept of the value of a field. -/
def kept (key : String) (value : JsonValue) : Kind → Option JsonValue
  | .number => if value.asU64.isSome then some value else none
  | .flag => if value.asBool.isSome then some value else none
  | .text => value.asStr.map fun text => .string (shownString toLowercase key text)
  | .texts => value.asArray.map fun items =>
      .array ((items.filterMap asStr).map fun text => .string (shownString toLowercase key text))
  | .params => value.asObject.bind fun params =>
      let shown := shownParams toLowercase params
      if shown.isEmpty then none else some (.object shown)

def keptField (map : Fields) (field : String × Kind) : String × Option JsonValue :=
  (field.1, (map.lookup field.1).bind fun value => kept toLowercase field.1 value field.2)

/-- The row that is shown. -/
def shownRow (map : Fields) : Fields :=
  (tracedFields.map (keptField toLowercase map)).foldl putKept []

variable {toLowercase} {key : String} {counts : Counts} {acc : Fields × Counts} {map : Fields}

theorem redactStringValue_fst (value : String) :
    (redactStringValue toLowercase key value counts).1 = shownString toLowercase key value := by
  unfold shownString redactStringValue
  split
  · rfl
  · split
    · rfl
    · rfl

mutual

theorem redactSafeSummaryValue_fst (key : String) : ∀ (value : JsonValue) (counts : Counts),
    (redactSafeSummaryValue toLowercase key value counts).1 = shownValue toLowercase key value
  | .null, _ => rfl
  | .bool _, _ => rfl
  | .number _, _ => rfl
  | .string value, counts => by
      simp only [shownValue, redactSafeSummaryValue, redactStringValue_fst]
  | .array items, counts => by
      simp only [shownValue, redactSafeSummaryValue, redactSafeSummaryValues_fst key items]
  | .object _, _ => rfl

/-- The items are redacted each for itself. -/
theorem redactSafeSummaryValues_fst (key : String) : ∀ (items : List JsonValue) (counts : Counts),
    (redactSafeSummaryValues toLowercase key items counts).1 =
      items.filterMap (shownValue toLowercase key)
  | [], _ => rfl
  | item :: items, counts => by
      simp only [redactSafeSummaryValues, redactSafeSummaryValue_fst key item,
        redactSafeSummaryValues_fst key items]
      cases hitem : shownValue toLowercase key item with
      | none => rw [List.filterMap_cons_none hitem, Option.toList_none, List.nil_append]
      | some shown => rw [List.filterMap_cons_some hitem, Option.toList_some, List.singleton_append]

end

theorem shownValue_array (items : List JsonValue) :
    shownValue toLowercase key (.array items) =
      some (.array (items.filterMap (shownValue toLowercase key))) := by
  simp only [shownValue, redactSafeSummaryValue, redactSafeSummaryValues_fst]

theorem redactParam_fst (param : String × JsonValue) :
    (redactParam toLowercase acc param).1 = putKept acc.1 (shownParam toLowercase param) := by
  unfold redactParam shownParam putKept
  split
  · rw [← redactSafeSummaryValue_fst param.1 param.2 acc.2]
    split
    · rename_i hshown
      rw [hshown]
    · rename_i hshown
      rw [hshown]
  · rfl

theorem foldl_redactParam (params : Fields) :
    (params.foldl (redactParam toLowercase) acc).1 =
      (params.map (shownParam toLowercase)).foldl putKept acc.1 := by
  induction params generalizing acc with
  | nil => rfl
  | cons param params ih =>
      rw [List.foldl_cons, ih, redactParam_fst, List.map_cons, List.foldl_cons]

theorem foldl_redactItem (items : List JsonValue) (texts : List JsonValue) :
    (items.foldl (redactItem toLowercase key) (texts, counts)).1 = texts ++
      (items.filterMap asStr).map fun text => .string (shownString toLowercase key text) := by
  induction items generalizing texts counts with
  | nil => simp
  | cons item items ih =>
      rw [List.foldl_cons, redactItem]
      cases hitem : item.asStr with
      | none => rw [List.filterMap_cons_none hitem, ih]
      | some text =>
          rw [List.filterMap_cons_some hitem, ih, redactStringValue_fst, List.map_cons,
            List.append_assoc, List.singleton_append]

/-- A call puts in what is kept of its field. -/
def IsCopy (entry : String × Option JsonValue) (copy : Fields × Counts → Fields × Counts) : Prop :=
  ∀ acc, (copy acc).1 = putKept acc.1 entry

theorem isCopy_copyField {keep : JsonValue → Counts → Option JsonValue × Counts}
    {shown : JsonValue → Option JsonValue}
    (h : ∀ value counts, (keep value counts).1 = shown value) :
    IsCopy (key, (map.lookup key).bind shown) (copyField keep map key) := by
  intro acc
  unfold copyField putKept
  cases map.lookup key with
  | none => rfl
  | some value =>
      simp only [Option.bind_some, ← h value acc.2]
      split
      · rename_i hkeep
        rw [hkeep]
      · rename_i hkeep
        rw [hkeep]

theorem isCopy_number :
    IsCopy (keptField toLowercase map (key, .number)) (copyU64Field map key) :=
  isCopy_copyField fun _ _ => rfl

theorem isCopy_flag : IsCopy (keptField toLowercase map (key, .flag)) (copyBoolField map key) :=
  isCopy_copyField fun _ _ => rfl

theorem isCopy_text :
    IsCopy (keptField toLowercase map (key, .text)) (copyStringField toLowercase map key) := by
  refine isCopy_copyField fun value counts => ?_
  cases hvalue : value.asStr with
  | none => simp only [kept, hvalue, Option.map_none]
  | some text => simp only [kept, hvalue, Option.map_some, redactStringValue_fst]

theorem isCopy_texts : IsCopy (keptField toLowercase map (key, .texts))
    (copyStringArrayField toLowercase map key) := by
  refine isCopy_copyField fun value counts => ?_
  cases hvalue : value.asArray with
  | none => simp only [kept, hvalue, Option.map_none]
  | some items => simp only [kept, hvalue, Option.map_some, foldl_redactItem, List.nil_append]

theorem isCopy_params : IsCopy (keptField toLowercase map ("params_summary", .params))
    (copyParamsSummary toLowercase map) := by
  intro acc
  unfold copyParamsSummary keptField putKept
  cases map.lookup "params_summary" with
  | none => rfl
  | some params =>
      cases params with
      | object fields =>
          have hparams : (redactParamsSummary toLowercase (.object fields) acc.2).1 =
              shownParams toLowercase fields := foldl_redactParam fields
          simp only [Option.bind_some, kept, asObject, hparams]
          split
          · rfl
          · rfl
      | _ => rfl

theorem foldl_copies {entries : List (String × Option JsonValue)}
    {copies : List (Fields × Counts → Fields × Counts)} (h : List.Forall₂ IsCopy entries copies) :
    (copies.foldl (fun acc copy => copy acc) acc).1 = entries.foldl putKept acc.1 := by
  induction h generalizing acc with
  | nil => rfl
  | cons hcopy _ ih => rw [List.foldl_cons, List.foldl_cons, ih, hcopy]

theorem rowCopies_isCopy : List.Forall₂ IsCopy
    (tracedFields.map (keptField toLowercase map)) (rowCopies toLowercase map) := by
  unfold rowCopies tracedFields
  simp only [List.map_cons, List.map_nil]
  repeat' apply List.Forall₂.cons
  all_goals first
    | exact isCopy_number
    | exact isCopy_text
    | exact isCopy_flag
    | exact isCopy_texts
    | exact isCopy_params
    | exact List.Forall₂.nil

/-- The calls one after the other show the row. -/
theorem redactTraceRow_fst :
    (redactTraceRow toLowercase (.object map) counts).1 = .object (shownRow toLowercase map) := by
  rw [redactTraceRow]
  exact congrArg JsonValue.object (foldl_copies rowCopies_isCopy)

/-- What a redacted row has under a key. -/
theorem lookup_shownRow : (shownRow toLowercase map).lookup key =
    (tracedFields.lookup key).bind fun kind =>
      (map.lookup key).bind fun value => kept toLowercase key value kind := by
  have hnodup : ((tracedFields.map (keptField toLowercase map)).map Prod.fst).Nodup := by
    rw [List.map_map]
    exact (by decide : (tracedFields.map Prod.fst).Nodup)
  have hfind : ∀ fields : List (String × Kind),
      (fields.map (keptField toLowercase map)).lookup key = (fields.lookup key).map fun kind =>
        (map.lookup key).bind fun value => kept toLowercase key value kind := by
    intro fields
    induction fields with
    | nil => rfl
    | cons field fields ih =>
        obtain ⟨first, kind⟩ := field
        rw [List.map_cons, keptField, List.lookup_cons, List.lookup_cons]
        by_cases hkey : key = first
        · subst hkey
          rw [beq_self_eq_true]
          rfl
        · rw [beq_eq_false_iff_ne.mpr hkey, ih]
  rw [shownRow, lookup_foldl hnodup, hfind]
  cases tracedFields.lookup key with
  | none => rfl
  | some kind => simp

end Shown

/-! ## Changes that nobody sees -/

section Edits
variable (toLowercase : List Char → List Char)

def Masked (key text : String) : Prop := (sensitiveKey key || sensitiveValue text) = true

/-- Two texts that are masked, two long ones with the same beginning, or two sensitive URIs with
other users, queries or fragments. -/
inductive EditText (key : String) : String → String → Prop where
  | masked (text text' : String) (h : Masked key text) (h' : Masked key text') :
      EditText key text text'
  | long (text text' : String) (h : ¬ Masked key text) (h' : ¬ Masked key text')
      (huri : looksLikeSensitiveUri text = false) (huri' : looksLikeSensitiveUri text' = false)
      (hstart : text.toList.take maxSummaryStringChars = text'.toList.take maxSummaryStringChars) :
      EditText key text text'
  | uri (text text' : String) (u u' : Uri) (h : ¬ Masked key text) (h' : ¬ Masked key text')
      (huri : looksLikeSensitiveUri text = true) (huri' : looksLikeSensitiveUri text' = true)
      (htext : Text.trimChars text.toList = u.text) (htext' : Text.trimChars text'.toList = u'.text)
      (hscheme : u.scheme = u'.scheme) (huser : u.user.isSome = u'.user.isSome)
      (hhost : u.host = u'.host) (hpath : u.segments = u'.segments)
      (hmarked : u.marked = u'.marked) : EditText key text text'

/-- A text at any depth of the value of a parameter changes, or an object comes in. -/
inductive EditValue (key : String) : JsonValue → JsonValue → Prop where
  | text (text text' : String) (h : EditText key text text') :
      EditValue key (.string text) (.string text')
  | item (before after : List JsonValue) (item item' : JsonValue) (h : EditValue key item item') :
      EditValue key (.array (before ++ item :: after)) (.array (before ++ item' :: after))
  | object (before after : List JsonValue) (fields : Fields) :
      EditValue key (.array (before ++ after)) (.array (before ++ .object fields :: after))

/-- A parameter that is not on its list changes or comes in, or one on the list changes. -/
inductive EditParams : Fields → Fields → Prop where
  | unlisted (params : Fields) (key : String) (value : JsonValue)
      (hkey : key ∉ safeParamSummaryKeys) : EditParams params (putField key value params)
  | value (params : Fields) (key : String) (value value' : JsonValue)
      (hvalue : params.lookup key = some value) (h : EditValue key value value') :
      EditParams params (putField key value' params)

inductive EditField (key : String) : Kind → JsonValue → JsonValue → Prop where
  | text (text text' : String) (h : EditText key text text') :
      EditField key .text (.string text) (.string text')
  | item (before after : List JsonValue) (text text' : String) (h : EditText key text text') :
      EditField key .texts (.array (before ++ .string text :: after))
        (.array (before ++ .string text' :: after))
  | noText (before after : List JsonValue) (item : JsonValue) (hitem : item.asStr = none) :
      EditField key .texts (.array (before ++ after)) (.array (before ++ item :: after))
  | params (params params' : Fields) (hmap : KeySorted params) (h : EditParams params params') :
      EditField key .params (.object params) (.object params')

/-- One change of a row. -/
inductive Edit : Fields → Fields → Prop where
  | unlisted (map : Fields) (key : String) (value : JsonValue)
      (hkey : key ∉ tracedFields.map Prod.fst) : Edit map (putField key value map)
  | field (map : Fields) (key : String) (kind : Kind) (value value' : JsonValue)
      (hkey : (key, kind) ∈ tracedFields) (hvalue : map.lookup key = some value)
      (h : EditField key kind value value') : Edit map (putField key value' map)

variable {toLowercase} {key : String} {map map' : Fields}

theorem EditText.shownString_eq (hlower : Lowercases toLowercase) {text text' : String}
    (h : EditText key text text') :
    shownString toLowercase key text = shownString toLowercase key text' := by
  unfold shownString redactStringValue
  cases h with
  | masked h h' =>
      unfold Masked at h h'
      rw [if_pos h, if_pos h']
  | long h h' huri huri' hstart =>
      unfold Masked at h h'
      rw [if_neg h, if_neg h', huri, huri']
      simp only [Bool.false_eq_true, if_false, truncateString, hstart]
  | uri u u' h h' huri huri' htext htext' hscheme huser hhost hpath hmarked =>
      have husers : u.user.map (fun _ => redacted) = u'.user.map fun _ => redacted := by
        cases hu : u.user with
        | none =>
            rw [hu] at huser
            rw [Option.isNone_iff_eq_none.mp (Option.isSome_eq_false_iff.mp huser.symm)]
        | some user =>
            rw [hu] at huser
            obtain ⟨user', hu'⟩ := Option.isSome_iff_exists.mp huser.symm
            rw [hu']
            rfl
      unfold Masked at h h'
      rw [if_neg h, if_neg h', if_pos huri, if_pos huri']
      simp only [hlower.sanitizeUri_text htext, hlower.sanitizeUri_text htext', Uri.shown, hscheme,
        husers, hhost, hpath, hmarked]

theorem EditValue.shownValue_eq (hlower : Lowercases toLowercase) {value value' : JsonValue}
    (h : EditValue key value value') :
    shownValue toLowercase key value = shownValue toLowercase key value' := by
  induction h with
  | text text text' h =>
      simp only [shownValue, redactSafeSummaryValue, redactStringValue_fst, h.shownString_eq hlower]
  | item before after item item' h ih =>
      simp only [shownValue_array, List.filterMap_append, List.filterMap_cons, ih]
  | object before after fields =>
      have hnone : shownValue toLowercase key (.object fields) = none := rfl
      simp only [shownValue_array, List.filterMap_append, List.filterMap_cons_none hnone]

/-- What is shown of the parameters, by key. -/
theorem lookup_shownParams {params : Fields} (hmap : KeySorted params) :
    (shownParams toLowercase params).lookup key =
      if key ∈ safeParamSummaryKeys then (params.lookup key).bind (shownValue toLowercase key)
      else none := by
  have hkeys : (params.map (shownParam toLowercase)).map Prod.fst = params.map Prod.fst := by
    rw [List.map_map]
    rfl
  have hfind : (params.map (shownParam toLowercase)).lookup key =
      (params.lookup key).map fun value =>
        if key ∈ safeParamSummaryKeys then shownValue toLowercase key value else none := by
    clear hmap hkeys
    induction params with
    | nil => rfl
    | cons param params ih =>
        obtain ⟨first, value⟩ := param
        rw [List.map_cons, shownParam, List.lookup_cons, List.lookup_cons]
        by_cases hkey : key = first
        · subst hkey
          rw [beq_self_eq_true]
          rfl
        · rw [beq_eq_false_iff_ne.mpr hkey, ih]
  have hnodup : ((params.map (shownParam toLowercase)).map Prod.fst).Nodup := hkeys ▸ hmap.nodup
  rw [shownParams, lookup_foldl hnodup, hfind]
  cases params.lookup key with
  | none => simp
  | some value => simp

theorem EditParams.shownParams_eq (hlower : Lowercases toLowercase) {params params' : Fields}
    (hmap : KeySorted params) (h : EditParams params params') :
    shownParams toLowercase params = shownParams toLowercase params' := by
  have hsorted : ∀ fields, KeySorted (shownParams toLowercase fields) := fun fields =>
    keySorted_foldl List.Pairwise.nil
  refine (hsorted params).eq_of_lookup (hsorted params') fun key => ?_
  cases h with
  | unlisted other value hother =>
      rw [lookup_shownParams hmap, lookup_shownParams (keySorted_putField hmap)]
      split
      · rename_i hkey
        rw [lookup_putField_ne (ne_of_mem_of_not_mem hkey hother)]
      · rfl
  | value other value value' hvalue h =>
      rw [lookup_shownParams hmap, lookup_shownParams (keySorted_putField hmap)]
      by_cases hkey : key = other
      · subst hkey
        rw [lookup_putField, hvalue, Option.bind_some, Option.bind_some, h.shownValue_eq hlower]
      · rw [lookup_putField_ne hkey]

theorem EditField.kept_eq (hlower : Lowercases toLowercase) {kind : Kind} {value value' : JsonValue}
    (h : EditField key kind value value') :
    kept toLowercase key value kind = kept toLowercase key value' kind := by
  cases h with
  | text text text' h => simp only [kept, asStr, Option.map_some, h.shownString_eq hlower]
  | item before after text text' h =>
      simp only [kept, asArray, Option.map_some, List.filterMap_append, List.filterMap_cons, asStr,
        List.map_append, List.map_cons, h.shownString_eq hlower]
  | noText before after item hitem =>
      simp only [kept, asArray, Option.map_some, List.filterMap_append,
        List.filterMap_cons_none hitem]
  | params params params' hmap h =>
      simp only [kept, asObject, Option.bind_some, h.shownParams_eq hlower hmap]

theorem tracedFields_kind : ∀ field ∈ tracedFields, ∀ other ∈ tracedFields,
    field.1 = other.1 → field.2 = other.2 := by
  decide

theorem Edit.shownRow_eq (hlower : Lowercases toLowercase) (h : Edit map map') :
    shownRow toLowercase map = shownRow toLowercase map' := by
  unfold shownRow
  congr 1
  refine List.map_congr_left fun field hfield => ?_
  unfold keptField
  cases h with
  | unlisted key value hkey =>
      rw [lookup_putField_ne (ne_of_mem_of_not_mem (List.mem_map_of_mem hfield) hkey)]
  | field key kind value value' hkey hvalue h =>
      by_cases hsame : field.1 = key
      · have hkind : field.2 = kind := tracedFields_kind _ hfield _ hkey hsame
        rw [hsame, hkind, lookup_putField, hvalue, Option.bind_some, Option.bind_some,
          h.kept_eq hlower]
      · rw [lookup_putField_ne hsame]

end Edits

/-- The password in a URI and a field that is not on the list. -/
def loginMap : Fields :=
  [("error_code", .string "s3://bob@nova/a?token=1"), ("headers", .string "x"), ("tool", .string "t")]

def otherLoginMap : Fields :=
  [("error_code", .string "s3://eve@nova/a?token=22"), ("headers", .null), ("tool", .string "t")]

def loginUri (user query : List Char)
    (huser : ∀ ch ∈ user, ch ≠ '/' ∧ ch ≠ '?' ∧ ch ≠ '#') (hquery : '#' ∉ query) : Uri where
  scheme := "s3".toList
  user := some user
  host := "nova".toList
  segments := ["a".toList]
  query := some query
  fragment := none
  scheme_chars := chainUri.scheme_chars
  user_chars := fun _ htext => by cases htext; exact huser
  host_chars := chars_of_all (by decide)
  segment_chars := fun _ hsegment => by
    rw [List.mem_singleton.mp hsegment]
    exact chars_of_all (by decide)
  query_chars := fun _ htext => by cases htext; exact hquery

section File
variable {toLowercase : List Char → List Char} {key : String} {map : Fields} {counts : Counts}
  {rows : List JsonValue}

def redactedFields (toLowercase : List Char → List Char) : JsonValue → Fields
  | .object map => shownRow toLowercase map
  | _ => [("redaction_warning", .string "trace row was not an object")]

def redactedRow (toLowercase : List Char → List Char) (row : JsonValue) : JsonValue :=
  rowValue (redactedFields toLowercase row)

theorem redactTraceRow_redactedRow (row : JsonValue) :
    (redactTraceRow toLowercase row counts).1 = redactedRow toLowercase row := by
  cases row with
  | object map => exact redactTraceRow_fst
  | _ => rfl

theorem redactRows_fst : (redactRows toLowercase rows).1 = rows.map (redactedRow toLowercase) := by
  have hfold : ∀ (rows done : List JsonValue) (counts : Counts),
      (rows.foldl (redactRow toLowercase) (done, counts)).1 =
        done ++ rows.map (redactedRow toLowercase) := by
    intro rows
    induction rows with
    | nil => simp
    | cons row rows ih =>
        intro done counts
        rw [List.foldl_cons, redactRow, ih, redactTraceRow_redactedRow, List.map_cons,
          List.append_assoc, List.singleton_append]
  exact (hfold rows [] {}).trans (List.nil_append _)

/-! ### Well-formed values -/

theorem wellFormed_putKept {entries : List (String × Option JsonValue)} {acc : Fields}
    (hacc : ∀ field ∈ acc, field.2.wellFormed = true)
    (h : ∀ entry ∈ entries, ∀ value ∈ entry.2, value.wellFormed = true) :
    ∀ field ∈ entries.foldl putKept acc, field.2.wellFormed = true := by
  induction entries generalizing acc with
  | nil => exact hacc
  | cons entry entries ih =>
      refine ih ?_ fun other hother => h other (List.mem_cons_of_mem _ hother)
      intro field hfield
      unfold putKept at hfield
      split at hfield
      · rename_i value hvalue
        rcases mem_putField hfield with rfl | hold
        · exact h entry List.mem_cons_self value hvalue
        · exact hacc field hold
      · exact hacc field hfield

theorem wellFormed_shownValue : ∀ (value shown : JsonValue), value.wellFormed = true →
    shownValue toLowercase key value = some shown → shown.wellFormed = true
  | .null, _, _, hshown => by cases hshown; rfl
  | .bool _, _, _, hshown => by cases hshown; rfl
  | .number _, _, hvalue, hshown => by cases hshown; exact hvalue
  | .string _, _, _, hshown => by cases hshown; rfl
  | .object _, _, _, hshown => by cases hshown
  | .array items, shown, hvalue, hshown => by
      rw [shownValue_array] at hshown
      cases hshown
      simp only [wellFormed, wellFormedValues_iff] at hvalue ⊢
      intro shown hmem
      obtain ⟨item, hitem, hshown⟩ := List.mem_filterMap.mp hmem
      exact wellFormed_shownValue item shown (hvalue item hitem) hshown
termination_by value => value
decreasing_by
  have := List.sizeOf_lt_of_mem hitem
  simp only [array.sizeOf_spec]
  omega

theorem wellFormed_kept {kind : Kind} {value shown : JsonValue} (hvalue : value.wellFormed = true)
    (hshown : kept toLowercase key value kind = some shown) : shown.wellFormed = true := by
  cases kind with
  | number =>
      obtain ⟨-, ⟨⟩⟩ := Option.ite_none_right_eq_some.mp hshown
      exact hvalue
  | flag =>
      obtain ⟨-, ⟨⟩⟩ := Option.ite_none_right_eq_some.mp hshown
      exact hvalue
  | text =>
      obtain ⟨text, -, rfl⟩ := Option.map_eq_some_iff.mp hshown
      rfl
  | texts =>
      obtain ⟨items, -, rfl⟩ := Option.map_eq_some_iff.mp hshown
      simp only [wellFormed, wellFormedValues_iff]
      intro item hitem
      obtain ⟨text, -, rfl⟩ := List.mem_map.mp hitem
      rfl
  | params =>
      obtain ⟨params, hparams, hshown⟩ := Option.bind_eq_some_iff.mp hshown
      simp only [Option.ite_none_left_eq_some] at hshown
      obtain ⟨-, hshown⟩ := hshown
      cases hshown
      have hfields : ∀ field ∈ params, field.2.wellFormed = true := by
        cases value with
        | object fields =>
            cases hparams
            simpa only [wellFormed, wellFormedFields_iff] using hvalue
        | _ => cases hparams
      simp only [wellFormed, wellFormedFields_iff]
      refine wellFormed_putKept (fun _ hfield => absurd hfield List.not_mem_nil)
        fun entry hentry value hvalue => ?_
      obtain ⟨param, hparam, rfl⟩ := List.mem_map.mp hentry
      obtain ⟨-, hshown⟩ := Option.ite_none_right_eq_some.mp hvalue
      exact wellFormed_shownValue param.2 value (hfields param hparam) hshown

theorem wellFormed_redactedRow {row : JsonValue} (hrow : row.wellFormed = true) :
    (redactedRow toLowercase row).wellFormed = true := by
  cases row with
  | object map =>
      simp only [wellFormed, wellFormedFields_iff] at hrow
      simp only [redactedRow, rowValue, redactedFields, wellFormed, wellFormedFields_iff]
      refine wellFormed_putKept (fun _ hfield => absurd hfield List.not_mem_nil)
        fun entry hentry shown hshown => ?_
      obtain ⟨field, -, rfl⟩ := List.mem_map.mp hentry
      obtain ⟨value, hvalue, hkept⟩ := Option.bind_eq_some_iff.mp hshown
      exact wellFormed_kept (hrow _ (mem_of_lookup hvalue)) hkept
  | _ => rfl

/-! ### Its text -/

theorem redactedBody_eq (rows : List Fields) : redactedBody (rows.map rowValue) =
    LineLog.text '\n' ((rows.map fun fields => (rowValue fields).chars).map .whole) := by
  have hjoined : ∀ (row : Fields) (rows : List Fields),
      List.intercalate ['\n'] (((row :: rows).map rowValue).map chars) ++ ['\n'] =
        LineLog.text '\n' (((row :: rows).map fun fields => (rowValue fields).chars).map .whole) := by
    intro row rows
    induction rows generalizing row with
    | nil => simp [LineLog.text, LineLog.Piece.render]
    | cons next rows ih =>
        have hrest := ih next
        simp only [List.map_cons, List.intercalate_cons_cons, List.append_assoc] at hrest ⊢
        rw [hrest]
        simp [LineLog.text, LineLog.Piece.render]
  cases rows with
  | nil => rfl
  | cons row rows =>
      have hne : List.intercalate ['\n'] (((row :: rows).map rowValue).map chars) ≠ [] := by
        cases rows with
        | nil => simp [rowValue, chars]
        | cons next rows => simp [rowValue, chars]
      rw [redactedBody, if_neg hne]
      exact hjoined row rows

/-! ### Its numbers -/

theorem putField_of_lookup {fields : Fields} {value : JsonValue} (h : KeySorted fields)
    (hlookup : fields.lookup key = some value) : putField key value fields = fields := by
  refine (keySorted_putField h).eq_of_lookup h fun other => ?_
  by_cases hother : other = key
  · rw [hother, lookup_putField, hlookup]
  · rw [lookup_putField_ne hother]

/-- Redacted rows keep their numbers. -/
theorem normalize_redacted (hobjects : ∀ row ∈ rows, row.asObject.isSome = true)
    (hfew : rows.length ≤ 2 ^ 64) :
    normalizeToolTraceIndices ((normalizeToolTraceIndices rows).map (redactedRow toLowercase)) =
      (normalizeToolTraceIndices rows).map (redactedRow toLowercase) := by
  refine List.ext_getElem? fun i => ?_
  rw [normalizeToolTraceIndices, List.getElem?_mapIdx, List.getElem?_map, normalizeToolTraceIndices,
    List.getElem?_mapIdx]
  cases hrow : rows[i]? with
  | none => rfl
  | some row =>
      have hi : i < 2 ^ 64 := by
        obtain ⟨hlt, -⟩ := List.getElem?_eq_some_iff.mp hrow
        omega
      cases row with
      | object fields =>
          have hindex : (shownRow toLowercase (putField "tool_call_index" (.ofNat i) fields)).lookup
              "tool_call_index" = some (.ofNat i) := by
            have hread : asU64 (.ofNat i) = some i := ResponsePages.asU64_ofNat hi
            rw [lookup_shownRow, lookup_putField]
            change kept toLowercase "tool_call_index" (.ofNat i) .number = _
            rw [kept, hread]
            rfl
          have hsorted : KeySorted
              (shownRow toLowercase (putField "tool_call_index" (.ofNat i) fields)) :=
            keySorted_foldl List.Pairwise.nil
          simp only [Option.map_some, redactedRow, redactedFields, rowValue,
            putField_of_lookup hsorted hindex]
      | _ => exact absurd (hobjects _ (List.mem_of_getElem? hrow)) Bool.false_ne_true

end File

/-- A trace of one call with a secret, and what its redacted line reads back as. -/
def secretRead : ToolTraceRead :=
  { rows := normalizeToolTraceIndices
      [.object [("headers", .string "x"), ("tool", .string "bearer abc")]] }

def shownSecret : JsonValue :=
  .object [("tool", .string "[REDACTED]"), ("tool_call_index", .number "0")]

def parseShown (text : String) : Except String JsonValue :=
  if text = shownSecret.toText then .ok shownSecret else .error "expected value"

end DbtNova.TraceRedaction
