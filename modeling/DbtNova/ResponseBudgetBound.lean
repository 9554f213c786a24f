import DbtNova.JsonFields
import DbtNova.ResponseBudget

/-!
# When a response keeps its budget

The length of an object is a sum over its fields, so every change of the metadata
changes the length by what it puts in and takes out. The stub and its metadata are
then compared with the budget by arithmetic on a few lengths.
-/
namespace DbtNova.ResponseBudget
open JsonValue

/-! ## The length of an object -/

theorem bytes_cons (c : Char) (cs : List Char) : bytes (c :: cs) = c.utf8Size + bytes cs := rfl

theorem bytes_append (cs ds : List Char) : bytes (cs ++ ds) = bytes cs + bytes ds := by
  unfold bytes
  rw [List.map_append, List.sum_append]

def fieldLen (field : String × JsonValue) : ℕ := bytes (charsOfField field)

/-- Each field with the comma or brace before it. -/
def weight (fields : Fields) : ℕ := (fields.map fun field => fieldLen field + 1).sum

@[simp] theorem weight_cons (field : String × JsonValue) (fields : Fields) :
    weight (field :: fields) = fieldLen field + 1 + weight fields := rfl

theorem fieldLen_eq (key : String) (value : JsonValue) :
    fieldLen (key, value) = bytes (quoteText key) + 1 + serializedLen value := by
  unfold fieldLen serializedLen
  rw [charsOfField, bytes_append, bytes_cons, Nat.add_assoc]
  rfl

theorem bytes_charsOfFields (field : String × JsonValue) (fields : Fields) :
    bytes (charsOfFields (field :: fields)) + 1 = weight (field :: fields) := by
  induction fields generalizing field with
  | nil => rfl
  | cons next fields ih =>
      have hrest := ih next
      have hcomma : ','.utf8Size = 1 := rfl
      rw [charsOfFields, bytes_append, bytes_cons, weight_cons, ← hrest, hcomma]
      unfold fieldLen
      omega

theorem serializedLen_object {fields : Fields} (h : fields ≠ []) :
    serializedLen (.object fields) = weight fields + 1 := by
  cases fields with
  | nil => exact absurd rfl h
  | cons field fields =>
      have hbytes := bytes_charsOfFields field fields
      have hbraces : '\x7b'.utf8Size = 1 ∧ '\x7d'.utf8Size = 1 := ⟨rfl, rfl⟩
      unfold serializedLen
      rw [chars, List.cons_append, bytes_cons, bytes_append, bytes_cons, hbraces.1, hbraces.2]
      simp only [bytes, List.map_nil, List.sum_nil] at hbytes ⊢
      omega

/-! ## Fields that come in -/

section Fields
variable {key other : String} {value new : JsonValue} {fields : Fields}

theorem weight_insertField :
    weight (insertField key value fields) = weight fields + fieldLen (key, value) + 1 := by
  induction fields with
  | nil => rw [insertField, weight_cons, Nat.add_comm, ← Nat.add_assoc]
  | cons field fields ih =>
      rw [insertField]
      split
      · rw [weight_cons]
        omega
      · rw [weight_cons, weight_cons, ih]
        omega

theorem insertField_ne_nil : insertField key value fields ≠ [] := by
  intro hnil
  have hweight : weight (insertField key value fields) = _ := weight_insertField
  rw [hnil] at hweight
  cases hweight

theorem mem_keys_putField :
    other ∈ (putField key value fields).map Prod.fst ↔
      other = key ∨ other ∈ fields.map Prod.fst := by
  unfold putField
  split
  · rename_i hsome
    rw [keys_setField]
    constructor
    · exact .inr
    · rintro (heq | hmem)
      · obtain ⟨found, hfound⟩ := Option.isSome_iff_exists.mp hsome
        obtain ⟨l₁, l₂, hfields, -⟩ := List.lookup_eq_some_iff.mp hfound
        rw [heq, hfields]
        simp
      · exact hmem
  · exact mem_keys_insertField

theorem putField_new (h : key ∉ fields.map Prod.fst) :
    putField key value fields = insertField key value fields := by
  unfold putField
  rw [lookup_eq_none h]
  rfl

theorem setField_of_notMem (h : key ∉ fields.map Prod.fst) : setField key new fields = fields := by
  unfold setField
  conv_rhs => rw [← List.map_id fields]
  apply List.map_congr_left
  intro field hfield
  apply if_neg
  intro heq
  rw [← heq] at h
  exact h (List.mem_map_of_mem hfield)

theorem setField_insertField (h : key ∉ fields.map Prod.fst) :
    setField key new (insertField key value fields) = insertField key new fields := by
  induction fields with
  | nil => simp [insertField, setField]
  | cons field fields ih =>
      have hrest : setField key new (field :: fields) = field :: fields :=
        setField_of_notMem h
      rw [insertField, insertField]
      split
      · unfold setField at hrest ⊢
        rw [List.map_cons, if_pos rfl, hrest]
      · rw [List.map_cons, List.mem_cons, not_or] at h
        have htail := ih h.2
        unfold setField at htail ⊢
        rw [List.map_cons, if_neg (Ne.symm h.1), htail]

theorem filter_insertField (h : key ∉ fields.map Prod.fst) :
    (insertField key value fields).filter (fun field => decide (field.1 = key)) =
      [(key, value)] := by
  have hnone : fields.filter (fun field => decide (field.1 = key)) = [] := by
    rw [List.filter_eq_nil_iff]
    intro field hfield heq
    rw [← of_decide_eq_true heq] at h
    exact h (List.mem_map_of_mem hfield)
  induction fields with
  | nil => simp [insertField]
  | cons field fields ih =>
      rw [insertField]
      split
      · simp [hnone]
      · rw [List.map_cons, List.mem_cons, not_or] at h
        rw [List.filter_cons_of_neg (by simpa using Ne.symm h.1)] at hnone ⊢
        exact ih h.2 hnone

end Fields
/-! ## The metadata -/

/-- The length of a printed number. -/
def digits (n : ℕ) : ℕ := serializedLen (ofNat n)

section Meta
variable (budget : ℕ) (paths : List String) (originalCount : Option ℕ)

def metaFieldOf (responseBytes : ℕ) : String × JsonValue :=
  (metaKey, .object (resultMeta responseBytes budget true paths originalCount))

/-- What the metadata adds to an object besides the digits of its own byte count. -/
def metaRoom : ℕ := fieldLen (metaFieldOf budget paths originalCount 0)

theorem resultMeta_eq (responseBytes : ℕ) (truncated : Bool) :
    resultMeta responseBytes budget truncated paths originalCount =
      [("budget_bytes", ofNat budget),
          ("omitted_paths", .array (((paths.insertionSort (· ≤ ·)).dedup).map .string))] ++
        (originalCount.toList.map fun count => ("original_count", ofNat count)) ++
        [("response_bytes", ofNat responseBytes), ("truncated", .bool truncated)] := by
  cases originalCount with
  | none => rfl
  | some count =>
      have hbudget : ¬ "original_count" < "budget_bytes" := by decide
      have homitted : ¬ "original_count" < "omitted_paths" := by decide
      have hresponse : "original_count" < "response_bytes" := by decide
      unfold resultMeta
      rw [Option.elim_some, putField_new, insertField_cons, if_neg hbudget, insertField_cons,
        if_neg homitted, insertField_cons, if_pos hresponse]
      · rfl
      · simp only [List.map_cons, List.map_nil]
        decide

theorem putField_responseBytes (old new : ℕ) (truncated : Bool) :
    putField "response_bytes" (ofNat new) (resultMeta old budget truncated paths originalCount) =
      resultMeta new budget truncated paths originalCount := by
  rw [resultMeta_eq, resultMeta_eq]
  cases originalCount with
  | none => rfl
  | some count => rfl

theorem putField_omittedPaths (responseBytes : ℕ) (truncated : Bool) :
    putField "omitted_paths" (.array [.string "$"])
        (resultMeta responseBytes budget truncated paths originalCount) =
      resultMeta responseBytes budget truncated ["$"] originalCount := by
  rw [resultMeta_eq, resultMeta_eq]
  cases originalCount with
  | none => rfl
  | some count => rfl

theorem weight_append (front back : Fields) :
    weight (front ++ back) = weight front + weight back := by
  unfold weight
  rw [List.map_append, List.sum_append]

/-- The byte count is the only part of the metadata that changes later. -/
theorem fieldLen_metaFieldOf (responseBytes : ℕ) :
    fieldLen (metaFieldOf budget paths originalCount responseBytes) + 1 =
      metaRoom budget paths originalCount + digits responseBytes := by
  have hzero : digits 0 = 1 := by decide
  have hlen (n : ℕ) : serializedLen (.object (resultMeta n budget true paths originalCount)) =
      weight (resultMeta n budget true paths originalCount) + 1 := by
    apply serializedLen_object
    rw [resultMeta_eq]
    exact List.cons_ne_nil _ _
  have hweight (n : ℕ) : weight (resultMeta n budget true paths originalCount) + digits 0 =
      weight (resultMeta 0 budget true paths originalCount) + digits n := by
    rw [resultMeta_eq, resultMeta_eq]
    simp only [weight_append, weight_cons, fieldLen_eq, digits]
    omega
  have hresponse := hweight responseBytes
  unfold metaRoom metaFieldOf
  rw [fieldLen_eq, fieldLen_eq, hlen, hlen]
  omega

end Meta

/-! ## The stub with its metadata -/

/-- An object that takes in the metadata as a new field. -/
structure Plain (fields : Fields) : Prop where
  nonempty : fields ≠ []
  fresh : metaKey ∉ fields.map Prod.fst

section Stub
variable {fields : Fields} (h : Plain fields) (budget : ℕ) (paths : List String)
  (originalCount : Option ℕ) (responseBytes : ℕ)

def withMeta (fields : Fields) : JsonValue :=
  .object (insertField metaKey
    (.object (resultMeta responseBytes budget true paths originalCount)) fields)

include h

theorem attachResultMeta_plain :
    attachResultMeta (.object fields) responseBytes budget true paths originalCount =
      withMeta budget paths originalCount responseBytes fields := by
  unfold attachResultMeta withMeta
  simp only [putField_new h.fresh]

theorem serializedLen_withMeta :
    serializedLen (withMeta budget paths originalCount responseBytes fields) =
      serializedLen (.object fields) + metaRoom budget paths originalCount +
        digits responseBytes := by
  have hmeta := fieldLen_metaFieldOf budget paths originalCount responseBytes
  unfold withMeta
  rw [serializedLen_object insertField_ne_nil, weight_insertField,
    serializedLen_object h.nonempty]
  unfold metaFieldOf at hmeta
  omega

theorem putInMeta_withMeta (key : String) (child : JsonValue) :
    putInMeta key child (withMeta budget paths originalCount responseBytes fields) =
      .object (insertField metaKey (.object (putField key child
        (resultMeta responseBytes budget true paths originalCount))) fields) := by
  unfold putInMeta withMeta
  simp only [lookup_insertField h.fresh, Option.bind_some, asObject, setField_insertField h.fresh]

theorem update_withMeta :
    updateResultMetaResponseBytes (withMeta budget paths originalCount responseBytes fields) =
      withMeta budget paths originalCount
        (serializedLen (withMeta budget paths originalCount responseBytes fields)) fields := by
  unfold updateResultMetaResponseBytes
  rw [putInMeta_withMeta h, putField_responseBytes]
  rfl

theorem trimPaths_withMeta :
    trimResultMetaPathsForBudget (withMeta budget paths originalCount responseBytes fields) budget =
      if serializedLen (withMeta budget paths originalCount responseBytes fields) ≤ budget then
        withMeta budget paths originalCount responseBytes fields
      else withMeta budget ["$"] originalCount responseBytes fields := by
  unfold trimResultMetaPathsForBudget
  rw [putInMeta_withMeta h, putField_omittedPaths]
  rfl

end Stub

/-- The metadata alone. -/
def bareMeta (budget : ℕ) (originalCount : Option ℕ) (responseBytes : ℕ) : JsonValue :=
  .object [metaFieldOf budget ["$"] originalCount responseBytes]

theorem serializedLen_bareMeta (budget : ℕ) (originalCount : Option ℕ) (responseBytes : ℕ) :
    serializedLen (bareMeta budget originalCount responseBytes) =
      1 + metaRoom budget ["$"] originalCount + digits responseBytes := by
  have hmeta := fieldLen_metaFieldOf budget ["$"] originalCount responseBytes
  have hnil : weight [] = 0 := rfl
  unfold bareMeta
  rw [serializedLen_object (List.cons_ne_nil _ _), weight_cons, hnil]
  omega

theorem update_bareMeta (budget : ℕ) (originalCount : Option ℕ) (responseBytes : ℕ) :
    updateResultMetaResponseBytes (bareMeta budget originalCount responseBytes) =
      bareMeta budget originalCount
        (serializedLen (bareMeta budget originalCount responseBytes)) := by
  unfold updateResultMetaResponseBytes
  generalize serializedLen (bareMeta budget originalCount responseBytes) = n
  unfold putInMeta bareMeta metaFieldOf
  simp only [List.lookup_cons_self, Option.bind_some, asObject, putField_responseBytes]
  rfl

/-! ## The stub takes in the metadata -/

def Fresh (fields : Fields) : Prop := metaKey ∉ fields.map Prod.fst

theorem Fresh.putField {fields : Fields} (h : Fresh fields) {key : String}
    (hkey : metaKey ≠ key) (value : JsonValue) : Fresh (JsonValue.putField key value fields) := by
  unfold Fresh
  rw [mem_keys_putField]
  rintro (heq | hmem)
  · exact hkey heq
  · exact h hmem

theorem Fresh.copyField {obj : Fields} (h : Fresh obj) (source : Fields) {key : String}
    (hkey : metaKey ≠ key) : Fresh (ResponseBudget.copyField source obj key) := by
  unfold ResponseBudget.copyField
  split
  · exact h.putField hkey _
  · exact h

theorem fresh_copied (source : Fields) : Fresh (copiedKeys.foldl (copyField source) []) := by
  have hempty : Fresh [] := List.not_mem_nil
  exact (((hempty.copyField source (by decide)).copyField source (by decide)).copyField source
    (by decide)).copyField source (by decide)

theorem Fresh.compactData {obj : Fields} (h : Fresh obj) (source : Fields) :
    Fresh (ResponseBudget.compactData source obj) := by
  have hdata : metaKey ≠ "data" := by decide
  have hcount : metaKey ≠ "count" := by decide
  unfold ResponseBudget.compactData
  split
  · exact (h.putField hcount _).putField hdata _
  · split
    · exact (h.putField hcount _).putField hdata _
    · split
      · exact (h.putField hcount _).putField hdata _
      · exact (h.copyField source hcount).putField hdata _
  · exact (h.copyField source hcount).putField hdata _
  · exact (h.copyField source hcount).putField hdata _

theorem plain_stub (value : JsonValue) :
    Plain (putField "truncated" (.bool true) (compactFields value)) where
  nonempty := by
    intro hnil
    have hmem : "truncated" ∈
        (putField "truncated" (.bool true) (compactFields value)).map Prod.fst :=
      mem_keys_putField.mpr (.inl rfl)
    rw [hnil] at hmem
    cases hmem
  fresh := by
    have hfields : Fresh (compactFields value) := by
      unfold compactFields
      split
      · exact (fresh_copied _).compactData _
      · have hempty : Fresh [] := List.not_mem_nil
        exact hempty.putField (by decide) _
    exact hfields.putField (by decide) _

/-! ## The bound -/

/-- The stub of a given size fits with all of its metadata, or with the shortest list
of paths, or leaves only its metadata, and that fits; each time the byte count is
rewritten after the comparison and may get longer. -/
def MetaFits (budget size full short : ℕ) : Prop :=
  if size + full + digits size ≤ budget then
    size + full + digits (size + full + digits size) ≤ budget
  else if size + short + digits size ≤ budget then
    size + short + digits (size + short + digits size) ≤ budget
  else 1 + short + digits (1 + short + digits size) ≤ budget

theorem trimmed_fits_iff {fields : Fields} (h : Plain fields) (budget : ℕ) (paths : List String)
    (originalCount : Option ℕ) :
    serializedLen (updateResultMetaResponseBytes (trimResultMetaForBudget
        (attachResultMeta (.object fields) (serializedLen (.object fields)) budget true paths
          originalCount) budget)) ≤ budget ↔
      MetaFits budget (serializedLen (.object fields)) (metaRoom budget paths originalCount)
        (metaRoom budget ["$"] originalCount) := by
  have hlen (paths : List String) (responseBytes : ℕ) :=
    serializedLen_withMeta h budget paths originalCount responseBytes
  rw [attachResultMeta_plain h]
  unfold trimResultMetaForBudget MetaFits
  simp only [trimPaths_withMeta h]
  generalize serializedLen (.object fields) = size at hlen ⊢
  by_cases hfull : size + metaRoom budget paths originalCount + digits size ≤ budget
  · have hfits := hfull
    rw [← hlen] at hfits
    rw [if_pos hfull, if_pos hfits, if_pos hfits, update_withMeta h, hlen, hlen]
  · have hover := hfull
    rw [← hlen] at hover
    rw [if_neg hfull, if_neg hover]
    by_cases hshort : size + metaRoom budget ["$"] originalCount + digits size ≤ budget
    · have hfits := hshort
      rw [← hlen] at hfits
      rw [if_pos hshort, if_pos hfits, update_withMeta h, hlen, hlen]
    · have hover' := hshort
      rw [← hlen] at hover'
      have hbare : (insertField metaKey
          (.object (resultMeta size budget true ["$"] originalCount)) fields).filter
            (fun field => decide (field.1 = metaKey)) =
          [metaFieldOf budget ["$"] originalCount size] := filter_insertField h.fresh
      rw [if_neg hshort, if_neg hover']
      simp only [withMeta, hbare]
      have hupdate := update_bareMeta budget originalCount size
      have hbareLen := serializedLen_bareMeta budget originalCount
      unfold bareMeta at hupdate hbareLen
      rw [hupdate, hbareLen, hbareLen]

/-- The short stub of a response whose truncated form is still too long. -/
def stub (value : JsonValue) (config : BudgetConfig) : JsonValue :=
  compactTruncatedResponse (shrunk value config)

/-- The response fits as it is, or truncated, or as a stub; with metadata switched on
the stub fits together with its metadata, or the metadata alone does. -/
def KeepsBudget (value : JsonValue) (config : BudgetConfig) : Prop :=
  let budget := config.mcpMaxResponseBytes
  serializedLen value ≤ budget ∨ serializedLen (shrunk value config) ≤ budget ∨
    if config.mcpIncludeTruncationMeta then
      MetaFits budget (serializedLen (stub value config))
        (metaRoom budget ((truncateThrice value config).2 ++ ["$"]) (resultCountHint value))
        (metaRoom budget ["$"] (resultCountHint value))
    else serializedLen (stub value config) ≤ budget

theorem finalize_fits {value : JsonValue} {budget : ℕ} (h : serializedLen value ≤ budget)
    (includeMeta : Bool) (omittedPaths : List String) (originalCount : Option ℕ) :
    serializedLen (finalizeMcpBudgetedResponse value budget includeMeta omittedPaths
      originalCount) ≤ budget := by
  unfold finalizeMcpBudgetedResponse
  rw [if_pos h]
  split
  · simp only
    split
    · rename_i hfits
      exact hfits
    · exact h
  · exact h

section OneText
variable {limits : Limits} {path : String} {text : List Char}

/-- No character of the text is escaped or takes more than one byte. -/
def PlainText (text : List Char) : Prop := ∀ c ∈ text, escapeChar c = [c] ∧ c.utf8Size = 1

theorem bytes_quoteText (h : PlainText text) :
    bytes (quoteText (String.ofList text)) = text.length + 2 := by
  have hquote : '"'.utf8Size = 1 := rfl
  have hinner : bytes (text.flatMap escapeChar) = text.length := by
    induction text with
    | nil => rfl
    | cons c text ih =>
        obtain ⟨hc, hsize⟩ := h c List.mem_cons_self
        rw [List.flatMap_cons, hc, bytes_append, ih fun d hd => h d (List.mem_cons_of_mem c hd)]
        simp only [bytes, List.map_cons, List.map_nil, List.sum_cons, List.sum_nil, hsize,
          List.length_cons]
        omega
  unfold quoteText
  rw [String.toList_ofList, bytes_append, bytes_cons, bytes_cons, hinner, hquote]
  simp only [bytes, List.map_nil, List.sum_nil]
  omega

theorem plainText_replicate (n : ℕ) : PlainText (List.replicate n 'a') := by
  intro c hc
  rw [List.eq_of_mem_replicate hc]
  exact ⟨by decide, rfl⟩

/-- A response whose data is one text. -/
def oneText (text : List Char) : JsonValue :=
  .object [("data", .object [("sql", .string (String.ofList text))])]

theorem serializedLen_oneText (h : PlainText text) :
    serializedLen (oneText text) = text.length + 19 := by
  have hdata : bytes (quoteText "data") = 6 := by decide
  have hsql : bytes (quoteText "sql") = 5 := by decide
  have htext : serializedLen (.string (String.ofList text)) = text.length + 2 :=
    bytes_quoteText h
  unfold oneText
  have hnil : weight [] = 0 := rfl
  rw [serializedLen_object (List.cons_ne_nil _ _), weight_cons, fieldLen_eq,
    serializedLen_object (List.cons_ne_nil _ _), weight_cons, fieldLen_eq, hdata, hsql, htext,
    hnil]
  omega

/-- A text within the limits is not cut. -/
theorem truncate_oneText (hnoisy : text.length ≤ min limits.maxStringChars 2048)
    (hentries : 0 < limits.maxObjectEntries) :
    truncateJsonForBudget limits "$" (oneText text) = (oneText text, []) := by
  have hdata : toString "$" ++ toString "." ++ toString "data" = "$.data" := by decide
  have hlong : ¬ min limits.maxStringChars 2048 < text.length := Nat.not_lt.mpr hnoisy
  have hone : ¬ limits.maxObjectEntries < 1 := Nat.not_lt.mpr hentries
  simp [oneText, truncateJsonForBudget, truncateFields, truncateField, noisyKeys,
    List.lookup_cons, hdata, String.toList_ofList, hlong, hone]

theorem truncateThrice_oneText (h : text.length ≤ 200) (budget : ℕ) :
    truncateThrice (oneText text) ⟨budget, 200, true⟩ = (oneText text, []) := by
  have hagain (limits : Limits) (hlimits : 200 ≤ min limits.maxStringChars 2048)
      (hentries : 0 < limits.maxObjectEntries) :
      truncateAgain budget limits (oneText text, []) = (oneText text, []) := by
    unfold truncateAgain
    dsimp only
    rw [truncate_oneText (h.trans hlimits) hentries]
    split
    · rfl
    · rfl
  unfold truncateThrice
  dsimp only
  rw [truncate_oneText (h.trans (by decide)) (by decide), hagain _ (by decide) (by decide),
    hagain _ (by decide) (by decide)]

/-- What the stub keeps of one text. -/
def stubOfText : Fields :=
  [("data", .object [("_truncated", .bool true)]), ("truncated", .bool true)]

theorem plain_stubOfText : Plain stubOfText := by
  refine ⟨List.cons_ne_nil _ _, ?_⟩
  decide

theorem shrunk_oneText (h : text.length ≤ 200) (budget : ℕ) :
    shrunk (oneText text) ⟨budget, 200, true⟩ = oneText text := by
  unfold shrunk
  rw [truncateThrice_oneText h]
  rfl

/-- A text that is too long for the budget, and not cut, leaves the stub. -/
theorem budgeted_oneText (hplain : PlainText text) (h : text.length ≤ 200) {budget : ℕ}
    (hpos : budget ≠ 0) (hover : budget < text.length + 19) :
    applyMcpResponseBudget (oneText text) ⟨budget, 200, true⟩ =
      updateResultMetaResponseBytes (trimResultMetaForBudget (attachResultMeta
        (.object stubOfText) (serializedLen (.object stubOfText)) budget true ["$"] none) budget) := by
  have hlen : ¬ serializedLen (oneText text) ≤ budget := by
    rw [serializedLen_oneText hplain]
    omega
  unfold applyMcpResponseBudget finalizeMcpBudgetedResponse
  dsimp only
  rw [if_neg hpos, if_neg hlen, shrunk_oneText h, if_neg hlen, truncateThrice_oneText h,
    if_pos rfl]
  rfl

end OneText

theorem serializedLen_stubOfText : serializedLen (.object stubOfText) = 45 := by
  unfold stubOfText serializedLen
  simp only [chars, charsOfFields, charsOfField]
  decide

theorem metaRoom_stub {budget : ℕ} (h : budget = 145 ∨ budget = 146) :
    metaRoom budget ["$"] none = 98 := by
  unfold metaRoom fieldLen metaFieldOf
  simp only [resultMeta_eq, Option.toList_none, List.map_nil, List.append_nil, List.cons_append,
    List.nil_append, charsOfField, chars, charsOfFields, ofNat]
  rcases h with rfl | rfl
  · decide
  · decide

def longSql : JsonValue :=
  .object [("data", .object [("sql", .string (String.ofList (List.replicate 140 'a')))])]

end DbtNova.ResponseBudget
