import DbtNova.ResponseBudgetBound

/-!
# The size in the metadata of a response

The metadata of a response reports its size in bytes. The number is part of the text that is
measured, and it is written after the measurement. So a written number is true exactly when it
has as many digits as the one that it replaces.
-/
namespace DbtNova.ResponseBudget
open JsonValue

/-- The metadata of a response, when it has some that is an object. -/
def resultMetaOf (value : JsonValue) : Option Fields := (value.get metaKey).bind asObject

/-- The response with new metadata in the place of the old. -/
def setMeta (metadata : Fields) (value : JsonValue) : JsonValue :=
  match value with
  | .object fields => .object (putField metaKey (.object metadata) fields)
  | value => value

/-- The size that the metadata reports. -/
def reportedBytes (value : JsonValue) : Option JsonValue :=
  (resultMetaOf value).bind (List.lookup "response_bytes")

def ReportsTrueSize (value : JsonValue) : Prop :=
  ∀ number, reportedBytes value = some number → number = ofNat (serializedLen value)

/-! ## Fields that are replaced -/

section Fields
variable {key other : String} {value new old : JsonValue} {fields : Fields}

/-- A child that is replaced changes the length by what it puts in and takes out. -/
theorem weight_setField (hnodup : (fields.map Prod.fst).Nodup)
    (hold : fields.lookup key = some old) :
    weight (setField key new fields) + serializedLen old = weight fields + serializedLen new := by
  induction fields with
  | nil => contradiction
  | cons field fields ih =>
      obtain ⟨first, child⟩ := field
      obtain ⟨hfirst, hrest⟩ := List.nodup_cons.mp hnodup
      by_cases hkey : first = key
      · subst hkey
        rw [List.lookup_cons_self] at hold
        cases hold
        have htail : setField first new fields = fields := setField_of_notMem hfirst
        unfold setField at htail ⊢
        rw [List.map_cons, if_pos rfl, htail, weight_cons, weight_cons, fieldLen_eq, fieldLen_eq]
        omega
      · rw [List.lookup_cons, beq_eq_false_iff_ne.mpr (Ne.symm hkey)] at hold
        have htail := ih hrest hold
        unfold setField at htail ⊢
        rw [List.map_cons, if_neg hkey, weight_cons, weight_cons]
        omega

theorem serializedLen_putField (hnodup : (fields.map Prod.fst).Nodup)
    (hold : fields.lookup key = some old) :
    serializedLen (.object (putField key new fields)) + serializedLen old =
      serializedLen (.object fields) + serializedLen new := by
  have hne : ∀ {fields : Fields} {old : JsonValue}, fields.lookup key = some old → fields ≠ [] :=
    fun hlookup => List.ne_nil_of_mem (mem_of_lookup hlookup)
  have hweight : weight (setField key new fields) + serializedLen old = _ :=
    weight_setField hnodup hold
  rw [serializedLen_object (hne lookup_putField), serializedLen_object (hne hold),
    putField_of_isSome (hold ▸ rfl)]
  omega

/-- A child that comes in makes the object longer. -/
theorem serializedLen_lt_putField (hnone : fields.lookup key = none) :
    serializedLen (.object fields) < serializedLen (.object (putField key new fields)) := by
  have hput : putField key new fields = insertField key new fields := if_neg (by simp [hnone])
  have hpos : 0 < bytes (quoteText key) + 1 + serializedLen new := by omega
  rw [hput, serializedLen_object insertField_ne_nil, weight_insertField, fieldLen_eq]
  cases fields with
  | nil =>
      have hempty : serializedLen (.object []) = 2 := by decide
      have hquotes : 1 ≤ bytes (quoteText key) := by
        unfold quoteText
        rw [List.cons_append, bytes_cons]
        have hquote : '"'.utf8Size = 1 := rfl
        omega
      omega
  | cons field fields =>
      rw [serializedLen_object (List.cons_ne_nil _ _)]
      omega

theorem lookup_filter_key :
    (fields.filter fun field => decide (field.1 = key)).lookup key = fields.lookup key := by
  induction fields with
  | nil => rfl
  | cons field fields ih =>
      obtain ⟨first, found⟩ := field
      by_cases hfirst : first = key
      · rw [List.filter_cons_of_pos (by simpa using hfirst), hfirst, List.lookup_cons_self,
          List.lookup_cons_self]
      · rw [List.filter_cons_of_neg (by simpa using hfirst), ih, lookup_cons_ne (Ne.symm hfirst)]

end Fields

/-! ## Objects with each key once -/

/-- The response, and its metadata, have each key once, as a map has. -/
def KeysOnce : JsonValue → Prop
  | .object fields => (fields.map Prod.fst).Nodup ∧
      ∀ metadata, (metaKey, JsonValue.object metadata) ∈ fields → (metadata.map Prod.fst).Nodup
  | _ => True

section KeysOnce
variable {fields metadata : Fields} {value : JsonValue} {key : String}

theorem keysOnce_putField (h : KeysOnce (.object fields)) (hkey : key ≠ metaKey) :
    KeysOnce (.object (putField key value fields)) := by
  refine ⟨nodup_putField h.1, fun metadata hmem => ?_⟩
  cases mem_putField hmem with
  | inl heq => exact absurd (Prod.mk.inj heq).1 hkey.symm
  | inr hold => exact h.2 metadata hold

theorem keysOnce_setMeta (h : KeysOnce value) (hmetadata : (metadata.map Prod.fst).Nodup) :
    KeysOnce (setMeta metadata value) := by
  cases value with
  | object fields =>
      refine ⟨nodup_putField h.1, fun other hmem => ?_⟩
      cases mem_putField hmem with
      | inl heq =>
          rw [JsonValue.object.inj (Prod.mk.inj heq).2]
          exact hmetadata
      | inr hold => exact h.2 other hold
  | _ => exact h

theorem resultMetaOf_eq_some :
    resultMetaOf value = some metadata ↔
      ∃ fields, value = .object fields ∧ fields.lookup metaKey = some (.object metadata) := by
  unfold resultMetaOf JsonValue.get
  constructor
  · intro h
    obtain ⟨child, hchild, hobject⟩ := Option.bind_eq_some_iff.mp h
    obtain ⟨fields, hfields, hlookup⟩ := Option.bind_eq_some_iff.mp hchild
    cases value with
    | object found =>
        cases hfields
        cases child with
        | object found =>
            cases hobject
            exact ⟨_, rfl, hlookup⟩
        | _ => contradiction
    | _ => contradiction
  · rintro ⟨fields, rfl, hlookup⟩
    simp only [asObject, Option.bind_some, hlookup]

theorem KeysOnce.nodup_metadata (h : KeysOnce value) (hmeta : resultMetaOf value = some metadata) :
    (metadata.map Prod.fst).Nodup := by
  obtain ⟨fields, rfl, hlookup⟩ := resultMetaOf_eq_some.mp hmeta
  exact h.2 metadata (mem_of_lookup hlookup)

theorem resultMetaOf_setMeta (h : value.asObject.isSome = true) :
    resultMetaOf (setMeta metadata value) = some metadata := by
  cases value with
  | object fields => exact resultMetaOf_eq_some.mpr ⟨_, rfl, lookup_putField⟩
  | _ => contradiction

theorem serializedLen_setMeta (h : KeysOnce value) {old : Fields}
    (hold : resultMetaOf value = some old) {metadata : Fields} :
    serializedLen (setMeta metadata value) + serializedLen (.object old) =
      serializedLen value + serializedLen (.object metadata) := by
  obtain ⟨fields, rfl, hlookup⟩ := resultMetaOf_eq_some.mp hold
  exact serializedLen_putField h.1 hlookup

end KeysOnce

/-! ## One writing of the number -/

section Update
variable {metadata : Fields} {value old : JsonValue}

theorem putInMeta_eq (h : resultMetaOf value = some metadata) (key : String) (child : JsonValue) :
    putInMeta key child value = setMeta (putField key child metadata) value := by
  obtain ⟨fields, rfl, hlookup⟩ := resultMetaOf_eq_some.mp h
  unfold putInMeta setMeta
  simp only [hlookup, Option.bind_some, asObject]
  have hpresent : (fields.lookup metaKey).isSome = true := hlookup ▸ rfl
  exact congrArg JsonValue.object (putField_of_isSome hpresent).symm

theorem asObject_isSome (h : resultMetaOf value = some metadata) :
    value.asObject.isSome = true := by
  obtain ⟨fields, rfl, -⟩ := resultMetaOf_eq_some.mp h
  rfl

theorem resultMetaOf_update (h : resultMetaOf value = some metadata) :
    resultMetaOf (updateResultMetaResponseBytes value) =
      some (putField "response_bytes" (ofNat (serializedLen value)) metadata) := by
  unfold updateResultMetaResponseBytes
  rw [putInMeta_eq h, resultMetaOf_setMeta (asObject_isSome h)]

theorem reportedBytes_update (h : resultMetaOf value = some metadata) :
    reportedBytes (updateResultMetaResponseBytes value) = some (ofNat (serializedLen value)) := by
  unfold reportedBytes
  rw [resultMetaOf_update h, Option.bind_some, lookup_putField]

theorem keysOnce_putInMeta (h : KeysOnce value) (key : String) (child : JsonValue) :
    KeysOnce (putInMeta key child value) := by
  cases hmeta : resultMetaOf value with
  | some metadata =>
      rw [putInMeta_eq hmeta]
      exact keysOnce_setMeta h (nodup_putField (h.nodup_metadata hmeta))
  | none =>
      cases value with
      | object fields =>
          have hnone : (fields.lookup metaKey).bind asObject = none := hmeta
          unfold putInMeta
          simp only [hnone]
          exact h
      | _ => exact h

theorem keysOnce_update (h : KeysOnce value) : KeysOnce (updateResultMetaResponseBytes value) :=
  keysOnce_putInMeta h _ _

/-- Writing the number replaces the digits of the old one. -/
theorem serializedLen_update (h : KeysOnce value) (hmeta : resultMetaOf value = some metadata)
    (hold : metadata.lookup "response_bytes" = some old) :
    serializedLen (updateResultMetaResponseBytes value) + serializedLen old =
      serializedLen value + digits (serializedLen value) := by
  have houter : serializedLen (setMeta (putField "response_bytes" (ofNat (serializedLen value))
      metadata) value) + serializedLen (.object metadata) = _ := serializedLen_setMeta h hmeta
  have hinner : serializedLen (.object (putField "response_bytes" (ofNat (serializedLen value))
      metadata)) + serializedLen old = _ := serializedLen_putField (h.nodup_metadata hmeta) hold
  unfold updateResultMetaResponseBytes digits
  rw [putInMeta_eq hmeta]
  omega

theorem serializedLen_lt_update (h : KeysOnce value) (hmeta : resultMetaOf value = some metadata)
    (hnone : metadata.lookup "response_bytes" = none) :
    serializedLen value < serializedLen (updateResultMetaResponseBytes value) := by
  have houter : serializedLen (setMeta (putField "response_bytes" (ofNat (serializedLen value))
      metadata) value) + serializedLen (.object metadata) = _ := serializedLen_setMeta h hmeta
  have hinner : serializedLen (.object metadata) < serializedLen (.object
      (putField "response_bytes" (ofNat (serializedLen value)) metadata)) :=
    serializedLen_lt_putField hnone
  unfold updateResultMetaResponseBytes
  rw [putInMeta_eq hmeta]
  omega

/-- The number in the metadata has as many digits as the length of the response. -/
def Settled (value : JsonValue) : Prop :=
  ∃ number, reportedBytes value = some number ∧
    serializedLen number = digits (serializedLen value)

/-- A written number is true exactly when the one before it had as many digits. -/
theorem update_reportsTrueSize (h : KeysOnce value) (hmeta : resultMetaOf value = some metadata) :
    ReportsTrueSize (updateResultMetaResponseBytes value) ↔ Settled value := by
  unfold ReportsTrueSize Settled
  rw [reportedBytes_update hmeta]
  have hnumber : (∀ number, some (ofNat (serializedLen value)) = some number → number =
        ofNat (serializedLen (updateResultMetaResponseBytes value))) ↔
      serializedLen value = serializedLen (updateResultMetaResponseBytes value) := by
    rw [← ofNat_inj]
    constructor
    · exact fun hall => hall _ rfl
    · rintro heq number hsome
      exact Option.some.inj hsome ▸ heq
  rw [hnumber]
  unfold reportedBytes
  rw [hmeta, Option.bind_some]
  cases hold : metadata.lookup "response_bytes" with
  | none =>
      have hlt := serializedLen_lt_update h hmeta hold
      refine iff_of_false (Nat.ne_of_lt hlt) ?_
      rintro ⟨number, hnumber, -⟩
      contradiction
  | some old =>
      have hlen := serializedLen_update h hmeta hold
      constructor
      · intro heq
        exact ⟨old, rfl, by omega⟩
      · rintro ⟨number, hnumber, hdigits⟩
        cases hnumber
        omega

end Update

/-! ## What the truncation keeps -/

section Truncation
variable {limits : Limits} {path : String} {keep : List String} {fields : Fields}
  {value : JsonValue}

theorem truncateFields_keys :
    (truncateFields limits path keep fields).map Prod.fst =
      (fields.map Prod.fst).filter (· ∈ keep) := by
  induction fields with
  | nil => rfl
  | cons field fields ih =>
      obtain ⟨key, child⟩ := field
      rw [truncateFields, List.map_cons]
      split
      · rename_i hkeep
        rw [List.filter_cons_of_pos (by simpa using hkeep), List.map_cons, ih, truncateField]
      · rename_i hkeep
        rw [List.filter_cons_of_neg (by simpa using hkeep), ih]

theorem mem_truncateFields {entry : String × JsonValue × List String}
    (h : entry ∈ truncateFields limits path keep fields) :
    ∃ child limits path, (entry.1, child) ∈ fields ∧
      entry.2.1 = (truncateJsonForBudget limits path child).1 := by
  induction fields with
  | nil => exact absurd h List.not_mem_nil
  | cons field fields ih =>
      have hrest (hmem : entry ∈ truncateFields limits path keep fields) :
          ∃ child limits path, (entry.1, child) ∈ field :: fields ∧
            entry.2.1 = (truncateJsonForBudget limits path child).1 := by
        obtain ⟨child, limits, path, hchild, heq⟩ := ih hmem
        exact ⟨child, limits, path, List.mem_cons_of_mem _ hchild, heq⟩
      rw [truncateFields] at h
      split at h
      · cases List.mem_cons.mp h with
        | inl heq =>
            obtain ⟨key, child⟩ := field
            rw [heq]
            exact ⟨child, _, _, List.mem_cons_self, rfl⟩
        | inr hmem => exact hrest hmem
      · exact hrest h

/-- Only an object is truncated to an object, and it keeps some of its keys. -/
theorem truncateJson_object {result : Fields}
    (h : (truncateJsonForBudget limits path value).1 = .object result) :
    ∃ fields keep, value = .object fields ∧
      result = (truncateFields limits path keep fields).map fun entry => (entry.1, entry.2.1) := by
  cases value with
  | object fields =>
      unfold truncateJsonForBudget at h
      exact ⟨fields, _, rfl, (JsonValue.object.inj h).symm⟩
  | string text =>
      unfold truncateJsonForBudget at h
      split at h
      · contradiction
      · contradiction
  | _ =>
      unfold truncateJsonForBudget at h
      contradiction

theorem truncated_keys_nodup {result : Fields} (h : (fields.map Prod.fst).Nodup)
    (hresult : result =
      (truncateFields limits path keep fields).map fun entry => (entry.1, entry.2.1)) :
    (result.map Prod.fst).Nodup := by
  have hkeys : result.map Prod.fst = (truncateFields limits path keep fields).map Prod.fst := by
    rw [hresult, List.map_map]
    rfl
  rw [hkeys, truncateFields_keys]
  exact h.filter _

theorem keysOnce_truncate (h : KeysOnce value) :
    KeysOnce (truncateJsonForBudget limits path value).1 := by
  cases htruncated : (truncateJsonForBudget limits path value).1 with
  | object result =>
      obtain ⟨fields, keep, rfl, hresult⟩ := truncateJson_object htruncated
      refine ⟨truncated_keys_nodup h.1 hresult, fun metadata hmem => ?_⟩
      rw [hresult] at hmem
      obtain ⟨entry, hentry, heq⟩ := List.mem_map.mp hmem
      obtain ⟨child, limits, path, hchild, htext⟩ := mem_truncateFields hentry
      obtain ⟨hkey, hobject⟩ := Prod.mk.inj heq
      obtain ⟨old, keep, rfl, hmetadata⟩ := truncateJson_object (htext.symm.trans hobject)
      exact truncated_keys_nodup (h.2 old (hkey ▸ hchild)) hmetadata
  | _ => exact trivial

theorem keysOnce_truncateAgain {budget : ℕ} {state : JsonValue × List String}
    (h : KeysOnce state.1) : KeysOnce (truncateAgain budget limits state).1 := by
  unfold truncateAgain
  split
  · exact keysOnce_truncate h
  · exact h

theorem keysOnce_normalizeCount {obj : Fields} (h : KeysOnce (.object obj)) (returnedCount : ℕ)
    (originalCount : Option ℕ) :
    KeysOnce (.object (normalizeBudgetedCount obj returnedCount originalCount)) := by
  have hcounted : KeysOnce (.object (if ((obj.lookup "count").bind asU64).any (· != returnedCount)
      then putField "count" (ofNat returnedCount) obj else obj)) := by
    split
    · exact keysOnce_putField h (by decide)
    · exact h
  unfold normalizeBudgetedCount
  dsimp only
  split
  · exact keysOnce_putField hcounted (by decide)
  · exact hcounted

theorem keysOnce_normalize (h : KeysOnce value) (shape : ResponseShapeSnapshot)
    (budgetTruncated : Bool) :
    KeysOnce (normalizeBudgetedResponseShape value shape budgetTruncated) := by
  cases value with
  | object fields =>
      have hmarked : KeysOnce (.object
          (if budgetTruncated then putField "truncated" (.bool true) fields else fields)) := by
        split
        · exact keysOnce_putField h (by decide)
        · exact h
      unfold normalizeBudgetedResponseShape
      dsimp only
      generalize (if budgetTruncated then putField "truncated" (.bool true) fields else fields) =
        obj at hmarked
      split
      · exact keysOnce_normalizeCount hmarked _ _
      · rename_i data hdata
        have hput : ∀ child, setField "data" child obj = putField "data" child obj := fun child =>
          (putField_of_isSome (hdata ▸ rfl)).symm
        rw [hput]
        split
        · exact keysOnce_normalizeCount (keysOnce_putField hmarked (by decide)) _ _
        · exact keysOnce_putField hmarked (by decide)
      · exact hmarked
  | _ => exact trivial

theorem keysOnce_shrunk (h : KeysOnce value) (config : BudgetConfig) :
    KeysOnce (shrunk value config) :=
  keysOnce_normalize
    (keysOnce_truncateAgain (keysOnce_truncateAgain (keysOnce_truncate h))) _ _

end Truncation

end DbtNova.ResponseBudget
