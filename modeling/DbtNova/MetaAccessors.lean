import DbtNova.JsonFields

/-!
# When the metadata accessors agree

One accessor merges the two metadata objects, and others look a single field up in both of
them. They read the same value unless the field is null, unless a legacy value that is not an
object hides the other place, or unless both places hold objects under the field and something
of the one in `config.meta` shows through the merge.
-/
namespace DbtNova
open JsonValue

namespace JsonValue

mutual

/-- Every object in the value has its keys in order, each once. -/
def Ordered : JsonValue → Prop
  | .array values => OrderedValues values
  | .object fields => KeySorted fields ∧ OrderedFields fields
  | _ => True

def OrderedValues : List JsonValue → Prop
  | [] => True
  | value :: values => value.Ordered ∧ OrderedValues values

def OrderedFields : List (String × JsonValue) → Prop
  | [] => True
  | (_, value) :: fields => value.Ordered ∧ OrderedFields fields

end

mutual

/-- Nothing of the first value shows when the second one is merged onto it. -/
def CoveredBy : JsonValue → JsonValue → Prop
  | .object below, .object above => FieldsCoveredBy below above
  | below, .null => below = .null
  | _, _ => True

def FieldsCoveredBy : List (String × JsonValue) → List (String × JsonValue) → Prop
  | [], _ => True
  | (key, value) :: below, above =>
      (match above.lookup key with
        | some upper => CoveredBy value upper
        | none => False) ∧
      FieldsCoveredBy below above

end

theorem orderedFields_iff {fields : List (String × JsonValue)} :
    OrderedFields fields ↔ ∀ field ∈ fields, field.2.Ordered := by
  induction fields with
  | nil => simp [OrderedFields]
  | cons field fields ih =>
      obtain ⟨key, value⟩ := field
      simp [OrderedFields, ih]

theorem fieldsCoveredBy_iff {below above : List (String × JsonValue)} :
    FieldsCoveredBy below above ↔
      ∀ field ∈ below, ∃ upper, above.lookup field.1 = some upper ∧ CoveredBy field.2 upper := by
  induction below with
  | nil => simp [FieldsCoveredBy]
  | cons field below ih =>
      obtain ⟨key, value⟩ := field
      rw [FieldsCoveredBy, ih, List.forall_mem_cons]
      cases above.lookup key <;> simp

theorem Ordered.lookup {fields : List (String × JsonValue)} (h : Ordered (.object fields))
    {key : String} {value : JsonValue} (hlookup : fields.lookup key = some value) :
    value.Ordered :=
  orderedFields_iff.mp h.2 (key, value) (mem_of_lookup hlookup)

theorem Ordered.get {value found : JsonValue} (h : value.Ordered) {key : String}
    (hget : value.get key = some found) : found.Ordered := by
  cases value with
  | object fields => exact Ordered.lookup h hget
  | _ => contradiction

/-- Every field name reads nothing from a value that is not an object. -/
theorem get_eq_none {value : JsonValue} (h : value.asObject = none) (key : String) :
    value.get key = none := by
  unfold JsonValue.get
  rw [h]
  rfl

end JsonValue

namespace EntityMeta

/-! ## The accessors -/

/-- The value of the field in the legacy place, or else in the other, when it is not null. -/
def metaFieldJson (legacy config : Option JsonValue) (field : String) : Option JsonValue :=
  ((legacy.bind (·.get field)).filter (!·.isNull)).or
    ((config.bind (·.get field)).filter (!·.isNull))

def entityMetaFieldJson (value : JsonValue) (field : String) : Option JsonValue :=
  metaFieldJson (legacyMeta value) (configMeta value) field

def columnMetaFieldJson (column : JsonValue) (field : String) : Option JsonValue :=
  metaFieldJson (legacyMeta column) (configMeta column) field

/-! ## What the validator reads -/

inductive YamlValue where
  | null
  | bool (flag : Bool)
  | number (text : String)
  | string (text : String)
  | sequence (values : List YamlValue)
  | mapping (entries : List (YamlValue × YamlValue))
  | tagged (tag : String) (value : YamlValue)

namespace YamlValue

/-- A tag does not keep a value from being a mapping. -/
def asMapping : YamlValue → Option (List (YamlValue × YamlValue))
  | .mapping entries => some entries
  | .tagged _ value => value.asMapping
  | _ => none

/-- The value under a key that is a string. -/
def lookupKey (key : String) : List (YamlValue × YamlValue) → Option YamlValue
  | [] => none
  | (.string text, value) :: entries => if text = key then some value else lookupKey key entries
  | _ :: entries => lookupKey key entries

mutual

/-- The YAML value that a JSON text denotes. -/
def ofJson : JsonValue → YamlValue
  | .null => .null
  | .bool flag => .bool flag
  | .number text => .number text
  | .string text => .string text
  | .array values => .sequence (ofJsonValues values)
  | .object fields => .mapping (ofJsonFields fields)

def ofJsonValues : List JsonValue → List YamlValue
  | [] => []
  | value :: values => ofJson value :: ofJsonValues values

def ofJsonFields : List (String × JsonValue) → List (YamlValue × YamlValue)
  | [] => []
  | (key, value) :: fields => (.string key, ofJson value) :: ofJsonFields fields

end

theorem lookupKey_ofJsonFields (key : String) (fields : List (String × JsonValue)) :
    lookupKey key (ofJsonFields fields) = (fields.lookup key).map ofJson := by
  induction fields with
  | nil => rfl
  | cons field fields ih =>
      obtain ⟨first, value⟩ := field
      rw [ofJsonFields, lookupKey, List.lookup_cons, ih]
      by_cases hkey : first = key
      · simp [hkey]
      · simp [hkey, beq_eq_false_iff_ne.mpr (Ne.symm hkey)]

theorem lookupKey_ofJson (key : String) (value : JsonValue) :
    (ofJson value).asMapping.bind (lookupKey key) = (value.get key).map ofJson := by
  cases value with
  | object fields => exact lookupKey_ofJsonFields key fields
  | _ => rfl

end YamlValue

section Validator
variable (toValue : YamlValue → Option JsonValue)

def configMetaFromMapping (mapping : List (YamlValue × YamlValue)) : Option YamlValue :=
  ((YamlValue.lookupKey "config" mapping).bind YamlValue.asMapping).bind
    (YamlValue.lookupKey "meta")

/-- `toValue` is the conversion to JSON, which fails for keys that JSON does not have. -/
def novaMetaFromMetaValue (metadata : Option YamlValue) : Option JsonValue :=
  ((metadata.bind YamlValue.asMapping).bind (YamlValue.lookupKey "nova")).bind toValue

/-- The validator has its own copy of the merge, in the same words. -/
def novaMetaFromMapping (mapping : List (YamlValue × YamlValue)) : Option JsonValue :=
  mergedMetaValueJson (novaMetaFromMetaValue toValue (YamlValue.lookupKey "meta" mapping))
    (novaMetaFromMetaValue toValue (configMetaFromMapping mapping))

end Validator

/-! ## What a merge shows -/

/-- What a key has in the merge of two objects. -/
def layered (below above : Option JsonValue) : Option JsonValue :=
  match below, above with
  | below, none => below
  | none, some upper => some upper
  | some value, some upper => some (mergeJsonValue value upper)

@[simp] theorem layered_none_right (below : Option JsonValue) : layered below none = below := by
  cases below <;> rfl

@[simp] theorem layered_none_left (above : Option JsonValue) : layered none above = above := by
  cases above <;> rfl

@[simp] theorem mergeJsonValue_null (value : JsonValue) : mergeJsonValue value .null = value := by
  simp only [mergeJsonValue]

@[simp] theorem mergeJsonValue_onto_null (upper : JsonValue) : mergeJsonValue .null upper = upper := by
  cases upper <;> simp only [mergeJsonValue]

section Merge
variable {fields overlay : List (String × JsonValue)} {key : String}

theorem lookup_mergeField_self (upper : JsonValue) :
    (mergeField fields (key, upper)).lookup key = layered (fields.lookup key) (some upper) := by
  unfold mergeField
  cases hlookup : fields.lookup key with
  | none =>
      have hnew : key ∉ fields.map Prod.fst := fun hmem => by
        have hsome := lookup_isSome hmem
        rw [hlookup] at hsome
        contradiction
      exact lookup_insertField hnew
  | some value => exact lookup_setField (hlookup ▸ rfl)

theorem lookup_mergeField_ne {other : String} (h : key ≠ other) (upper : JsonValue) :
    (mergeField fields (other, upper)).lookup key = fields.lookup key := by
  unfold mergeField
  cases fields.lookup other with
  | none => exact lookup_insertField_ne h
  | some value => exact lookup_setField_ne h

theorem keySorted_mergeField (h : KeySorted fields) (field : String × JsonValue) :
    KeySorted (mergeField fields field) := by
  obtain ⟨key, upper⟩ := field
  unfold mergeField
  cases hlookup : fields.lookup key with
  | none =>
      refine keySorted_insertField h fun hmem => ?_
      have hsome := lookup_isSome hmem
      rw [hlookup] at hsome
      contradiction
  | some value => exact keySorted_setField h

theorem keySorted_mergeFields (h : KeySorted fields) : KeySorted (mergeFields fields overlay) := by
  induction overlay generalizing fields with
  | nil => simpa only [mergeFields] using h
  | cons field overlay ih =>
      rw [mergeFields]
      exact ih (keySorted_mergeField h field)

/-- A merged object has under each key what its two layers have there. -/
theorem lookup_mergeFields (hnodup : (overlay.map Prod.fst).Nodup) :
    (mergeFields fields overlay).lookup key =
      layered (fields.lookup key) (overlay.lookup key) := by
  induction overlay generalizing fields with
  | nil => simp [mergeFields]
  | cons field overlay ih =>
      obtain ⟨first, upper⟩ := field
      obtain ⟨hfirst, hrest⟩ := List.nodup_cons.mp hnodup
      rw [mergeFields, ih hrest, List.lookup_cons]
      by_cases hkey : key = first
      · subst hkey
        rw [lookup_eq_none hfirst, layered_none_right, lookup_mergeField_self, beq_self_eq_true]
      · rw [lookup_mergeField_ne hkey, beq_eq_false_iff_ne.mpr hkey]

end Merge

/-- A merge gives back the upper value when nothing of the lower one shows. -/
theorem mergeJsonValue_eq_iff (below above : JsonValue) (hbelow : below.Ordered)
    (habove : above.Ordered) : mergeJsonValue below above = above ↔ CoveredBy below above := by
  match below, above with
  | .object below, .object above =>
      have hmerge : mergeJsonValue (.object below) (.object above) =
          .object (mergeFields below above) := by
        simp only [mergeJsonValue]
      rw [hmerge, JsonValue.object.injEq, CoveredBy, fieldsCoveredBy_iff]
      have hlookup : ∀ key, (mergeFields below above).lookup key =
          layered (below.lookup key) (above.lookup key) := fun key =>
        lookup_mergeFields habove.1.nodup
      constructor
      · rintro heq ⟨key, value⟩ hfield
        have hthere := hlookup key
        rw [heq, hbelow.1.lookup_of_mem hfield] at hthere
        cases hover : above.lookup key with
        | none =>
            rw [hover] at hthere
            contradiction
        | some upper =>
            rw [hover] at hthere
            exact ⟨upper, rfl, (mergeJsonValue_eq_iff value upper
              (orderedFields_iff.mp hbelow.2 _ hfield) (habove.lookup hover)).mp
              (Option.some.inj hthere).symm⟩
      · intro hcovered
        refine (keySorted_mergeFields hbelow.1).eq_of_lookup habove.1 fun key => ?_
        rw [hlookup]
        cases hvalue : below.lookup key with
        | none => exact layered_none_left _
        | some value =>
            have hfield := mem_of_lookup hvalue
            obtain ⟨upper, hover, hrec⟩ := hcovered (key, value) hfield
            rw [hover]
            exact congrArg some ((mergeJsonValue_eq_iff value upper (hbelow.lookup hvalue)
              (habove.lookup hover)).mpr hrec)
  | .null, .null | .bool _, .null | .number _, .null | .string _, .null | .array _, .null
  | .object _, .null => simp [CoveredBy]
  | _, .bool _ | _, .number _ | _, .string _ | _, .array _ => simp [mergeJsonValue, CoveredBy]
  | .null, .object _ | .bool _, .object _ | .number _, .object _ | .string _, .object _
  | .array _, .object _ => simp [mergeJsonValue, CoveredBy]
termination_by below
decreasing_by
  · have := List.sizeOf_lt_of_mem hfield
    simp only [object.sizeOf_spec, Prod.mk.sizeOf_spec] at this ⊢
    omega
  · have := List.sizeOf_lt_of_mem hfield
    simp only [object.sizeOf_spec, Prod.mk.sizeOf_spec] at this ⊢
    omega

/-! ## When two accessors read the same -/

/-- The legacy value is neither absent, null nor an object, and is taken as a whole. -/
def hidesConfig : Option JsonValue → Bool
  | none | some .null | some (.object _) => false
  | _ => true

/-- No null is read, and no value of `config.meta` is hidden as a whole. -/
def NullsAgree (legacy config : Option JsonValue) (field : String) : Prop :=
  if hidesConfig legacy then ∀ value, config.bind (·.get field) = some value → value = .null
  else legacy.bind (·.get field) = some .null ∨ config.bind (·.get field) = some .null →
    ∃ value, value ≠ .null ∧
      (legacy.bind (·.get field) = some value ∨ config.bind (·.get field) = some value)

/-- Where both places have a value, that of `config.meta` adds nothing to the legacy one. -/
def NothingShowsThrough (legacy config : Option JsonValue) (field : String) : Prop :=
  ∀ below above, config.bind (·.get field) = some below → legacy.bind (·.get field) = some above →
    above ≠ .null → CoveredBy below above

section Reads
variable {legacy config : Option JsonValue} {field : String}

theorem filter_isNull_eq_none {found : Option JsonValue} :
    found.filter (!·.isNull) = none ↔ ∀ value, found = some value → value = .null := by
  cases found with
  | none => simp
  | some value => cases value <;> simp [Option.filter, isNull]

theorem filter_of_ne_null {value : JsonValue} (h : value ≠ .null) :
    (some value).filter (!·.isNull) = some value := by
  cases value with
  | null => contradiction
  | _ => rfl

/-- A value that is not null is merged with what is below it. -/
theorem mergedMetaValueJson_some {value : JsonValue} (h : value ≠ .null)
    (config : Option JsonValue) :
    mergedMetaValueJson (some value) config = layered config (some value) := by
  cases config with
  | none => cases value <;> first | contradiction | rfl
  | some below =>
      cases value with
      | null => contradiction
      | object fields =>
          cases below with
          | object _ => rfl
          | _ => simp [mergedMetaValueJson, Option.filter, isNull, layered, mergeJsonValue]
      | _ =>
          simp [mergedMetaValueJson, Option.filter, isNull, layered, mergeJsonValue]

theorem mergedMetaValueJson_of_nulls {legacy : Option JsonValue}
    (h : legacy.filter (!·.isNull) = none) (config : Option JsonValue) :
    mergedMetaValueJson legacy config = config.filter (!·.isNull) := by
  unfold mergedMetaValueJson
  rw [h]

/-- What the merged metadata has under a field. -/
theorem get_mergedMetaValueJson (hlegacy : ∀ value, legacy = some value → value.Ordered) :
    (mergedMetaValueJson legacy config).bind (·.get field) =
      if hidesConfig legacy then none
      else layered (config.bind (·.get field)) (legacy.bind (·.get field)) := by
  have hfilter : (config.filter (!·.isNull)).bind (·.get field) = config.bind (·.get field) := by
    cases config with
    | none => rfl
    | some value => cases value <;> rfl
  match legacy with
  | none =>
      rw [mergedMetaValueJson_of_nulls rfl, hfilter]
      exact (layered_none_right _).symm
  | some .null =>
      rw [mergedMetaValueJson_of_nulls rfl, hfilter]
      exact (layered_none_right _).symm
  | some (.object above) =>
      rw [mergedMetaValueJson_some (by simp)]
      match config with
      | none => exact (layered_none_left _).symm
      | some (.object below) =>
          exact lookup_mergeFields (hlegacy _ rfl).1.nodup
      | some .null | some (.bool _) | some (.number _) | some (.string _) | some (.array _) =>
          simp only [layered, mergeJsonValue]
          exact (layered_none_left _).symm
  | some (.bool _) | some (.number _) | some (.string _) | some (.array _) =>
      rw [mergedMetaValueJson_some (by simp)]
      cases config with
      | none => rfl
      | some below =>
          simp only [layered, mergeJsonValue]
          rfl

theorem bind_get_of_hidesConfig (h : hidesConfig legacy = true) :
    legacy.bind (·.get field) = none := by
  match legacy with
  | none | some .null | some (.object _) => contradiction
  | some (.bool _) | some (.number _) | some (.string _) | some (.array _) => rfl

/-- A field whose legacy value is null or missing is the same in both places when
no null is read. -/
theorem filter_eq_get_iff (hlegacy : ∀ value, legacy = some value → value.Ordered)
    (hnull : (legacy.bind (·.get field)).filter (!·.isNull) = none) :
    (config.bind (·.get field)).filter (!·.isNull) =
        (mergedMetaValueJson legacy config).bind (·.get field) ↔
      NullsAgree legacy config field := by
  rw [get_mergedMetaValueJson hlegacy]
  unfold NullsAgree
  split
  · exact filter_isNull_eq_none
  · cases hbelow : config.bind (·.get field) with
    | none =>
        cases habove : legacy.bind (·.get field) with
        | none => simp
        | some above =>
            rw [habove, filter_isNull_eq_none] at hnull
            have hvalue : above = .null := hnull above rfl
            simp [hvalue]
    | some below =>
        cases habove : legacy.bind (·.get field) with
        | none =>
            by_cases hvalue : below = .null
            · simp [hvalue, Option.filter, isNull]
            · rw [filter_of_ne_null hvalue]
              simp [hvalue]
        | some above =>
            rw [habove, filter_isNull_eq_none] at hnull
            have hnone : above = .null := hnull above rfl
            by_cases hvalue : below = .null
            · simp [hvalue, hnone, Option.filter, isNull, layered]
            · have hfound : ∃ value, value ≠ JsonValue.null ∧
                  (some above = some value ∨ some below = some value) :=
                ⟨below, hvalue, Or.inr rfl⟩
              rw [filter_of_ne_null hvalue, hnone]
              simpa [layered, hnone] using hfound

theorem nullsAgree_of_value {value : JsonValue} (h : legacy.bind (·.get field) = some value)
    (hvalue : value ≠ .null) : NullsAgree legacy config field := by
  unfold NullsAgree
  split
  · rename_i hides
    rw [bind_get_of_hidesConfig hides] at h
    contradiction
  · exact fun _ => ⟨value, hvalue, Or.inl h⟩

/-- Where the legacy place has a value, the merged metadata has the merge of the two. -/
theorem get_of_value (hlegacy : ∀ value, legacy = some value → value.Ordered) {value : JsonValue}
    (h : legacy.bind (·.get field) = some value) :
    (mergedMetaValueJson legacy config).bind (·.get field) =
      layered (config.bind (·.get field)) (some value) := by
  rw [get_mergedMetaValueJson hlegacy, if_neg, h]
  intro hides
  rw [bind_get_of_hidesConfig hides] at h
  contradiction

theorem nova_reads_iff (hlegacy : ∀ value, legacy = some value → value.Ordered) :
    mergedMetaValueJson (legacy.bind (·.get field)) (config.bind (·.get field)) =
        (mergedMetaValueJson legacy config).bind (·.get field) ↔
      NullsAgree legacy config field := by
  cases hvalue : (legacy.bind (·.get field)).filter (!·.isNull) with
  | none =>
      rw [mergedMetaValueJson_of_nulls hvalue]
      exact filter_eq_get_iff hlegacy hvalue
  | some value =>
      obtain ⟨hread, hnull⟩ := Option.filter_eq_some_iff.mp hvalue
      have hvalue : value ≠ .null := fun heq => by simp [heq, isNull] at hnull
      rw [hread, mergedMetaValueJson_some hvalue, get_of_value hlegacy hread]
      exact iff_of_true rfl (nullsAgree_of_value hread hvalue)

theorem field_reads_iff (hlegacy : ∀ value, legacy = some value → value.Ordered)
    (hconfig : ∀ value, config = some value → value.Ordered) :
    metaFieldJson legacy config field =
        (mergedMetaValueJson legacy config).bind (·.get field) ↔
      NullsAgree legacy config field ∧ NothingShowsThrough legacy config field := by
  have hordered : ∀ {place : Option JsonValue} {value : JsonValue},
      (∀ value, place = some value → value.Ordered) →
      place.bind (·.get field) = some value → value.Ordered := fun hplace hget => by
    obtain ⟨outer, hsome, hfound⟩ := Option.bind_eq_some_iff.mp hget
    exact (hplace outer hsome).get hfound
  unfold metaFieldJson
  cases hvalue : (legacy.bind (·.get field)).filter (!·.isNull) with
  | none =>
      rw [Option.none_or, filter_eq_get_iff hlegacy hvalue]
      refine ⟨fun hnulls => ⟨hnulls, fun below above _ habove hne => ?_⟩, And.left⟩
      exact absurd (filter_isNull_eq_none.mp hvalue above habove) hne
  | some value =>
      obtain ⟨hread, hnull⟩ := Option.filter_eq_some_iff.mp hvalue
      have hne : value ≠ .null := fun heq => by simp [heq, isNull] at hnull
      rw [Option.some_or, get_of_value hlegacy hread,
        and_iff_right (nullsAgree_of_value hread hne)]
      unfold NothingShowsThrough
      rw [hread]
      cases hbelow : config.bind (·.get field) with
      | none => simp [layered]
      | some below =>
          have hmerge := mergeJsonValue_eq_iff below value (hordered hconfig hbelow)
            (hordered hlegacy hread)
          simp [layered, hne, ← hmerge, eq_comm]

end Reads

/-! ## The validator -/

section Validator
variable {toValue : YamlValue → Option JsonValue}
  (htoValue : ∀ value : JsonValue, value.Ordered → toValue (YamlValue.ofJson value) = some value)
include htoValue

theorem novaMetaFromMetaValue_ofJson {metadata : Option JsonValue}
    (h : ∀ value, metadata = some value → value.Ordered) :
    novaMetaFromMetaValue toValue (metadata.map YamlValue.ofJson) =
      metadata.bind (·.get "nova") := by
  cases metadata with
  | none => rfl
  | some value =>
      have hread := YamlValue.lookupKey_ofJson "nova" value
      unfold novaMetaFromMetaValue
      rw [Option.map_some, Option.bind_some, Option.bind_some, hread]
      cases hnova : value.get "nova" with
      | none => rfl
      | some nova => exact htoValue nova ((h value rfl).get hnova)

/-- On the YAML text of an entity the validator merges what the loader reads. -/
theorem novaMetaFromMapping_ofJson {value : JsonValue} (h : value.Ordered) :
    (YamlValue.ofJson value).asMapping.bind (novaMetaFromMapping toValue) =
      entityNovaMetaJson value := by
  cases value with
  | object fields =>
      have hlegacy := YamlValue.lookupKey_ofJsonFields "meta" fields
      have hconfig : configMetaFromMapping (YamlValue.ofJsonFields fields) =
          (configMeta (.object fields)).map YamlValue.ofJson := by
        unfold configMetaFromMapping
        rw [YamlValue.lookupKey_ofJsonFields]
        change _ = ((fields.lookup "config").bind (·.get "meta")).map YamlValue.ofJson
        cases fields.lookup "config" with
        | none => rfl
        | some config => exact YamlValue.lookupKey_ofJson "meta" config
      change novaMetaFromMapping toValue (YamlValue.ofJsonFields fields) = _
      unfold novaMetaFromMapping entityNovaMetaJson
      rw [hlegacy, hconfig, novaMetaFromMetaValue_ofJson htoValue fun _ => h.lookup,
        novaMetaFromMetaValue_ofJson htoValue fun value hvalue => ?_]
      · rfl
      · obtain ⟨config, hfound, hget⟩ := Option.bind_eq_some_iff.mp hvalue
        exact (h.get hfound).get hget
  | _ => rfl

end Validator

theorem ordered_legacyMeta {value : JsonValue} (h : value.Ordered) :
    ∀ found, legacyMeta value = some found → found.Ordered :=
  fun _ hget => h.get hget

theorem ordered_configMeta {value : JsonValue} (h : value.Ordered) :
    ∀ found, configMeta value = some found → found.Ordered := by
  intro found hget
  obtain ⟨config, hconfig, hfound⟩ := Option.bind_eq_some_iff.mp hget
  exact (h.get hconfig).get hfound

/-- The field accessors read what the merged metadata has exactly where no null is read, no
place is hidden and nothing of `config.meta` shows through; the nova accessors where the first
two hold; and the validator always merges what the loader reads. -/
theorem meta_accessors_agree_iff (toValue : YamlValue → Option JsonValue)
    (htoValue : ∀ value : JsonValue, value.Ordered → toValue (YamlValue.ofJson value) = some value)
    (entity column : JsonValue) (hentity : entity.Ordered) (hcolumn : column.Ordered)
    (field : String) :
    (entityMetaFieldJson entity field = (normalizedEntityMetaJson entity).bind (·.get field) ↔
      NullsAgree (legacyMeta entity) (configMeta entity) field ∧
        NothingShowsThrough (legacyMeta entity) (configMeta entity) field) ∧
    (entityNovaMetaJson entity = (normalizedEntityMetaJson entity).bind (·.get "nova") ↔
      NullsAgree (legacyMeta entity) (configMeta entity) "nova") ∧
    (columnMetaFieldJson column field = (normalizedColumnMetaJson column).bind (·.get field) ↔
      NullsAgree (legacyMeta column) (configMeta column) field ∧
        NothingShowsThrough (legacyMeta column) (configMeta column) field) ∧
    (columnNovaMetaJson column = (normalizedColumnMetaJson column).bind (·.get "nova") ↔
      NullsAgree (legacyMeta column) (configMeta column) "nova") ∧
    (YamlValue.ofJson entity).asMapping.bind (novaMetaFromMapping toValue) =
      entityNovaMetaJson entity :=
  ⟨field_reads_iff (ordered_legacyMeta hentity) (ordered_configMeta hentity),
    nova_reads_iff (ordered_legacyMeta hentity),
    field_reads_iff (ordered_legacyMeta hcolumn) (ordered_configMeta hcolumn),
    nova_reads_iff (ordered_legacyMeta hcolumn), novaMetaFromMapping_ofJson htoValue hentity⟩

/-! ### Owners in both places, and a legacy value that is a text -/

/-- The JSON value of a YAML value; a key has to be a string, a number or a truth value. -/
def YamlValue.toJson : YamlValue → Option JsonValue
  | .null => some .null
  | .bool flag => some (.bool flag)
  | .number text => some (.number text)
  | .string text => some (.string text)
  | .sequence values => (toJsonValues values).map .array
  | .mapping entries => (toJsonFields entries).map .object
  | .tagged tag value => (toJson value).map fun value => .object [(tag, value)]
where
  toJsonValues : List YamlValue → Option (List JsonValue)
    | [] => some []
    | value :: values => do
        let first ← toJson value
        let rest ← toJsonValues values
        return first :: rest
  toJsonFields : List (YamlValue × YamlValue) → Option (List (String × JsonValue))
    | [] => some []
    | (key, value) :: entries => do
        let name ← toJsonKey key
        let first ← toJson value
        let rest ← toJsonFields entries
        return (name, first) :: rest
  toJsonKey : YamlValue → Option String
    | .string text | .number text => some text
    | .bool true => some "true"
    | .bool false => some "false"
    | _ => none

mutual

theorem YamlValue.toJson_ofJson (value : JsonValue) : toJson (ofJson value) = some value := by
  match value with
  | .null | .bool _ | .number _ | .string _ => simp only [ofJson, toJson]
  | .array values =>
      simp only [ofJson, toJson, YamlValue.toJsonValues_ofJson values, Option.map_some]
  | .object fields =>
      simp only [ofJson, toJson, YamlValue.toJsonFields_ofJson fields, Option.map_some]

theorem YamlValue.toJsonValues_ofJson (values : List JsonValue) :
    toJson.toJsonValues (ofJsonValues values) = some values := by
  match values with
  | [] => simp only [ofJsonValues, toJson.toJsonValues]
  | value :: values =>
      simp [ofJsonValues, toJson.toJsonValues, YamlValue.toJson_ofJson value,
        YamlValue.toJsonValues_ofJson values]

theorem YamlValue.toJsonFields_ofJson (fields : List (String × JsonValue)) :
    toJson.toJsonFields (ofJsonFields fields) = some fields := by
  match fields with
  | [] => simp only [ofJsonFields, toJson.toJsonFields]
  | (key, value) :: fields =>
      simp [ofJsonFields, toJson.toJsonFields, toJson.toJsonKey, YamlValue.toJson_ofJson value,
        YamlValue.toJsonFields_ofJson fields]

end

/-- `owner` holds an object in both places. -/
def ownedEntity : JsonValue :=
  .object [("config", .object [("meta", .object [("owner", .object [("team", .string "data")])])]),
    ("meta", .object [("owner", .object [("email", .string "a@b.c")])])]

/-- The legacy metadata is a text, and `config.meta` has nova metadata. -/
def textMetaColumn : JsonValue :=
  .object [("config", .object [("meta", .object [("nova", .object [("role", .string "key")])])]),
    ("meta", .string "legacy")]

theorem ownedEntity_ordered : ownedEntity.Ordered := by
  simp only [ownedEntity, Ordered, OrderedFields, KeySorted, List.map_cons, List.map_nil,
    List.pairwise_cons, List.Pairwise.nil, List.not_mem_nil, List.mem_singleton, forall_eq,
    IsEmpty.forall_iff, implies_true, and_true]
  decide

theorem textMetaColumn_ordered : textMetaColumn.Ordered := by
  simp only [textMetaColumn, Ordered, OrderedFields, KeySorted, List.map_cons, List.map_nil,
    List.pairwise_cons, List.Pairwise.nil, List.not_mem_nil, List.mem_singleton, forall_eq,
    IsEmpty.forall_iff, implies_true, and_true]
  decide

theorem meta_accessors_owned :
    (entityMetaFieldJson ownedEntity "owner" =
        (normalizedEntityMetaJson ownedEntity).bind (·.get "owner") ↔
      NullsAgree (legacyMeta ownedEntity) (configMeta ownedEntity) "owner" ∧
        NothingShowsThrough (legacyMeta ownedEntity) (configMeta ownedEntity) "owner") ∧
    (entityNovaMetaJson ownedEntity = (normalizedEntityMetaJson ownedEntity).bind (·.get "nova") ↔
      NullsAgree (legacyMeta ownedEntity) (configMeta ownedEntity) "nova") ∧
    (columnMetaFieldJson textMetaColumn "owner" =
        (normalizedColumnMetaJson textMetaColumn).bind (·.get "owner") ↔
      NullsAgree (legacyMeta textMetaColumn) (configMeta textMetaColumn) "owner" ∧
        NothingShowsThrough (legacyMeta textMetaColumn) (configMeta textMetaColumn) "owner") ∧
    (columnNovaMetaJson textMetaColumn =
        (normalizedColumnMetaJson textMetaColumn).bind (·.get "nova") ↔
      NullsAgree (legacyMeta textMetaColumn) (configMeta textMetaColumn) "nova") ∧
    (YamlValue.ofJson ownedEntity).asMapping.bind (novaMetaFromMapping YamlValue.toJson) =
      entityNovaMetaJson ownedEntity :=
  meta_accessors_agree_iff YamlValue.toJson (fun value _ => YamlValue.toJson_ofJson value)
    ownedEntity textMetaColumn ownedEntity_ordered textMetaColumn_ordered "owner"

/-- The owner is read without the team that the merged metadata has, and the nova metadata of
the column is read although the merged metadata is a text. -/
theorem owners_read_apart :
    entityMetaFieldJson ownedEntity "owner" ≠
      (normalizedEntityMetaJson ownedEntity).bind (·.get "owner") ∧
    columnNovaMetaJson textMetaColumn ≠
      (normalizedColumnMetaJson textMetaColumn).bind (·.get "nova") := by
  have howner : entityMetaFieldJson ownedEntity "owner" =
      some (.object [("email", .string "a@b.c")]) := by rfl
  have hmerged : (normalizedEntityMetaJson ownedEntity).bind (·.get "owner") =
      some (.object [("email", .string "a@b.c"), ("team", .string "data")]) := by rfl
  have hnova : columnNovaMetaJson textMetaColumn = some (.object [("role", .string "key")]) := by
    rfl
  have htext : (normalizedColumnMetaJson textMetaColumn).bind (·.get "nova") = none := by rfl
  constructor
  · rw [howner, hmerged]
    simp
  · rw [hnova, htext]
    simp

end EntityMeta

end DbtNova
