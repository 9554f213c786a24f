import DbtNova.Boundary
import DbtNova.EntityMeta
import DbtNova.Fingerprint

/-!
# Extended metadata search

The allowlist of metadata paths: its validation, and the values an entity has at
a path. Byte caps cut a text at a character boundary.
-/
namespace DbtNova

open Text

namespace Text

def byteLength (s : String) : ℕ := Boundary.extent Char.utf8Size s.toList

def isCharBoundary (s : String) (n : ℕ) : Bool := Boundary.isBoundary Char.utf8Size s.toList n

/-- Goes down from a byte position to a character boundary. -/
def floorCharBoundary (s : String) (n : ℕ) : ℕ := Boundary.floorBoundary Char.utf8Size s.toList n

/-- `text.get(..n)`. -/
def sliceTo (s : String) (n : ℕ) : Option String :=
  (Boundary.sliceTo Char.utf8Size s.toList n).map String.ofList

/-- `str::split` at one character. -/
def splitAt (separator : Char) (s : String) : List String :=
  (s.toList.splitOn separator).map String.ofList

theorem le_byteLength_of_isCharBoundary {s : String} {n : ℕ} (h : isCharBoundary s n = true) :
    n ≤ byteLength s := by
  obtain ⟨front, hfront, rfl⟩ := (Boundary.isBoundary_iff Char.utf8Size_pos _ _).mp h
  exact Boundary.extent_mono hfront

end Text

namespace ExtendedMeta

open JsonValue EntityMeta

/-! ## Validation -/

def extendedMetaHardMaxFields : ℕ := 128

def extendedMetaHardMaxValuesPerField : ℕ := 1024

def extendedMetaHardMaxBytesPerValue : ℕ := 65536

def validateBoundedUsize (name : String) (value hardMax : ℕ) : Result Unit :=
  if value = 0 ∨ hardMax < value then
    .error (.invalidParams s!"{name} must be between 1 and {hardMax}")
  else .ok ()

def isAsciiLowercase (c : Char) : Bool := 'a' ≤ c && c ≤ 'z'

def isAsciiUppercase (c : Char) : Bool := 'A' ≤ c && c ≤ 'Z'

def isAsciiDigit (c : Char) : Bool := '0' ≤ c && c ≤ '9'

def isAsciiAlphanumeric (c : Char) : Bool :=
  isAsciiLowercase c || isAsciiUppercase c || isAsciiDigit c

def validateExtendedMetaAlias (index : ℕ) (given : String) : Result String :=
  let name := trim given
  let field := s!"search.extended_meta.fields[{index}].alias"
  match name.toList with
  | [] => .error (.invalidParams (field ++ " is required"))
  | first :: chars =>
      if !isAsciiLowercase first then
        .error (.invalidParams
          (field ++ s!" '{name}' must start with a lowercase ASCII letter"))
      else if !chars.all fun c => isAsciiLowercase c || isAsciiDigit c || c == '_' then
        .error (.invalidParams
          (field ++ s!" '{name}' must contain only lowercase ASCII letters, digits, and underscores"))
      else .ok name

/-- Words of a camel case or separated name, lower case and joined by `_`. -/
def normalizeSensitiveChars (previousWasSeparator : Bool) : List Char → List Char
  | [] => []
  | c :: chars =>
      if isAsciiUppercase c then
        (if previousWasSeparator then [] else ['_']) ++
          c.toLower :: normalizeSensitiveChars false chars
      else if isAsciiAlphanumeric c then c.toLower :: normalizeSensitiveChars false chars
      else if !previousWasSeparator then '_' :: normalizeSensitiveChars true chars
      else normalizeSensitiveChars previousWasSeparator chars

def normalizeSensitiveSegment (segment : String) : List Char :=
  let chars := normalizeSensitiveChars true segment.toList
  ((chars.dropWhile (· == '_')).reverse.dropWhile (· == '_')).reverse

def sensitiveToken (token : String) : Option String :=
  if token = "token" then some "token"
  else if token = "secret" then some "secret"
  else if token = "password" then some "password"
  else if token = "credential" ∨ token = "credentials" then some "credential"
  else none

def containsSensitiveSegment (segment : String) : Option String :=
  let normalized := normalizeSensitiveSegment segment
  if "private_key".toList <:+: normalized ∨ "privatekey".toList <:+: normalized then
    some "private_key"
  else if "api_key".toList <:+: normalized ∨ "apikey".toList <:+: normalized then some "api_key"
  else (normalized.splitOn '_').findSome? fun token => sensitiveToken (String.ofList token)

def isSupportedExtendedMetaPath : List String → Bool
  | "meta" :: _ :: _ => true
  | "columns" :: "*" :: "meta" :: _ :: _ => true
  | _ => false

def isNovaMetaPath : List String → Bool
  | "meta" :: "nova" :: _ => true
  | "columns" :: "*" :: "meta" :: "nova" :: _ => true
  | _ => false

def validateSegments (field path : String) (underColumns : Bool) :
    ℕ → List String → Result Unit
  | _, [] => .ok ()
  | position, segment :: segments =>
      if !(segment == "*" ||
          segment.toList.all fun c => isAsciiAlphanumeric c || c == '_' || c == '-') then
        .error (.invalidParams (field ++ s!" '{path}' must use dot-separated ASCII key names"))
      else if segment == "*" && !(position == 1 && underColumns) then
        .error (.invalidParams
          (field ++ s!" '{path}' may only use '*' in 'columns.*.meta.' paths"))
      else
        match containsSensitiveSegment segment with
        | some sensitive =>
            .error (.invalidParams
              (field ++ s!" '{path}' is not allowed because segment '{segment}' matches sensitive key '{sensitive}'"))
        | none => validateSegments field path underColumns (position + 1) segments

def validateExtendedMetaPath (index : ℕ) (given : String) : Result Unit :=
  let path := trim given
  let field := s!"search.extended_meta.fields[{index}].path"
  let segments := splitAt '.' path
  if path = "" then .error (.invalidParams (field ++ " is required"))
  else if segments.any isBlank then
    .error (.invalidParams (field ++ s!" '{path}' contains an empty segment"))
  else do
    validateSegments field path (segments.head? == some "columns") 0 segments
    if !isSupportedExtendedMetaPath segments then
      .error (.invalidParams
        (field ++ s!" '{path}' must start with 'meta.' or 'columns.*.meta.'"))
    else if isNovaMetaPath segments then
      .error (.invalidParams
        (field ++ s!" '{path}' targets meta.nova, which is already indexed by Nova"))
    else .ok ()

/-- A finite number below zero; the text of negative zero has a sign too. -/
def isNegative (boost : NumberText) : Bool :=
  boost.text.toList.head? == some '-' && boost.text != "-0.0"

def validateFields (index : ℕ) (aliases paths : List String) :
    List ExtendedMetaFieldConfig → Result Unit
  | [] => .ok ()
  | field :: fields => do
      validateExtendedMetaPath index field.path
      let name ← validateExtendedMetaAlias index field.fieldAlias
      let path := trim field.path
      if name ∈ aliases then
        .error (.invalidParams
          s!"search.extended_meta.fields[{index}].alias '{name}' is configured more than once")
      else if path ∈ paths then
        .error (.invalidParams
          s!"search.extended_meta.fields[{index}].path '{path}' is configured more than once")
      else if isNegative field.boost then
        .error (.invalidParams
          s!"search.extended_meta.fields[{index}].boost must be a finite number greater than or equal to 0")
      else validateFields (index + 1) (name :: aliases) (path :: paths) fields

def validate (config : ExtendedMetaSearchConfig) : Result Unit := do
  validateBoundedUsize "search.extended_meta.max_fields" config.maxFields
    extendedMetaHardMaxFields
  validateBoundedUsize "search.extended_meta.max_values_per_field" config.maxValuesPerField
    extendedMetaHardMaxValuesPerField
  validateBoundedUsize "search.extended_meta.max_bytes_per_value" config.maxBytesPerValue
    extendedMetaHardMaxBytesPerValue
  let count := config.fields.length
  let maxFields := config.maxFields
  if maxFields < count then
    .error (.invalidParams
      s!"search.extended_meta.fields configures {count} fields but max_fields is {maxFields}")
  else validateFields 0 [] [] config.fields

theorem validateExtendedMetaAlias_ok {index : ℕ} {given name : String}
    (h : validateExtendedMetaAlias index given = .ok name) : name = trim given := by
  simp only [validateExtendedMetaAlias] at h
  split at h
  · cases h
  · split at h
    · cases h
    · split at h
      · cases h
      · exact (Except.ok.inj h).symm

theorem validateFields_nodup {index : ℕ} {aliases paths : List String}
    {fields : List ExtendedMetaFieldConfig}
    (h : validateFields index aliases paths fields = .ok ()) :
    (fields.map fun field => trim field.fieldAlias).Nodup ∧
      ∀ field ∈ fields, trim field.fieldAlias ∉ aliases := by
  induction fields generalizing index aliases paths with
  | nil => simp
  | cons field fields ih =>
      simp only [validateFields, bind_eq_ok] at h
      obtain ⟨-, -, name, hname, h⟩ := h
      have hname := validateExtendedMetaAlias_ok hname
      subst hname
      split at h
      · cases h
      · rename_i hnew
        split at h
        · cases h
        · split at h
          · cases h
          · obtain ⟨hnodup, hfresh⟩ := ih h
            constructor
            · rw [List.map_cons, List.nodup_cons]
              refine ⟨?_, hnodup⟩
              intro hmem
              obtain ⟨other, hother, heq⟩ := List.mem_map.mp hmem
              exact hfresh other hother (heq ▸ List.mem_cons_self)
            · intro other hother
              rcases List.mem_cons.mp hother with rfl | hother
              · exact hnew
              · exact fun hmem => hfresh other hother (List.mem_cons_of_mem _ hmem)

/-- A validated allowlist gives every field a name of its own. -/
theorem validate_nodup {config : ExtendedMetaSearchConfig} (h : validate config = .ok ()) :
    (config.fields.map fun field => trim field.fieldAlias).Nodup := by
  simp only [validate, bind_eq_ok] at h
  obtain ⟨-, -, -, -, -, -, h⟩ := h
  split at h
  · cases h
  · exact (validateFields_nodup h).1

/-! ## Values at a path -/

inductive ExtendedMetaPath where
  | entity (segments : List String)
  | columnWildcard (segments : List String)

def pathOfSegments : List String → ExtendedMetaPath
  | "columns" :: "*" :: "meta" :: first :: rest => .columnWildcard (first :: rest)
  | segments => .entity segments.tail

def fromConfigPath (path : String) : ExtendedMetaPath := pathOfSegments (splitAt '.' (trim path))

def fieldLe (left right : ExtendedMetaFieldConfig) : Prop :=
  left.fieldAlias < right.fieldAlias ∨
    left.fieldAlias = right.fieldAlias ∧ left.path ≤ right.path

instance : DecidableRel fieldLe := fun _ _ => inferInstanceAs (Decidable (_ ∨ _))

def sortedExtendedMetaFields (config : ExtendedMetaSearchConfig) : List ExtendedMetaFieldConfig :=
  config.fields.insertionSort fieldLe

/-- A missing key or a null at the end is no value. -/
def valueAtPath (root : JsonValue) : List String → Option JsonValue
  | [] => if root.isNull then none else some root
  | segment :: segments => (root.get segment).bind (valueAtPath · segments)

def valuesForMode (value : JsonValue) : ExtendedMetaFieldMode → List String
  | .keyword | .text =>
      match value with
      | .string text => [text]
      | .number text => [text]
      | _ => []
  | .stringArray => (value.asArray.getD []).filterMap asStr
  | .bool => (value.asBool.map fun flag => if flag then "true" else "false").toList

structure ExtendedMetaValue where
  columnName : Option String := none
  value : String

def columnValues (columns : List (String × JsonValue)) (segments : List String)
    (mode : ExtendedMetaFieldMode) (columnName : String) : List ExtendedMetaValue :=
  match ((columns.lookup columnName).bind normalizedColumnMetaJson).bind
      (valueAtPath · segments) with
  | some value => (valuesForMode value mode).map (ExtendedMetaValue.mk (some columnName))
  | none => []

def collectExtendedMetaValues (entityJson : JsonValue) (path : ExtendedMetaPath)
    (mode : ExtendedMetaFieldMode) : List ExtendedMetaValue :=
  match path with
  | .entity segments =>
      match (normalizedEntityMetaJson entityJson).bind (valueAtPath · segments) with
      | some value => (valuesForMode value mode).map (ExtendedMetaValue.mk none)
      | none => []
  | .columnWildcard segments =>
      let columns := ((entityJson.get "columns").bind asObject).getD []
      let columnNames := (columns.map Prod.fst).insertionSort (· ≤ ·)
      columnNames.flatMap (columnValues columns segments mode)

def cappedNonEmptyValue (given : String) (maxBytes : ℕ) : Option (String × Bool) :=
  let value := trim given
  if maxBytes = 0 ∨ value = "" then none
  else
    let stop := floorCharBoundary value (min (byteLength value) maxBytes)
    ((sliceTo value stop).map trim).filter (· != "") |>.map fun kept =>
      (kept, decide (stop < byteLength value))

structure CappedExtendedMetaValues where
  values : List ExtendedMetaValue := []
  droppedValues : ℕ := 0
  byteTruncatedValues : ℕ := 0

/-- Values behind the cap are counted even when they are blank. -/
def capValue (maxValues maxBytes : ℕ) (out : CappedExtendedMetaValues)
    (value : ExtendedMetaValue) : CappedExtendedMetaValues :=
  if maxValues ≤ out.values.length then { out with droppedValues := out.droppedValues + 1 }
  else
    match cappedNonEmptyValue value.value maxBytes with
    | none => out
    | some (capped, byteTruncated) =>
        { out with
          values := out.values ++ [{ value with value := capped }]
          byteTruncatedValues := out.byteTruncatedValues + byteTruncated.toNat }

def collectCappedExtendedMetaValues (entityJson : JsonValue) (path : ExtendedMetaPath)
    (mode : ExtendedMetaFieldMode) (maxValues maxBytes : ℕ) : CappedExtendedMetaValues :=
  (collectExtendedMetaValues entityJson path mode).foldl (capValue maxValues maxBytes) {}

end ExtendedMeta

end DbtNova
