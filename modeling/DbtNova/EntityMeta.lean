import DbtNova.Json
import DbtNova.Text
import Mathlib.Algebra.Order.Ring.Nat

/-!
# Entities and their metadata

Read access to JSON values, and the places where an entity keeps its metadata:
the legacy `meta` object and `config.meta`, of which the first wins where both
have something to say. Objects are maps ordered by key, so inserting a field
puts it at its place.
-/
namespace DbtNova

namespace JsonValue

def isNull : JsonValue → Bool
  | .null => true
  | _ => false

def asStr : JsonValue → Option String
  | .string text => some text
  | _ => none

def asBool : JsonValue → Option Bool
  | .bool flag => some flag
  | _ => none

def asArray : JsonValue → Option (List JsonValue)
  | .array values => some values
  | _ => none

def asObject : JsonValue → Option (List (String × JsonValue))
  | .object fields => some fields
  | _ => none

def get (v : JsonValue) (key : String) : Option JsonValue :=
  v.asObject.bind (List.lookup key)

/-- The text of a field that holds one. -/
def getStr (v : JsonValue) (key : String) : Option String := (v.get key).bind asStr

/-- The entries of a field that holds an array; none otherwise. -/
def getArray (v : JsonValue) (key : String) : List JsonValue :=
  ((v.get key).bind asArray).getD []

def insertField (key : String) (value : JsonValue) :
    List (String × JsonValue) → List (String × JsonValue)
  | [] => [(key, value)]
  | field :: fields =>
      if key < field.1 then (key, value) :: field :: fields
      else field :: insertField key value fields

def setField (key : String) (value : JsonValue) (fields : List (String × JsonValue)) :
    List (String × JsonValue) :=
  fields.map fun field => if field.1 = key then (key, value) else field

/-- `insert` of a map: the value of the key is replaced or comes in at its place. -/
def putField (key : String) (value : JsonValue) (fields : List (String × JsonValue)) :
    List (String × JsonValue) :=
  if (fields.lookup key).isSome then setField key value fields else insertField key value fields

/-- The value of a number that is written with digits only and fits 64 bits. -/
def asU64 : JsonValue → Option ℕ
  | .number text =>
      let digits := text.toList
      let value := digits.foldl (fun n c => 10 * n + (c.toNat - 48)) 0
      if digits ≠ [] ∧ digits.all Char.isDigit ∧ value < 2 ^ 64 then some value else none
  | _ => none

end JsonValue

open JsonValue

namespace EntityMeta

mutual

def mergeJsonValue (target : JsonValue) : JsonValue → JsonValue
  | .null => target
  | .object overlay =>
      match target with
      | .object fields => .object (mergeFields fields overlay)
      | _ => .object overlay
  | .bool flag => .bool flag
  | .number text => .number text
  | .string text => .string text
  | .array values => .array values

def mergeFields (fields : List (String × JsonValue)) :
    List (String × JsonValue) → List (String × JsonValue)
  | [] => fields
  | entry :: overlay => mergeFields (mergeField fields entry) overlay

def mergeField (fields : List (String × JsonValue)) :
    String × JsonValue → List (String × JsonValue)
  | (key, overlay) =>
      match fields.lookup key with
      | some value => setField key (mergeJsonValue value overlay) fields
      | none => insertField key overlay fields

end

/-- Two objects are merged; otherwise the legacy value is taken as a whole. -/
def mergedMetaValueJson (legacy config : Option JsonValue) : Option JsonValue :=
  match legacy.filter (!·.isNull), config.filter (!·.isNull) with
  | some (.object legacy), some (.object config) =>
      some (mergeJsonValue (.object config) (.object legacy))
  | some value, _ => some value
  | none, config => config

def legacyMeta (value : JsonValue) : Option JsonValue := value.get "meta"

def configMeta (value : JsonValue) : Option JsonValue :=
  (value.get "config").bind (·.get "meta")

def entityNovaMetaJson (value : JsonValue) : Option JsonValue :=
  mergedMetaValueJson ((legacyMeta value).bind (·.get "nova"))
    ((configMeta value).bind (·.get "nova"))

def normalizedEntityMetaJson (value : JsonValue) : Option JsonValue :=
  mergedMetaValueJson (legacyMeta value) (configMeta value)

/-- A column keeps its metadata in the same two places. -/
def normalizedColumnMetaJson (column : JsonValue) : Option JsonValue :=
  mergedMetaValueJson (legacyMeta column) (configMeta column)

def columnNovaMetaJson (column : JsonValue) : Option JsonValue :=
  mergedMetaValueJson ((legacyMeta column).bind (·.get "nova"))
    ((configMeta column).bind (·.get "nova"))

end EntityMeta

structure NovaMeasure where
  name : String
  expression : Option String := none
  description : Option String := none
  field : Option String := none
  synonyms : List String := []

structure NovaMetric where
  name : String
  description : Option String := none
  expression : Option String := none
  synonyms : List String := []

structure NovaGrain where
  primaryKey : List String := []
  timeField : Option String := none
  dimensions : List String := []

structure NovaGovernance where
  sensitivity : Option String := none
  pii : Option String := none
  compliance : List String := []

structure NovaMeta where
  synonyms : List String := []
  domains : List String := []
  useCases : List String := []
  exampleValues : List String := []
  canonical : Bool := false
  tier : Option String := none
  grain : Option NovaGrain := none
  measures : List NovaMeasure := []
  metric : Option NovaMetric := none
  metrics : List NovaMetric := []
  governance : Option NovaGovernance := none

/-- A stored entity: the fields extracted from its payload, and the payload. -/
structure Entity where
  resourceType : Option String := none
  name : Option String := none
  entityAlias : Option String := none
  packageName : Option String := none
  description : Option String := none
  tags : List String := []
  columnNames : List String := []
  novaMeta : Option NovaMeta := none
  payload : JsonValue := .null

end DbtNova
