import DbtNova.EntityMeta
import DbtNova.Error
import DbtNova.KeyedSets
import DbtNova.PathIndex

/-!
# Parsing a manifest into the accumulator

The sections of the manifest object are visited in the order of the text, and so
are the entities of a section; both levels are streams, so a key may come twice.
A payload is a parsed map. The two lineage maps are pruned at the end to the ids
that were seen.
-/
namespace DbtNova

/-! ## Columns from the catalog -/

namespace CatalogColumns
open JsonValue

structure CatalogColumnInfo where
  dataType : Option String
  comment : Option String
  stats : Option JsonValue

abbrev CatalogColumnMap := String → Option (List (String × CatalogColumnInfo))

def orInsert (key : String) (value : JsonValue) (fields : List (String × JsonValue)) :
    List (String × JsonValue) :=
  if (fields.lookup key).isSome then fields else insertField key value fields

def optionalField (key : String) (value : Option JsonValue)
    (fields : List (String × JsonValue)) : List (String × JsonValue) :=
  match value with
  | some value => putField key value fields
  | none => fields

def typeMismatch (info : CatalogColumnInfo) (manifestDataType : Option String) : Bool :=
  match info.dataType, manifestDataType with
  | some catalogType, some manifestType => catalogType != manifestType
  | _, _ => false

def applyDataType (info : CatalogColumnInfo) (manifestDataType : Option String)
    (fields : List (String × JsonValue)) : List (String × JsonValue) :=
  match info.dataType with
  | none => fields
  | some catalogType =>
      let typed := putField "catalog_data_type" (.string catalogType)
        (putField "data_type" (.string catalogType) fields)
      if typeMismatch info manifestDataType then
        optionalField "manifest_data_type" (manifestDataType.map .string) typed
      else typed

def applyComment (info : CatalogColumnInfo) (fields : List (String × JsonValue)) :
    List (String × JsonValue) :=
  match info.comment with
  | none => fields
  | some comment =>
      putField "catalog_comment" (.string comment)
        (orInsert "description" (.string comment) fields)

def catalogDrift (catalogOnly mismatch : Bool) (info : CatalogColumnInfo)
    (manifestDataType : Option String) : JsonValue :=
  let only := if catalogOnly then putField "catalog_only" (.bool true) [] else []
  if mismatch then
    .object (optionalField "catalog_data_type" (info.dataType.map .string)
      (optionalField "manifest_data_type" (manifestDataType.map .string)
        (putField "type_mismatch" (.bool true) only)))
  else .object only

def applyCatalogColumnInfo (columnName : String) (column : JsonValue)
    (info : CatalogColumnInfo) : JsonValue :=
  let fields := column.asObject.getD []
  let catalogOnly := fields.isEmpty
  let named := orInsert "name" (.string columnName) fields
  let manifestDataType := (named.lookup "data_type").bind asStr
  let mismatch := typeMismatch info manifestDataType
  let described := optionalField "catalog_stats" info.stats
    (applyComment info (applyDataType info manifestDataType named))
  let present := putField "catalog"
    (.object [("present", .bool true), ("source", .string "catalog.json")]) described
  if catalogOnly || mismatch then
    .object (putField "catalog_drift"
      (catalogDrift catalogOnly mismatch info manifestDataType) present)
  else .object present

/-- A column of the manifest that the catalog does not have. -/
def markMissing : JsonValue → JsonValue
  | .object fields =>
      let drift := optionalField "manifest_data_type"
        (((fields.lookup "data_type").bind asStr).map .string)
        (putField "missing_in_catalog" (.bool true) [])
      .object (putField "catalog_drift" (.object drift) fields)
  | column => column

def applyColumn (columns : List (String × JsonValue)) (entry : String × CatalogColumnInfo) :
    List (String × JsonValue) :=
  let column := (columns.lookup entry.1).getD (.object [])
  putField entry.1 (applyCatalogColumnInfo entry.1 column entry.2) columns

def applyCatalogColumns (payload : JsonValue)
    (catalogColumns : Option (List (String × CatalogColumnInfo))) : JsonValue :=
  match catalogColumns, payload with
  | some catalogColumns, .object fields =>
      match (fields.lookup "columns").getD (.object []) with
      | .object columns =>
          let applied := catalogColumns.foldl applyColumn columns
          let marked := applied.map fun column =>
            if (catalogColumns.lookup column.1).isSome then column
            else (column.1, markMissing column.2)
          .object (putField "columns" (.object marked) fields)
      | columns => .object (putField "columns" columns fields)
  | _, payload => payload

end CatalogColumns

namespace ManifestParse
open JsonValue CatalogColumns PathIndex

/-! ## Pruning by id -/

structure ManifestPruner where
  allowPatterns : List GlobPattern
  denyPatterns : List GlobPattern

def compilePatterns (patterns : List String) : List GlobPattern :=
  ((patterns.map Text.trim).filter (· ≠ "")).map fun pattern =>
    compileGlob pattern.toList true

namespace ManifestPruner

def fromPatterns (allowIds denyIds : List String) : Option ManifestPruner :=
  let allowPatterns := compilePatterns allowIds
  let denyPatterns := compilePatterns denyIds
  if allowPatterns.isEmpty && denyPatterns.isEmpty then none
  else some ⟨allowPatterns, denyPatterns⟩

variable (pruner : ManifestPruner)

def matchesDeny (uniqueId : String) : Bool :=
  pruner.denyPatterns.any (globMatchCompiled · uniqueId.toList)

def matchesAllow (uniqueId : String) : Bool :=
  pruner.allowPatterns.any (globMatchCompiled · uniqueId.toList)

def keepByAllowDeny (uniqueId : String) : Bool :=
  (pruner.allowPatterns.isEmpty || pruner.matchesAllow uniqueId) && !pruner.matchesDeny uniqueId

/-- `payload["depends_on"]["nodes"]`, where it is an array. -/
def dependsOnNodes (payload : JsonValue) : Option (List JsonValue) :=
  ((payload.get "depends_on").bind (JsonValue.get · "nodes")).bind asArray

def isAnalysis (payload : JsonValue) (forcedResourceType : Option String) : Bool :=
  forcedResourceType == some "analysis" || payload.getStr "resource_type" == some "analysis"

def shouldAutoIncludeAnalysis (payload : JsonValue) : Bool :=
  match dependsOnNodes payload with
  | none => false
  | some dependencies =>
      !dependencies.isEmpty && dependencies.all fun value =>
        value.asStr.any pruner.keepByAllowDeny

def shouldKeepEntity (uniqueId : String) (payload : JsonValue)
    (forcedResourceType : Option String) : Bool :=
  if pruner.keepByAllowDeny uniqueId then true
  else if pruner.matchesDeny uniqueId || !isAnalysis payload forcedResourceType then false
  else pruner.shouldAutoIncludeAnalysis payload

end ManifestPruner

/-! ## The accumulator -/

/-- The fields of an entity that the accumulator looks at. -/
structure Entity where
  resourceType : Option String
  name : Option String
  packageName : Option String
  database : Option String
  schema : Option String
  originalFilePath : Option String
  tags : List String
  deriving DecidableEq, Repr

def getTags (payload : JsonValue) : List String :=
  match payload.get "tags" with
  | some (.array values) => values.filterMap asStr
  | some (.string tag) => [tag]
  | _ => []

def Entity.fromJson (payload : JsonValue) : Entity where
  resourceType := payload.getStr "resource_type"
  name := payload.getStr "name"
  packageName := payload.getStr "package_name"
  database := payload.getStr "database"
  schema := payload.getStr "schema"
  originalFilePath :=
    (payload.getStr "original_file_path").map fun path =>
      String.ofList (trimDotSlash path.toList)
  tags := getTags payload

/-- The keys of a map of lists are those with a list that is not empty, and a
count of zero is no entry. -/
structure ManifestAccumulator where
  store : Option (List (String × JsonValue))
  seenUniqueIds : Finset String
  byResourceType : String → List String
  byPackage : String → List String
  byTag : KeyedSets String String
  byDatabaseSchema : String → List String
  nameToKeys : String → List String
  entityCounts : String → ℕ
  uniqueIdToResourceType : String → Option String
  uniqueIdToPath : String → Option String
  uniqueIdToTagStrings : String → Option (List String)
  parentMap : KeyedSets String String
  childMap : KeyedSets String String
  manifestMetadata : JsonValue

namespace ManifestAccumulator

def new (buildStore : Bool) : ManifestAccumulator where
  store := if buildStore then some [] else none
  seenUniqueIds := ∅
  byResourceType := fun _ => []
  byPackage := fun _ => []
  byTag := KeyedSets.empty
  byDatabaseSchema := fun _ => []
  nameToKeys := fun _ => []
  entityCounts := fun _ => 0
  uniqueIdToResourceType := fun _ => none
  uniqueIdToPath := fun _ => none
  uniqueIdToTagStrings := fun _ => none
  parentMap := KeyedSets.empty
  childMap := KeyedSets.empty
  manifestMetadata := .null

def push (index : String → List String) (key uniqueId : String) : String → List String :=
  fun k => if k = key then index k ++ [uniqueId] else index k

def insertAt {α : Type} (index : String → Option α) (key : String) (value : α) :
    String → Option α :=
  fun k => if k = key then some value else index k

def addResourceType (acc : ManifestAccumulator) (uniqueId resourceType : String) :
    ManifestAccumulator :=
  if resourceType = "" then acc
  else
    { acc with
      uniqueIdToResourceType := insertAt acc.uniqueIdToResourceType uniqueId resourceType
      byResourceType := push acc.byResourceType resourceType uniqueId
      entityCounts := fun t =>
        if t = resourceType then acc.entityCounts t + 1 else acc.entityCounts t }

def addTags (acc : ManifestAccumulator) (uniqueId : String) (tags : List String) :
    ManifestAccumulator :=
  if tags.isEmpty then acc
  else
    { acc with
      byTag := acc.byTag.addAll (tags.map (·, uniqueId))
      uniqueIdToTagStrings := insertAt acc.uniqueIdToTagStrings uniqueId tags }

def addDatabaseSchema (acc : ManifestAccumulator) (uniqueId db schema : String) :
    ManifestAccumulator :=
  if db = "" ∧ schema = "" then acc
  else
    { acc with
      byDatabaseSchema := push acc.byDatabaseSchema s!"{db}.{schema}" uniqueId }

def addPath (acc : ManifestAccumulator) (uniqueId : String) (path : Option String) :
    ManifestAccumulator :=
  match path with
  | none => acc
  | some path => { acc with uniqueIdToPath := insertAt acc.uniqueIdToPath uniqueId path }

/-- The store keeps the payload that the entity is made from. -/
def addEntity (acc : ManifestAccumulator) (uniqueId : String) (payload : JsonValue)
    (forcedResourceType : Option String) : ManifestAccumulator :=
  if uniqueId ∈ acc.seenUniqueIds then acc
  else
    let entity := Entity.fromJson payload
    let stored :=
      { acc with
        seenUniqueIds := insert uniqueId acc.seenUniqueIds
        store := acc.store.map (· ++ [(uniqueId, payload)]) }
    let typed := addResourceType stored uniqueId
      ((forcedResourceType.or entity.resourceType).getD "")
    let named :=
      { typed with
        byPackage := push typed.byPackage (entity.packageName.getD "") uniqueId
        nameToKeys := push typed.nameToKeys (entity.name.getD "") uniqueId }
    let tagged := addTags named uniqueId entity.tags
    let placed := addDatabaseSchema tagged uniqueId (entity.database.getD "")
      (entity.schema.getD "")
    addPath placed uniqueId entity.originalFilePath

/-- The ids among the dependencies of a payload. -/
def dependencyIds (payload : JsonValue) : List String :=
  ((ManifestPruner.dependsOnNodes payload).getD []).filterMap asStr

def recordDependencies (acc : ManifestAccumulator) (uniqueId : String) (payload : JsonValue) :
    ManifestAccumulator :=
  (dependencyIds payload).foldl
    (fun acc depId =>
      { acc with
        parentMap := acc.parentMap.add (uniqueId, depId)
        childMap := acc.childMap.add (depId, uniqueId) })
    acc

def pruneLineageMaps (acc : ManifestAccumulator) : ManifestAccumulator :=
  { acc with
    parentMap := acc.parentMap.restrict acc.seenUniqueIds acc.seenUniqueIds
    childMap := acc.childMap.restrict acc.seenUniqueIds acc.seenUniqueIds }

end ManifestAccumulator
/-! ## The visitors -/

inductive ManifestEntitySection where
  | nodes
  | forcedResourceType (resourceType : String)
  deriving DecidableEq, Repr

def ManifestEntitySection.forced : ManifestEntitySection → Option String
  | .nodes => none
  | .forcedResourceType resourceType => some resourceType

def manifestEntitySection : String → Option ManifestEntitySection
  | "nodes" => some .nodes
  | "sources" => some (.forcedResourceType "source")
  | "macros" => some (.forcedResourceType "macro")
  | "docs" => some (.forcedResourceType "doc")
  | "groups" => some (.forcedResourceType "group")
  | "exposures" => some (.forcedResourceType "exposure")
  | "metrics" => some (.forcedResourceType "metric")
  | "saved_queries" => some (.forcedResourceType "saved_query")
  | "semantic_models" => some (.forcedResourceType "semantic_model")
  | "unit_tests" => some (.forcedResourceType "unit_test")
  | _ => none

/-- The section whose value has the wrong type. -/
inductive ParseError where
  | entities (key : String)
  | adjacency (key : String)
  deriving DecidableEq, Repr

def readStrings (value : JsonValue) : Option (List String) :=
  value.asArray.bind (List.mapM asStr)

/-- A map of string lists; null is no map. -/
def readAdjacency : JsonValue → Option (List (String × List String))
  | .null => some []
  | .object fields => fields.mapM fun field => (readStrings field.2).map (field.1, ·)
  | _ => none

/-- A later entry of a key replaces an earlier one. -/
def mapVecToSet (entries : List (String × List String)) : KeyedSets String String := fun k =>
  (entries.reverse.lookup k).map List.toFinset

section Visitors
variable (pruner : Option ManifestPruner) (catalogColumns : Option CatalogColumnMap)

def keeps (forced : Option String) (uniqueId : String) (payload : JsonValue) : Bool :=
  pruner.all fun matcher => matcher.shouldKeepEntity uniqueId payload forced

def withCatalog (uniqueId : String) (payload : JsonValue) : JsonValue :=
  match catalogColumns with
  | some columns => applyCatalogColumns payload (columns uniqueId)
  | none => payload

def visitEntity (forced : Option String) (acc : ManifestAccumulator)
    (entry : String × JsonValue) : ManifestAccumulator :=
  if keeps pruner forced entry.1 entry.2 then
    let payload := withCatalog catalogColumns entry.1 entry.2
    (acc.addEntity entry.1 payload forced).recordDependencies entry.1 payload
  else acc

/-- One top-level section. -/
def visitSection (acc : ManifestAccumulator) (entry : String × JsonValue) :
    Except ParseError ManifestAccumulator :=
  match manifestEntitySection entry.1 with
  | some kind =>
      match entry.2 with
      | .object entities => .ok (entities.foldl (visitEntity pruner catalogColumns kind.forced) acc)
      | .null => .ok acc
      | _ => .error (.entities entry.1)
  | none =>
      if entry.1 = "parent_map" then
        match readAdjacency entry.2 with
        | none => .error (.adjacency entry.1)
        | some [] => .ok acc
        | some (first :: rest) => .ok { acc with parentMap := mapVecToSet (first :: rest) }
      else if entry.1 = "child_map" then
        match readAdjacency entry.2 with
        | none => .error (.adjacency entry.1)
        | some [] => .ok acc
        | some (first :: rest) => .ok { acc with childMap := mapVecToSet (first :: rest) }
      else if entry.1 = "metadata" then
        if entry.2.isNull then .ok acc else .ok { acc with manifestMetadata := entry.2 }
      else .ok acc

def visitMap (acc : ManifestAccumulator) :
    List (String × JsonValue) → Except ParseError ManifestAccumulator
  | [] => .ok acc
  | entry :: rest =>
      match visitSection pruner catalogColumns acc entry with
      | .error error => .error error
      | .ok acc => visitMap acc rest

end Visitors

def parseManifestFile (allowIds denyIds : List String)
    (catalogColumns : Option CatalogColumnMap) (acc : ManifestAccumulator)
    (sections : List (String × JsonValue)) : Except ParseError ManifestAccumulator :=
  match visitMap (ManifestPruner.fromPatterns allowIds denyIds) catalogColumns acc sections with
  | .error error => .error error
  | .ok acc => .ok acc.pruneLineageMaps

end ManifestParse
end DbtNova
