import DbtNova.ManifestParse
import DbtNova.StorageProtocol
import DbtNova.VectorCache
import Mathlib.Data.Finset.Sort

/-!
# Starting from what earlier starts left

A start of the server looks for a version of its manifest in the storage, reuses
the entity store, the search index and the lookup indexes that it finds there,
builds the rest, and writes it back. One process runs at a time; it may end after
any of its writes. The writes of one store or index are two steps: from the first
one on the old one does not open, and from the second one on the new one does.

Serialized data reads back as it was written. The reading of JSON is a parameter,
the file system is a map from versions to what can be opened there, and remote
artifacts are off.
-/
namespace DbtNova.WarmStart
open ManifestSignature ManifestParse CatalogColumns JsonValue TransitionSystem
open StorageProtocol (Request versionIdOf manifestSignatureMatchesForRuntimeRead)
open VectorCache (rkyvSchemaVersion)

/-- `tantivyOpens built config` says whether an index written under one search
configuration opens under another. -/
structure Env where
  blake3 : Blake3
  readManifest : List UInt8 → Option (List (String × JsonValue))
  readCatalog : List UInt8 → Option JsonValue
  tantivyOpens : SearchConfig → SearchConfig → Bool

/-! ## The catalog -/

def firstCatalogString (value : JsonValue) (fields : List String) : Option String :=
  ((fields.findSome? value.getStr).map Text.trim).filter (· ≠ "")

def catalogColumnInfo (column : JsonValue) : CatalogColumnInfo where
  dataType := firstCatalogString column ["type", "data_type", "dtype"]
  comment := firstCatalogString column ["comment", "description"]
  stats := column.get "stats"

def addCatalogEntity (out : CatalogColumnMap) (entry : String × JsonValue) : CatalogColumnMap :=
  match (entry.2.get "columns").bind asObject with
  | none | some [] => out
  | some columns => fun uniqueId =>
      if uniqueId = entry.1 then
        some (columns.map fun column => (column.1, catalogColumnInfo column.2))
      else out uniqueId

def catalogColumnMapFromJson (catalog : JsonValue) : CatalogColumnMap :=
  ["nodes", "sources"].foldl
    (fun out key => (((catalog.get key).bind asObject).getD []).foldl addCatalogEntity out)
    fun _ => none

def loadCatalogColumnMap (env : Env) (sources : Sources) : Option (Option CatalogColumnMap) :=
  match sources.catalog with
  | none => some none
  | some catalog =>
      (env.readCatalog catalog.file.content).map fun json => some (catalogColumnMapFromJson json)

def parseSources (env : Env) (request : Request) (catalogColumns : Option CatalogColumnMap)
    (acc : ManifestAccumulator) : Option ManifestAccumulator :=
  (env.readManifest request.sources.manifest.file.content).bind fun sections =>
    (parseManifestFile request.config.manifestPruneAllowIds request.config.manifestPruneDenyIds
      catalogColumns acc sections).toOption

/-! ## The indexes over the store -/

abbrev EntityStore := List (String × JsonValue)

/-- The order in which one process visits the keys of a hash map. -/
structure Visit where
  order : List String → List String
  perm : ∀ keys, (order keys).Perm keys

abbrev inKeyOrder (keys : Finset String) : List String := keys.sort (· ≤ ·)

structure PathAndTestIndexes where
  byPathPrefix : String → List String
  testsByEntity : String → List String
  testsByColumn : String → List String

def pathIds (acc : ManifestAccumulator) : List String :=
  (acc.seenUniqueIds.sort (· ≤ ·)).filter fun uniqueId => (acc.uniqueIdToPath uniqueId).isSome

def pushPath (uniqueIdToPath : String → Option String) (index : String → List String)
    (uniqueId : String) : String → List String :=
  match uniqueIdToPath uniqueId with
  | none => index
  | some path =>
      (PathIndex.pathPrefixes path.toList).foldl
        (fun index parts => ManifestAccumulator.push index (String.ofList parts) uniqueId) index

structure TestIndexes where
  testsByEntity : String → List String
  testsByColumn : String → List String

def attachTest (testId : String) (test : JsonValue) (indexes : TestIndexes) : TestIndexes :=
  match test.getStr "attached_node" with
  | some attached =>
      { testsByEntity := ManifestAccumulator.push indexes.testsByEntity attached testId
        testsByColumn :=
          match test.getStr "column_name" with
          | some col => ManifestAccumulator.push indexes.testsByColumn s!"{attached}:{col}" testId
          | none => indexes.testsByColumn }
  | none =>
      match ((ManifestPruner.dependsOnNodes test).getD []).findSome? asStr with
      | some attached =>
          { indexes with
            testsByEntity := ManifestAccumulator.push indexes.testsByEntity attached testId }
      | none => indexes

def addDependency (testId : String) (index : String → List String) (depId : String) :
    String → List String :=
  if testId ∈ index depId then index else ManifestAccumulator.push index depId testId

def indexTest (entities : EntityStore) (indexes : TestIndexes) (testId : String) : TestIndexes :=
  match entities.lookup testId with
  | none => indexes
  | some test =>
      let attached := attachTest testId test indexes
      { attached with
        testsByEntity := (ManifestAccumulator.dependencyIds test).foldl (addDependency testId)
          attached.testsByEntity }

def buildPathAndTestIndexes (visit : Visit) (acc : ManifestAccumulator) (entities : EntityStore) :
    PathAndTestIndexes :=
  let tests := (acc.byResourceType "test").foldl (indexTest entities) ⟨fun _ => [], fun _ => []⟩
  { byPathPrefix := (visit.order (pathIds acc)).foldl (pushPath acc.uniqueIdToPath) fun _ => []
    testsByEntity := tests.testsByEntity
    testsByColumn := tests.testsByColumn }

/-! ## The index cache -/

def mapSetToVec (map : KeyedSets String String) : String → Option (List String) := fun key =>
  (map key).map fun values => values.sort (· ≤ ·)

def mapVecToSet (map : String → Option (List String)) : KeyedSets String String := fun key =>
  (map key).map List.toFinset

structure PersistedIndexes where
  schemaVersion : ℕ
  manifestHash : String
  parentMap : String → Option (List String)
  childMap : String → Option (List String)
  byResourceType : String → List String
  byPackage : String → List String
  byTag : KeyedSets String String
  byDatabaseSchema : String → List String
  nameToKeys : String → List String
  byPathPrefix : String → List String
  testsByEntity : String → List String
  testsByColumn : String → List String
  uniqueIdToResourceType : String → Option String
  uniqueIdToPath : String → Option String
  uniqueIdToTagStrings : String → Option (List String)
  entityCounts : String → ℕ
  manifestMetadata : JsonValue

def persistedIndexes (manifestHash : String) (acc : ManifestAccumulator)
    (indexes : PathAndTestIndexes) : PersistedIndexes where
  schemaVersion := rkyvSchemaVersion
  manifestHash := manifestHash
  parentMap := mapSetToVec acc.parentMap
  childMap := mapSetToVec acc.childMap
  byResourceType := acc.byResourceType
  byPackage := acc.byPackage
  byTag := acc.byTag
  byDatabaseSchema := acc.byDatabaseSchema
  nameToKeys := acc.nameToKeys
  byPathPrefix := indexes.byPathPrefix
  testsByEntity := indexes.testsByEntity
  testsByColumn := indexes.testsByColumn
  uniqueIdToResourceType := acc.uniqueIdToResourceType
  uniqueIdToPath := acc.uniqueIdToPath
  uniqueIdToTagStrings := acc.uniqueIdToTagStrings
  entityCounts := acc.entityCounts
  manifestMetadata := acc.manifestMetadata

/-- The ids seen are those with a resource type. Nothing reads them after the cache
was loaded, and they are left as they were. -/
def PersistedIndexes.restore (cached : PersistedIndexes) (acc : ManifestAccumulator) :
    ManifestAccumulator :=
  { acc with
    parentMap := mapVecToSet cached.parentMap
    childMap := mapVecToSet cached.childMap
    byResourceType := cached.byResourceType
    byPackage := cached.byPackage
    byTag := cached.byTag
    byDatabaseSchema := cached.byDatabaseSchema
    nameToKeys := cached.nameToKeys
    uniqueIdToResourceType := cached.uniqueIdToResourceType
    uniqueIdToPath := cached.uniqueIdToPath
    uniqueIdToTagStrings := cached.uniqueIdToTagStrings
    entityCounts := cached.entityCounts
    manifestMetadata := cached.manifestMetadata }

def PersistedIndexes.pathAndTests (cached : PersistedIndexes) : PathAndTestIndexes :=
  ⟨cached.byPathPrefix, cached.testsByEntity, cached.testsByColumn⟩

/-! ## The storage -/

structure VersionDir where
  signature : Option Signature := none
  store : Option EntityStore := none
  tantivy : Option SearchConfig := none
  indexes : Option PersistedIndexes := none

structure Storage where
  current : Option String
  dirs : String → VersionDir

def Storage.empty : Storage := ⟨none, fun _ => {}⟩

def Storage.setDir (storage : Storage) (version : String) (change : VersionDir → VersionDir) :
    Storage :=
  { storage with
    dirs := fun v => if v = version then change (storage.dirs v) else storage.dirs v }

inductive Write where
  | prune (versions : List String)
  | startStore (version : String)
  | finishStore (version : String) (entities : EntityStore)
  | startTantivy (version : String)
  | finishTantivy (version : String) (config : SearchConfig)
  | signature (version : String) (written : Signature)
  | current (version : String)
  | indexes (version : String) (written : PersistedIndexes)

def Write.apply (storage : Storage) : Write → Storage
  | .prune versions =>
      { storage with dirs := fun v => if v ∈ versions then {} else storage.dirs v }
  | .startStore version => storage.setDir version fun dir => { dir with store := none }
  | .finishStore version entities =>
      storage.setDir version fun dir => { dir with store := some entities }
  | .startTantivy version => storage.setDir version fun dir => { dir with tantivy := none }
  | .finishTantivy version config =>
      storage.setDir version fun dir => { dir with tantivy := some config }
  | .signature version written =>
      storage.setDir version fun dir => { dir with signature := some written }
  | .current version => { storage with current := some version }
  | .indexes version written =>
      storage.setDir version fun dir => { dir with indexes := some written }

/-! ## Selecting a version -/

structure Selection where
  signature : Signature
  version : String
  locked : Bool

def tantivyOpened (env : Env) (config : DbtNovaConfig) (dir : VersionDir) : Bool :=
  dir.tantivy.any fun built => env.tantivyOpens built config.search

def tryLoadIndexes (dir : VersionDir) (expectedHash : String) : Option PersistedIndexes :=
  dir.indexes.filter fun cache =>
    cache.schemaVersion == rkyvSchemaVersion && cache.manifestHash == expectedHash

def storageDirHasLocklessReadArtifacts (env : Env) (config : DbtNovaConfig) (dir : VersionDir)
    (signature : Signature) : Bool :=
  dir.store.isSome && tantivyOpened env config dir &&
    (tryLoadIndexes dir signature.contentHash).isSome

def matchingSignature (env : Env) (config : DbtNovaConfig) (expected : Signature)
    (dir : VersionDir) : Option Signature :=
  dir.signature.filter fun existing =>
    manifestSignatureMatchesForRuntimeRead env.blake3 config existing expected

section Start
variable (env : Env) (storage : Storage) (request : Request)

def completeVersion (version : String) : Option Selection :=
  let dir := storage.dirs version
  ((matchingSignature env request.config (request.signature env.blake3) dir).filter
    (storageDirHasLocklessReadArtifacts env request.config dir)).map fun signature =>
      ⟨signature, version, false⟩

def requestedVersion : String := versionIdOf env.blake3 (request.signature env.blake3)

/-- No other process holds the build lock. -/
def selectStorageVersionOrLock : Selection :=
  ((storage.current.bind (completeVersion env storage request)).or
    (completeVersion env storage request (requestedVersion env request))).getD
      ⟨request.signature env.blake3, requestedVersion env request, true⟩

structure ReuseArtifacts where
  version : String
  entities : Option EntityStore
  tantivyOpened : Bool

def openReusableArtifacts (version : String) : ReuseArtifacts where
  version := version
  entities := (storage.dirs version).store
  tantivyOpened := tantivyOpened env request.config (storage.dirs version)

def loadReusableArtifacts (sel : Selection) : ReuseArtifacts :=
  let isMatch (version : String) : Bool :=
    (matchingSignature env request.config sel.signature (storage.dirs version)).isSome
  match storage.current.filter isMatch with
  | some current => openReusableArtifacts env storage request current
  | none =>
      if isMatch sel.version then openReusableArtifacts env storage request sel.version
      else ⟨sel.version, none, false⟩

def ReuseArtifacts.needsBuild (reuse : ReuseArtifacts) : Bool :=
  reuse.entities.isNone || !reuse.tantivyOpened

/-! ## Loading -/

structure PreparedManifestData where
  accumulator : ManifestAccumulator
  entities : EntityStore
  pathAndTests : PathAndTestIndexes
  indexesReused : Bool

/-- The manifest is parsed unless store and indexes are both reused. -/
def prepareManifestData (visit : Visit) (sel : Selection) (reuse : ReuseArtifacts) :
    Option PreparedManifestData :=
  let accumulator := ManifestAccumulator.new reuse.entities.isNone
  let dir := storage.dirs reuse.version
  (loadCatalogColumnMap env request.sources).bind fun catalogColumns =>
    match reuse.entities with
    | none =>
        (parseSources env request catalogColumns accumulator).bind fun parsed =>
          parsed.store.map fun entities =>
            ⟨parsed, entities, buildPathAndTestIndexes visit parsed entities, false⟩
    | some entities =>
        match tryLoadIndexes dir sel.signature.contentHash with
        | some cached => some ⟨cached.restore accumulator, entities, cached.pathAndTests, true⟩
        | none =>
            (parseSources env request catalogColumns accumulator).map fun parsed =>
              ⟨parsed, entities, buildPathAndTestIndexes visit parsed entities, false⟩

/-- The data that the server answers from. -/
structure Served where
  entities : EntityStore
  parentMap : String → Option (List String)
  childMap : String → Option (List String)
  byResourceType : String → List String
  byPackage : String → List String
  byTag : KeyedSets String String
  byDatabaseSchema : String → List String
  nameToKeys : String → List String
  byPathPrefix : String → List String
  testsByEntity : String → List String
  testsByColumn : String → List String
  entityCounts : String → ℕ
  manifestMetadata : JsonValue

def assembleManifestSearch (acc : ManifestAccumulator) (entities : EntityStore)
    (indexes : PathAndTestIndexes) : Served where
  entities := entities
  parentMap := mapSetToVec acc.parentMap
  childMap := mapSetToVec acc.childMap
  byResourceType := acc.byResourceType
  byPackage := acc.byPackage
  byTag := acc.byTag
  byDatabaseSchema := acc.byDatabaseSchema
  nameToKeys := acc.nameToKeys
  byPathPrefix := indexes.byPathPrefix
  testsByEntity := indexes.testsByEntity
  testsByColumn := indexes.testsByColumn
  entityCounts := acc.entityCounts
  manifestMetadata := acc.manifestMetadata

def pruneStorageVersions (victims : List String) (sel : Selection) : List Write :=
  if sel.locked then
    [.prune (victims.filter fun v => v ≠ sel.version ∧ storage.current ≠ some v)]
  else []

def updateCurrentVersion (sel : Selection) (reuse : ReuseArtifacts) : Bool :=
  sel.locked && !reuse.needsBuild && !request.config.storageReadOnly &&
    reuse.version == sel.version && storage.current != some sel.version

def persistStorageOutputs (sel : Selection) (reuse : ReuseArtifacts)
    (data : PreparedManifestData) : List Write :=
  (if reuse.needsBuild then [.signature reuse.version sel.signature] else []) ++
  (if reuse.needsBuild || updateCurrentVersion storage request sel reuse then
    [.current sel.version] else []) ++
  (if !data.indexesReused && !request.config.storageReadOnly then
    [.indexes reuse.version
      (persistedIndexes sel.signature.contentHash data.accumulator data.pathAndTests)]
  else [])

/-- What a start writes, in order, and what it serves when it comes to its end. -/
structure Plan where
  writes : List Write
  served : Option Served

def manifestSearchNew (victims : List String) (visit : Visit) : Plan :=
  let sel := selectStorageVersionOrLock env storage request
  let reuse := loadReusableArtifacts env storage request sel
  let pruned := pruneStorageVersions storage victims sel
  if request.config.storageReadOnly && reuse.needsBuild then ⟨pruned, none⟩
  else
    let started : List Write :=
      if reuse.entities.isNone then [.startStore reuse.version] else []
    match prepareManifestData env storage request visit sel reuse with
    | none => ⟨pruned ++ started, none⟩
    | some data =>
        let finished : List Write :=
          if reuse.entities.isNone then [.finishStore reuse.version data.entities] else []
        let tantivy : List Write :=
          if reuse.tantivyOpened then []
          else [.startTantivy reuse.version, .finishTantivy reuse.version request.config.search]
        ⟨pruned ++ started ++ finished ++ tantivy ++
            persistStorageOutputs storage request sel reuse data,
          some (assembleManifestSearch data.accumulator data.entities data.pathAndTests)⟩

end Start

/-! ## Histories -/

structure Start where
  request : Request
  victims : List String
  visit : Visit

inductive Action where
  | complete (start : Start)
  /-- The process ends after so many writes. -/
  | crash (start : Start) (writes : ℕ)

/-- The storage, what was requested so far, and what was served. -/
structure State where
  storage : Storage
  requests : List Request
  served : List (Request × Served)

def initial : State := ⟨.empty, [], []⟩

def State.plan (env : Env) (state : State) (start : Start) : Plan :=
  manifestSearchNew env state.storage start.request start.victims start.visit

def step (env : Env) (state : State) : Action → Option State
  | .complete start =>
      let plan := state.plan env start
      some {
        storage := plan.writes.foldl Write.apply state.storage
        requests := state.requests ++ [start.request]
        served := state.served ++ (plan.served.map (start.request, ·)).toList }
  | .crash start writes =>
      let plan := state.plan env start
      some {
        storage := (plan.writes.take writes).foldl Write.apply state.storage
        requests := state.requests ++ [start.request]
        served := state.served }

end DbtNova.WarmStart
