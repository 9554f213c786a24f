import DbtNova.ManifestOrder
import DbtNova.WarmStart

/-!
# Warm starts against cold starts

What lies in a version directory was built by a request for that version. Where
the version id and the hashes of a request say what it was built from, any mix of
reused and rebuilt parts is what a start from nothing builds.
-/
namespace DbtNova.WarmStart
open ManifestSignature ManifestParse Fingerprint TransitionSystem
open StorageProtocol (Request versionIdOf manifestSignatureMatchesForRuntimeRead)

/-! ## A parse without a store -/

def withoutStore (acc : ManifestAccumulator) : ManifestAccumulator := { acc with store := none }

section WithoutStore
variable (acc : ManifestAccumulator) (uniqueId : String)

theorem addTags_withoutStore (tags : List String) :
    (withoutStore acc).addTags uniqueId tags = withoutStore (acc.addTags uniqueId tags) := by
  unfold ManifestAccumulator.addTags
  split <;> rfl

theorem addDatabaseSchema_withoutStore (db schema : String) :
    (withoutStore acc).addDatabaseSchema uniqueId db schema =
      withoutStore (acc.addDatabaseSchema uniqueId db schema) := by
  unfold ManifestAccumulator.addDatabaseSchema
  split <;> rfl

theorem addPath_withoutStore (path : Option String) :
    (withoutStore acc).addPath uniqueId path = withoutStore (acc.addPath uniqueId path) := by
  cases path <;> rfl

theorem addEntity_withoutStore (payload : JsonValue) (forced : Option String) :
    (withoutStore acc).addEntity uniqueId payload forced =
      withoutStore (acc.addEntity uniqueId payload forced) := by
  unfold ManifestAccumulator.addEntity
  by_cases hseen : uniqueId ∈ acc.seenUniqueIds
  · have hseen' : uniqueId ∈ (withoutStore acc).seenUniqueIds := hseen
    rw [if_pos hseen, if_pos hseen']
  · have hseen' : uniqueId ∉ (withoutStore acc).seenUniqueIds := hseen
    rw [if_neg hseen, if_neg hseen']
    simp only
    rw [← addPath_withoutStore, ← addDatabaseSchema_withoutStore, ← addTags_withoutStore]
    congr 3
    unfold ManifestAccumulator.addResourceType
    split <;> rfl

theorem recordDependencies_withoutStore (payload : JsonValue) :
    (withoutStore acc).recordDependencies uniqueId payload =
      withoutStore (acc.recordDependencies uniqueId payload) := by
  unfold ManifestAccumulator.recordDependencies
  induction ManifestAccumulator.dependencyIds payload generalizing acc with
  | nil => rfl
  | cons depId depIds ih =>
      rw [List.foldl_cons, List.foldl_cons, ← ih]
      rfl

end WithoutStore

theorem foldl_withoutStore (steps : List Step) (acc : ManifestAccumulator) :
    steps.foldl Step.apply (withoutStore acc) = withoutStore (steps.foldl Step.apply acc) := by
  induction steps generalizing acc with
  | nil => rfl
  | cons step steps ih =>
      rw [List.foldl_cons, List.foldl_cons, ← ih]
      congr 1
      cases step with
      | entity forced uniqueId payload =>
          rw [Step.apply, Step.apply, addEntity_withoutStore, recordDependencies_withoutStore]
      | parents map => rfl
      | children map => rfl
      | metadata value => rfl

theorem parseManifestFile_withoutStore {allowIds denyIds : List String}
    {catalogColumns : Option CatalogColumns.CatalogColumnMap} {acc result : ManifestAccumulator}
    {sections : List (String × JsonValue)}
    (h : parseManifestFile allowIds denyIds catalogColumns acc sections = .ok result) :
    parseManifestFile allowIds denyIds catalogColumns (withoutStore acc) sections =
      .ok (withoutStore result) := by
  rw [parseManifestFile_ok] at h ⊢
  refine ⟨h.1, ?_⟩
  rw [foldl_withoutStore, h.2]
  rfl

/-! ## Pruning lists in another order -/

theorem compilePatterns_perm {patterns patterns' : List String}
    (h : canonicalPrunePatterns patterns = canonicalPrunePatterns patterns') :
    (compilePatterns patterns).Perm (compilePatterns patterns') := by
  have hsorted (l : List String) :
      (canonicalPrunePatterns l).Perm ((l.map Text.trim).filter fun p => p ≠ "") := by
    unfold canonicalPrunePatterns
    refine (List.perm_insertionSort _ _).trans (List.Perm.of_eq (List.filter_congr ?_))
    intro p _
    by_cases hp : p = "" <;> simp [hp]
  unfold compilePatterns
  exact ((hsorted patterns).symm.trans (h ▸ hsorted patterns')).map _

section Pruners
variable {pruner pruner' : ManifestPruner}
  (hallow : pruner.allowPatterns.Perm pruner'.allowPatterns)
  (hdeny : pruner.denyPatterns.Perm pruner'.denyPatterns)
include hallow hdeny

theorem keepByAllowDeny_perm (uniqueId : String) :
    pruner.keepByAllowDeny uniqueId = pruner'.keepByAllowDeny uniqueId := by
  unfold ManifestPruner.keepByAllowDeny ManifestPruner.matchesAllow ManifestPruner.matchesDeny
  rw [hallow.any_eq, hdeny.any_eq, hallow.isEmpty_eq]

theorem shouldKeepEntity_perm (uniqueId : String) (payload : JsonValue) (forced : Option String) :
    pruner.shouldKeepEntity uniqueId payload forced =
      pruner'.shouldKeepEntity uniqueId payload forced := by
  unfold ManifestPruner.shouldKeepEntity ManifestPruner.shouldAutoIncludeAnalysis
    ManifestPruner.matchesDeny
  rw [hdeny.any_eq, keepByAllowDeny_perm hallow hdeny uniqueId,
    funext (keepByAllowDeny_perm hallow hdeny)]

end Pruners

theorem keeps_samePruning {c c' : DbtNovaConfig} (h : SamePruning c c') :
    keeps (ManifestPruner.fromPatterns c.manifestPruneAllowIds c.manifestPruneDenyIds) =
      keeps (ManifestPruner.fromPatterns c'.manifestPruneAllowIds c'.manifestPruneDenyIds) := by
  have hallow := compilePatterns_perm h.1
  have hdeny := compilePatterns_perm h.2
  funext forced uniqueId payload
  unfold keeps ManifestPruner.fromPatterns
  simp only [hallow.isEmpty_eq, hdeny.isEmpty_eq]
  split
  · rfl
  · rw [Option.all_some, Option.all_some]
    exact shouldKeepEntity_perm hallow hdeny uniqueId payload forced

theorem parseManifestFile_samePruning {c c' : DbtNovaConfig} (h : SamePruning c c')
    (catalogColumns : Option CatalogColumns.CatalogColumnMap) (acc : ManifestAccumulator)
    (sections : List (String × JsonValue)) :
    (parseManifestFile c.manifestPruneAllowIds c.manifestPruneDenyIds catalogColumns acc
        sections).toOption =
      (parseManifestFile c'.manifestPruneAllowIds c'.manifestPruneDenyIds catalogColumns acc
        sections).toOption := by
  have hsteps :
      manifestSteps (ManifestPruner.fromPatterns c.manifestPruneAllowIds c.manifestPruneDenyIds)
          catalogColumns sections =
        manifestSteps
          (ManifestPruner.fromPatterns c'.manifestPruneAllowIds c'.manifestPruneDenyIds)
          catalogColumns sections := by
    unfold manifestSteps sectionSteps entitySteps
    rw [keeps_samePruning h]
  apply Option.ext
  intro result
  rw [toOption_eq_some, toOption_eq_some, parseManifestFile_ok, parseManifestFile_ok, hsteps]

/-! ## Hash maps in another order -/

theorem mapSetToVec_mapVecToSet (map : KeyedSets String String) :
    mapSetToVec (mapVecToSet (mapSetToVec map)) = mapSetToVec map := by
  funext key
  cases hkey : map key with
  | none => simp [mapSetToVec, mapVecToSet, hkey]
  | some values => simp [mapSetToVec, mapVecToSet, hkey]

theorem foldl_push (parts : List (List Char)) (index : String → List String)
    (uniqueId key : String) :
    parts.foldl
        (fun index parts => ManifestAccumulator.push index (String.ofList parts) uniqueId) index
        key =
      index key ++ (parts.filter fun parts => String.ofList parts = key).map fun _ => uniqueId := by
  induction parts generalizing index with
  | nil => simp
  | cons first parts ih =>
      rw [List.foldl_cons, ih]
      unfold ManifestAccumulator.push
      by_cases hkey : String.ofList first = key
      · rw [if_pos hkey.symm, List.filter_cons_of_pos (by simpa using hkey), List.map_cons,
          List.append_assoc, List.singleton_append]
      · rw [if_neg (Ne.symm hkey), List.filter_cons_of_neg (by simpa using hkey)]

/-- The entries of one id under a key. -/
def pathEntries (uniqueIdToPath : String → Option String) (key uniqueId : String) : List String :=
  match uniqueIdToPath uniqueId with
  | none => []
  | some path =>
      ((PathIndex.pathPrefixes path.toList).filter fun parts => String.ofList parts = key).map
        fun _ => uniqueId

theorem foldl_pushPath (uniqueIdToPath : String → Option String) (ids : List String)
    (index : String → List String) (key : String) :
    ids.foldl (pushPath uniqueIdToPath) index key =
      index key ++ ids.flatMap (pathEntries uniqueIdToPath key) := by
  induction ids generalizing index with
  | nil => simp
  | cons uniqueId ids ih =>
      rw [List.foldl_cons, ih, List.flatMap_cons, ← List.append_assoc]
      congr 1
      unfold pushPath pathEntries
      cases uniqueIdToPath uniqueId with
      | none => simp
      | some path => exact foldl_push _ _ _ _

/-- Equal but for the order within the lists of the indexes. -/
structure SameUpToOrder (s t : Served) : Prop where
  entities : s.entities = t.entities
  parentMap : s.parentMap = t.parentMap
  childMap : s.childMap = t.childMap
  byResourceType : ∀ key, (s.byResourceType key).Perm (t.byResourceType key)
  byPackage : ∀ key, (s.byPackage key).Perm (t.byPackage key)
  byTag : s.byTag = t.byTag
  byDatabaseSchema : ∀ key, (s.byDatabaseSchema key).Perm (t.byDatabaseSchema key)
  nameToKeys : ∀ key, (s.nameToKeys key).Perm (t.nameToKeys key)
  byPathPrefix : ∀ key, (s.byPathPrefix key).Perm (t.byPathPrefix key)
  testsByEntity : ∀ key, (s.testsByEntity key).Perm (t.testsByEntity key)
  testsByColumn : ∀ key, (s.testsByColumn key).Perm (t.testsByColumn key)
  entityCounts : s.entityCounts = t.entityCounts
  manifestMetadata : s.manifestMetadata = t.manifestMetadata

/-- What a parse and its store come to. -/
def served (visit : Visit) (acc : ManifestAccumulator) (entities : EntityStore) : Served :=
  assembleManifestSearch acc entities (buildPathAndTestIndexes visit acc entities)

theorem served_sameUpToOrder (visit visit' : Visit) (acc : ManifestAccumulator)
    (entities : EntityStore) :
    SameUpToOrder (served visit acc entities) (served visit' acc entities) where
  entities := rfl
  parentMap := rfl
  childMap := rfl
  byResourceType _ := .refl _
  byPackage _ := .refl _
  byTag := rfl
  byDatabaseSchema _ := .refl _
  nameToKeys _ := .refl _
  byPathPrefix := by
    intro key
    have hids : (visit.order (pathIds acc)).Perm (visit'.order (pathIds acc)) :=
      (visit.perm _).trans (visit'.perm _).symm
    unfold served assembleManifestSearch buildPathAndTestIndexes
    simp only
    rw [foldl_pushPath, foldl_pushPath, List.nil_append, List.nil_append]
    exact hids.flatMap_right _
  testsByEntity _ := .refl _
  testsByColumn _ := .refl _
  entityCounts := rfl
  manifestMetadata := rfl

/-! ## What a version is built from -/

section Keys
variable (env : Env)

/-- The hashes that decide over reuse. -/
structure SameKey (r r' : Request) : Prop where
  content : (r.signature env.blake3).contentHash = (r'.signature env.blake3).contentHash
  prune : (r.signature env.blake3).pruneFingerprint = (r'.signature env.blake3).pruneFingerprint
  search : (r.signature env.blake3).searchIndexFingerprint =
    (r'.signature env.blake3).searchIndexFingerprint

/-- What a parse reads. -/
structure SameInputs (r r' : Request) : Prop where
  manifest : r.sources.manifest.file.content = r'.sources.manifest.file.content
  catalog : r.sources.catalogContent = r'.sources.catalogContent
  pruning : SamePruning r.config r'.config

/-- The parse of a request from its first step. -/
def parsed (request : Request) (buildStore : Bool) : Option ManifestAccumulator :=
  (loadCatalogColumnMap env request.sources).bind fun catalogColumns =>
    parseSources env request catalogColumns (.new buildStore)

end Keys

/-- The text whose hash stands for a manifest with its catalog. -/
def catalogText (b : Blake3) (sources : Sources) : Option (List UInt8) :=
  sources.catalog.map fun catalog =>
    textBytes (catalogPayload b (b.hex sources.manifest.file.content) catalog).toText

/-- Neither manifest, standing alone, is the text that is hashed for the other one and
its catalog. -/
def Unconfused (b : Blake3) (s t : Sources) : Prop :=
  (s.catalog = none → catalogText b t ≠ some s.manifest.file.content) ∧
    (t.catalog = none → catalogText b s ≠ some t.manifest.file.content)

variable {env : Env}

theorem SameKey.symm {r r' : Request} (h : SameKey env r r') : SameKey env r' r :=
  ⟨h.content.symm, h.prune.symm, h.search.symm⟩

theorem SameKey.trans {r r' r'' : Request} (h : SameKey env r r') (h' : SameKey env r' r'') :
    SameKey env r r'' :=
  ⟨h.content.trans h'.content, h.prune.trans h'.prune, h.search.trans h'.search⟩

theorem SameInputs.symm {r r' : Request} (h : SameInputs r r') : SameInputs r' r :=
  ⟨h.manifest.symm, h.catalog.symm, h.pruning.1.symm, h.pruning.2.symm⟩

theorem SameKey.scopedHash {r r' : Request} (h : SameKey env r r') :
    scopedManifestHash env.blake3 (r.signature env.blake3) =
      scopedManifestHash env.blake3 (r'.signature env.blake3) := by
  unfold scopedManifestHash
  rw [h.content, h.prune, h.search]

theorem SameKey.requestedVersion {r r' : Request} (h : SameKey env r r') :
    requestedVersion env r = requestedVersion env r' := by
  unfold WarmStart.requestedVersion versionIdOf
  rw [h.scopedHash]

theorem sameKey_of_signedContent {config : DbtNovaConfig} {s t : Sources}
    (h : signedContent env.blake3 s = signedContent env.blake3 t) :
    SameKey env ⟨config, s⟩ ⟨config, t⟩ where
  content := by
    unfold Request.signature
    rw [requestedSignature_contentHash, requestedSignature_contentHash, h]
  prune := rfl
  search := rfl

theorem sameKey_of_scopedHash {r r' : Request}
    (h : scopedManifestHash env.blake3 (r.signature env.blake3) =
      scopedManifestHash env.blake3 (r'.signature env.blake3)) : SameKey env r r' := by
  have hparts := (scopedManifestHash_eq_iff env.blake3
    (indexFingerprint_ne_empty env.blake3 r.config.search)
    (indexFingerprint_ne_empty env.blake3 r'.config.search)).mp h
  exact ⟨hparts.1, hparts.2.1, hparts.2.2⟩

theorem catalogPayload_wellFormed (b : Blake3) (manifestHash : String) (catalog : Source) :
    (catalogPayload b manifestHash catalog).wellFormed = true := by
  simp [catalogPayload, JsonValue.wellFormed, JsonValue.wellFormedFields_iff]

theorem catalogText_eq {b : Blake3} {hash hash' : String} {catalog catalog' : Source}
    (h : textBytes (catalogPayload b hash catalog).toText =
      textBytes (catalogPayload b hash' catalog').toText) :
    hash = hash' ∧ catalog.file.content = catalog'.file.content := by
  have hpayload : catalogPayload b hash catalog = catalogPayload b hash' catalog' :=
    JsonValue.toText_injective (catalogPayload_wellFormed b hash catalog)
      (catalogPayload_wellFormed b hash' catalog') (textBytes_injective h)
  simp only [catalogPayload, JsonValue.object.injEq, List.cons.injEq, Prod.mk.injEq, true_and,
    JsonValue.string.injEq, and_true] at hpayload
  exact ⟨hpayload.2.2.2, b.injective hpayload.1⟩

/-- The signed content tells sources apart that are not confused. -/
theorem signedContent_inj {b : Blake3} {s t : Sources} (hun : Unconfused b s t)
    (h : signedContent b s = signedContent b t) :
    s.manifest.file.content = t.manifest.file.content ∧ s.catalogContent = t.catalogContent := by
  obtain ⟨manifest, catalog⟩ := s
  obtain ⟨manifest', catalog'⟩ := t
  cases catalog with
  | none =>
      cases catalog' with
      | none => exact ⟨h, rfl⟩
      | some catalog' => exact absurd (congrArg some h.symm) (hun.1 rfl)
  | some catalog =>
      cases catalog' with
      | none => exact absurd (congrArg some h) (hun.2 rfl)
      | some catalog' =>
          obtain ⟨hmanifest, hcatalog⟩ := catalogText_eq h
          exact ⟨b.injective hmanifest, congrArg some hcatalog⟩

theorem SameKey.sameInputs {r r' : Request} (h : SameKey env r r')
    (hun : Unconfused env.blake3 r.sources r'.sources) : SameInputs r r' := by
  have hcontent : signedContent env.blake3 r.sources = signedContent env.blake3 r'.sources := by
    apply env.blake3.injective
    rw [← requestedSignature_contentHash env.blake3 r.config,
      ← requestedSignature_contentHash env.blake3 r'.config]
    exact h.content
  obtain ⟨hmanifest, hcatalog⟩ := signedContent_inj hun hcontent
  exact ⟨hmanifest, hcatalog, (manifestPruneFingerprint_eq_iff _ _ _).mp h.prune⟩

theorem loadCatalogColumnMap_eq {s t : Sources} (h : s.catalogContent = t.catalogContent) :
    loadCatalogColumnMap env s = loadCatalogColumnMap env t := by
  have hload (sources : Sources) :
      loadCatalogColumnMap env sources =
        match sources.catalogContent with
        | none => some none
        | some content =>
            (env.readCatalog content).map fun json => some (catalogColumnMapFromJson json) := by
    unfold loadCatalogColumnMap Sources.catalogContent
    cases sources.catalog <;> rfl
  rw [hload, hload, h]

theorem SameInputs.parsed {r r' : Request} (h : SameInputs r r') (buildStore : Bool) :
    parsed env r buildStore = parsed env r' buildStore := by
  unfold WarmStart.parsed parseSources
  rw [loadCatalogColumnMap_eq h.catalog, h.manifest]
  simp only [parseManifestFile_samePruning h.pruning]

/-- What a parse finds does not depend on whether it stores. -/
theorem parsed_withoutStore {request : Request} {acc : ManifestAccumulator}
    (h : parsed env request true = some acc) :
    parsed env request false = some (withoutStore acc) := by
  simp only [parsed, parseSources, Option.bind_eq_some_iff] at h ⊢
  obtain ⟨catalogColumns, hcatalog, sections, hsections, hparse⟩ := h
  refine ⟨catalogColumns, hcatalog, sections, hsections, ?_⟩
  rw [toOption_eq_some] at hparse ⊢
  exact parseManifestFile_withoutStore hparse

end DbtNova.WarmStart
