import DbtNova.Config
import DbtNova.ManifestSignature

/-!
# Bootstrap contracts

A bootstrap document supplies the manifest source and the artifact addresses that
the configuration leaves open, and the status object records which fields it
supplied. A reload clears exactly those fields and applies the document that the
address holds by then.

The document is the one the bootstrap address resolves to; fetching it is not
modelled.
-/
namespace DbtNova.Bootstrap
open Text Fingerprint ManifestSignature

structure PrebuiltAssetsBootstrap where
  contractVersion : String
  storageFormatVersion : String := ""
  storageInstanceId : String
  manifestUri : String
  storageArtifactUri : String
  metadataArtifactUri : String
  modelsArtifactUri : String := ""
  manifestHash : String
  dbtNovaVersion : String
  buildTimestamp : String
  deriving DecidableEq, Repr

def legacyPrebuiltContractVersion : String := "v1"

def prebuiltBootstrapContractVersion : String := "v2"

def validateContractAndStorageFormat (label contractVersion formatVersion current : String) :
    Result Unit :=
  if contractVersion = legacyPrebuiltContractVersion then
    if !isBlank formatVersion && formatVersion != legacyStorageFormatVersion then
      .error (.invalidParams ("prebuilt " ++ label ++ " contract_version '" ++
        legacyPrebuiltContractVersion ++ "' must use storage_format_version '" ++
        legacyStorageFormatVersion ++ "' when specified"))
    else .ok ()
  else if contractVersion = current then
    if formatVersion ≠ storageFormatVersion then
      .error (.invalidParams ("prebuilt " ++ label ++ " storage_format_version '" ++
        formatVersion ++ "' is incompatible with this Nova binary (expected '" ++
        storageFormatVersion ++ "')"))
    else .ok ()
  else
    .error (.invalidParams ("unsupported prebuilt " ++ label ++ " contract_version '" ++
      contractVersion ++ "' (supported: '" ++ legacyPrebuiltContractVersion ++ "', '" ++
      current ++ "')"))

/-- The two digits that start at a position. -/
def twoDigits (chars : List Char) (start : ℕ) : ℕ :=
  ((chars.drop start).take 2).foldl (fun n c => 10 * n + (c.toNat - '0'.toNat)) 0

/-- A text with a character outside ASCII fails here as its bytes do there. -/
def isIso8601UtcTimestamp (value : String) : Bool :=
  let chars := value.toList
  chars.length == 20 &&
    ([(4, '-'), (7, '-'), (10, 'T'), (13, ':'), (16, ':'), (19, 'Z')].all fun p =>
      chars[p.1]? == some p.2) &&
    (chars.zipIdx.all fun p => [4, 7, 10, 13, 16, 19].contains p.2 || p.1.isDigit) &&
    decide (1 ≤ twoDigits chars 5 ∧ twoDigits chars 5 ≤ 12) &&
    decide (1 ≤ twoDigits chars 8 ∧ twoDigits chars 8 ≤ 31) &&
    decide (twoDigits chars 11 ≤ 23) && decide (twoDigits chars 14 ≤ 59) &&
    decide (twoDigits chars 17 ≤ 59)

def requireText (field value : String) : Result Unit :=
  if isBlank value then
    .error (.invalidParams ("prebuilt bootstrap " ++ field ++ " cannot be empty"))
  else .ok ()

def PrebuiltAssetsBootstrap.validate (bootstrap : PrebuiltAssetsBootstrap) : Result Unit := do
  validateContractAndStorageFormat "bootstrap" bootstrap.contractVersion
    bootstrap.storageFormatVersion prebuiltBootstrapContractVersion
  requireText "storage_instance_id" bootstrap.storageInstanceId
  requireText "manifest_uri" bootstrap.manifestUri
  requireText "storage_artifact_uri" bootstrap.storageArtifactUri
  requireText "metadata_artifact_uri" bootstrap.metadataArtifactUri
  requireText "manifest_hash" bootstrap.manifestHash
  requireText "dbt_nova_version" bootstrap.dbtNovaVersion
  requireText "build_timestamp" bootstrap.buildTimestamp
  if isIso8601UtcTimestamp (trim bootstrap.buildTimestamp) then .ok ()
  else .error (.invalidParams
    "prebuilt bootstrap build_timestamp must use UTC ISO-8601 format YYYY-MM-DDTHH:MM:SSZ")

/-- The machine as one call finds it. `artifactNameModels` reads that field of the
metadata contract at an address; `embeddingCacheDir` is the directory that
`ensure_embedding_cache_dir` picks here; `checks` is the rest of the validation. -/
structure Machine where
  canonicalize : String → Option String
  blake3Hex : String → String
  sanitizeUri : String → String
  artifactNameModels : String → Result String
  embeddingCacheDir : String
  checks : DbtNovaConfig → Result Unit

def shouldApplyManifestUri (config : DbtNovaConfig) : Bool :=
  isBlank config.manifestUri && !config.manifestPathExplicit &&
    (trim config.manifestPath == "" || trim config.manifestPath == "manifest.json")

/-- The new value of a field and its entry in the list of applied fields. -/
def applyIfEmpty (target value fieldName : String) : String × List String :=
  if isBlank target then (value, [fieldName]) else (target, [])

def validateModelsMetadataContract (m : Machine) (config : DbtNovaConfig)
    (bootstrap : PrebuiltAssetsBootstrap) : Result Unit :=
  if isBlank bootstrap.modelsArtifactUri then .ok ()
  else if !isBlank config.modelsArtifactUri then .ok ()
  else do
    let name ← m.artifactNameModels
      (if isBlank config.metadataArtifactUri then bootstrap.metadataArtifactUri
        else config.metadataArtifactUri)
    if isBlank name then
      .error (.invalidParams ("bootstrap models_artifact_uri is set but metadata contract " ++
        "artifact_name_models is empty"))
    else .ok ()

/-- The fields that the document fills in, with the list of their names. -/
def fillOpenFields (bootstrap : PrebuiltAssetsBootstrap) (config : DbtNovaConfig) :
    DbtNovaConfig × List String :=
  let manifestUri :=
    if shouldApplyManifestUri config then (bootstrap.manifestUri, ["manifest_uri"])
    else (config.manifestUri, [])
  let storageInstanceId :=
    applyIfEmpty config.storageInstanceId bootstrap.storageInstanceId "storage_instance_id"
  let storageArtifactUri :=
    applyIfEmpty config.storageArtifactUri bootstrap.storageArtifactUri "storage_artifact_uri"
  let metadataArtifactUri :=
    applyIfEmpty config.metadataArtifactUri bootstrap.metadataArtifactUri "metadata_artifact_uri"
  let modelsArtifactUri :=
    if isBlank bootstrap.modelsArtifactUri then (config.modelsArtifactUri, [])
    else applyIfEmpty config.modelsArtifactUri bootstrap.modelsArtifactUri "models_artifact_uri"
  ({ config with
      manifestUri := manifestUri.1
      storageInstanceId := storageInstanceId.1
      storageArtifactUri := storageArtifactUri.1
      metadataArtifactUri := metadataArtifactUri.1
      modelsArtifactUri := modelsArtifactUri.1 },
    manifestUri.2 ++ storageInstanceId.2 ++ storageArtifactUri.2 ++ metadataArtifactUri.2 ++
      modelsArtifactUri.2)

def applyBootstrapDefaults (m : Machine) (bootstrap : PrebuiltAssetsBootstrap)
    (config : DbtNovaConfig) : Result DbtNovaConfig :=
  if isBlank config.bootstrapUri then .ok { config with bootstrapStatus := some ⟨"", []⟩ }
  else if config.bootstrapStatus.any fun status =>
      status.uri == m.sanitizeUri (trim config.bootstrapUri) then .ok config
  else do
    bootstrap.validate
    validateModelsMetadataContract m config bootstrap
    let (config, appliedFields) := fillOpenFields bootstrap config
    .ok { config with
      bootstrapStatus := some ⟨m.sanitizeUri (trim config.bootstrapUri), appliedFields⟩ }

def ensureEmbeddingCacheDir (m : Machine) (config : DbtNovaConfig) : DbtNovaConfig :=
  if isBlank config.search.embeddingCacheDir then
    { config with search := { config.search with embeddingCacheDir := m.embeddingCacheDir } }
  else config

/-- Validation reads neither the fetch policy nor the bootstrap status. -/
def validate (m : Machine) (config : DbtNovaConfig) : Result Unit :=
  m.checks { config with artifactFetchPolicy := .ifMissing, bootstrapStatus := none }

def prepareRuntimeConfig (m : Machine) (bootstrap : PrebuiltAssetsBootstrap)
    (config : DbtNovaConfig) : Result DbtNovaConfig := do
  let config ← applyBootstrapDefaults m bootstrap config
  let config := ensureStorageInstanceId ⟨m.canonicalize, m.blake3Hex, .ok⟩ config
  let config := ensureEmbeddingCacheDir m config
  validate m config
  .ok config

/-- The machine a reload sees, with the document its bootstrap address holds. -/
def Machine.world (m : Machine) (bootstrap : PrebuiltAssetsBootstrap) : World :=
  ⟨m.canonicalize, m.blake3Hex, prepareRuntimeConfig m bootstrap⟩

/-! ## The configuration before any bootstrap -/

abbrev Env := String → Option String

/-- A blank variable does not set a field. -/
def setString (value : Option String) (target : String) : String :=
  match value with
  | some value => if isBlank value then target else value
  | none => target

def ArtifactFetchPolicy.parse (value : String) : Option ArtifactFetchPolicy :=
  match toAsciiLowercase (trim value) with
  | "if_missing" => some .ifMissing
  | "always" => some .always
  | "never" => some .never
  | _ => none

def applyArtifactEnv (env : Env) (config : DbtNovaConfig) : DbtNovaConfig :=
  { config with
    storageArtifactUri :=
      setString (env "DBT_NOVA_STORAGE_ARTIFACT_URI") config.storageArtifactUri
    metadataArtifactUri :=
      setString (env "DBT_NOVA_METADATA_ARTIFACT_URI") config.metadataArtifactUri
    modelsArtifactUri :=
      setString (env "DBT_NOVA_MODELS_ARTIFACT_URI") config.modelsArtifactUri
    artifactsCacheDir :=
      setString (env "DBT_NOVA_ARTIFACTS_CACHE_DIR") config.artifactsCacheDir
    bootstrapUri := setString (env "DBT_NOVA_BOOTSTRAP_URI") config.bootstrapUri
    artifactFetchPolicy :=
      ((env "DBT_NOVA_ARTIFACT_FETCH_POLICY").bind ArtifactFetchPolicy.parse).getD
        config.artifactFetchPolicy }

/-- What the program starts from: the artifact fields have their defaults or are
set from the environment and no bootstrap has been evaluated; every other field of
`settings` may have been set in any way. -/
def originalConfig (env : Env) (settings : DbtNovaConfig) : DbtNovaConfig :=
  applyArtifactEnv env
    { settings with
      storageArtifactUri := "", metadataArtifactUri := "", modelsArtifactUri := "",
      artifactsCacheDir := "", bootstrapUri := "", artifactFetchPolicy := .ifMissing,
      bootstrapStatus := none }

/-! ## What a document leaves behind, and what a reload clears -/

/-- The configuration with the fields that a document filled in left open again. -/
def cleared (bootstrap : PrebuiltAssetsBootstrap) (config : DbtNovaConfig) : DbtNovaConfig :=
  { config with
    manifestUri := if shouldApplyManifestUri config then "" else config.manifestUri
    storageInstanceId :=
      if isBlank config.storageInstanceId then "" else config.storageInstanceId
    storageArtifactUri :=
      if isBlank config.storageArtifactUri then "" else config.storageArtifactUri
    metadataArtifactUri :=
      if isBlank config.metadataArtifactUri then "" else config.metadataArtifactUri
    modelsArtifactUri :=
      if !isBlank bootstrap.modelsArtifactUri && isBlank config.modelsArtifactUri then ""
      else config.modelsArtifactUri }

section Reset
variable (next : DbtNovaConfig)

theorem reset_manifestUri :
    resetAppliedField false false next "manifest_uri" = { next with manifestUri := "" } := by
  simp [resetAppliedField]

theorem reset_storageInstanceId :
    resetAppliedField false false next "storage_instance_id" =
      { next with storageInstanceId := "" } := by
  simp [resetAppliedField]

theorem reset_storageArtifactUri :
    resetAppliedField false false next "storage_artifact_uri" =
      { next with storageArtifactUri := "" } := by
  simp [resetAppliedField]

theorem reset_metadataArtifactUri :
    resetAppliedField false false next "metadata_artifact_uri" =
      { next with metadataArtifactUri := "" } := by
  simp [resetAppliedField]

theorem reset_modelsArtifactUri :
    resetAppliedField false false next "models_artifact_uri" =
      { next with modelsArtifactUri := "" } := by
  simp [resetAppliedField]

end Reset

/-- The names in the status object are the fields that were filled in, so clearing
them opens exactly these again. -/
theorem foldl_applied (bootstrap : PrebuiltAssetsBootstrap) (config : DbtNovaConfig)
    (status : Option BootstrapStatus) (search : SearchConfig) :
    (fillOpenFields bootstrap config).2.foldl (resetAppliedField false false)
        { (fillOpenFields bootstrap config).1 with bootstrapStatus := status, search } =
      { cleared bootstrap config with bootstrapStatus := status, search } := by
  unfold fillOpenFields cleared applyIfEmpty
  simp only [List.foldl_append]
  cases shouldApplyManifestUri config <;> cases isBlank config.storageInstanceId <;>
    cases isBlank config.storageArtifactUri <;> cases isBlank config.metadataArtifactUri <;>
    cases isBlank bootstrap.modelsArtifactUri <;> cases isBlank config.modelsArtifactUri <;>
    simp only [Bool.false_eq_true, if_true, if_false, List.foldl_cons, List.foldl_nil,
      reset_manifestUri, reset_storageInstanceId, reset_storageArtifactUri,
      reset_metadataArtifactUri, reset_modelsArtifactUri, Bool.not_true, Bool.not_false,
      Bool.and_true, Bool.and_false]

theorem isBlank_empty : isBlank "" = true := by decide

theorem isBlank_cleared (s : String) : isBlank (if isBlank s then "" else s) = isBlank s := by
  cases h : isBlank s with
  | true => exact isBlank_empty
  | false => exact h

theorem applyIfEmpty_cleared (s value name : String) :
    applyIfEmpty (if isBlank s then "" else s) value name = applyIfEmpty s value name := by
  unfold applyIfEmpty
  rw [isBlank_cleared]
  cases isBlank s <;> rfl

theorem shouldApplyManifestUri_cleared (b : PrebuiltAssetsBootstrap) (config : DbtNovaConfig) :
    shouldApplyManifestUri (cleared b config) = shouldApplyManifestUri config := by
  cases h : shouldApplyManifestUri config with
  | false =>
      unfold shouldApplyManifestUri cleared
      simp only [h, Bool.false_eq_true, if_false]
      exact h
  | true =>
      have hclosed := h
      simp only [shouldApplyManifestUri, Bool.and_eq_true] at hclosed
      unfold shouldApplyManifestUri cleared
      simp only [h, if_true, isBlank_empty, hclosed.1.2, hclosed.2, Bool.and_self]

/-- A field that holds the default or what the environment set. -/
theorem setString_default (value : Option String) (h : isBlank (setString value "") = true) :
    setString value "" = "" := by
  unfold setString at h ⊢
  cases value with
  | none => rfl
  | some value =>
      cases hv : isBlank value with
      | true => simp only [hv, if_true]
      | false =>
          simp only [hv, Bool.false_eq_true, if_false] at h

variable {config : DbtNovaConfig}

theorem cleared_modelsArtifactUri (b : PrebuiltAssetsBootstrap)
    (hmodels : isBlank config.modelsArtifactUri = true → config.modelsArtifactUri = "") :
    (cleared b config).modelsArtifactUri = config.modelsArtifactUri := by
  unfold cleared
  simp only [Bool.and_eq_true]
  split
  · next h => exact (hmodels h.2).symm
  · rfl

/-- A second document finds the same fields open as it would without the first. -/
theorem fillOpenFields_cleared (b₁ b₂ : PrebuiltAssetsBootstrap)
    (hmodels : isBlank config.modelsArtifactUri = true → config.modelsArtifactUri = "") :
    fillOpenFields b₂ (cleared b₁ config) = fillOpenFields b₂ config := by
  unfold fillOpenFields
  rw [shouldApplyManifestUri_cleared, cleared_modelsArtifactUri b₁ hmodels]
  simp only [cleared, applyIfEmpty_cleared]
  cases shouldApplyManifestUri config <;> rfl

theorem validateModelsMetadataContract_cleared (m : Machine) (b₁ b₂ : PrebuiltAssetsBootstrap)
    (hmodels : isBlank config.modelsArtifactUri = true → config.modelsArtifactUri = "") :
    validateModelsMetadataContract m (cleared b₁ config) b₂ =
      validateModelsMetadataContract m config b₂ := by
  unfold validateModelsMetadataContract
  rw [cleared_modelsArtifactUri b₁ hmodels]
  have hmetadata : (cleared b₁ config).metadataArtifactUri =
      if isBlank config.metadataArtifactUri then "" else config.metadataArtifactUri := by
    simp only [cleared]
  rw [hmetadata, isBlank_cleared]
  cases isBlank config.metadataArtifactUri <;> rfl

/-! ## The whole preparation -/

/-- The part of the search settings that a preparation fills in. -/
def withCacheDir (m : Machine) (search : SearchConfig) : SearchConfig :=
  if isBlank search.embeddingCacheDir then { search with embeddingCacheDir := m.embeddingCacheDir }
  else search

theorem ensureEmbeddingCacheDir_eq (m : Machine) (config : DbtNovaConfig) :
    ensureEmbeddingCacheDir m config = { config with search := withCacheDir m config.search } := by
  unfold ensureEmbeddingCacheDir withCacheDir
  cases isBlank config.search.embeddingCacheDir <;> rfl

theorem withCacheDir_idem (m : Machine) (search : SearchConfig) :
    withCacheDir m (withCacheDir m search) = withCacheDir m search := by
  unfold withCacheDir
  cases h : isBlank search.embeddingCacheDir with
  | false => simp only [Bool.false_eq_true, if_false, h]
  | true =>
      simp only [if_true]
      cases isBlank m.embeddingCacheDir <;> rfl

/-- What a document makes of a configuration whose bootstrap address is set. -/
def applied (m : Machine) (b : PrebuiltAssetsBootstrap) (config : DbtNovaConfig) : DbtNovaConfig :=
  let filled := fillOpenFields b config
  let config := { filled.1 with
    bootstrapStatus := some ⟨m.sanitizeUri (trim config.bootstrapUri), filled.2⟩ }
  let config := ensureStorageInstanceId ⟨m.canonicalize, m.blake3Hex, .ok⟩ config
  { config with search := withCacheDir m config.search }

theorem prepareRuntimeConfig_eq (m : Machine) (b : PrebuiltAssetsBootstrap)
    (hstatus : config.bootstrapStatus = none) (huri : isBlank config.bootstrapUri = false) :
    prepareRuntimeConfig m b config = (do
      b.validate
      validateModelsMetadataContract m config b
      validate m (applied m b config)
      .ok (applied m b config)) := by
  unfold prepareRuntimeConfig applyBootstrapDefaults
  simp only [hstatus, huri, Option.any_none, Bool.false_eq_true, if_false, bind_assoc,
    ensureEmbeddingCacheDir_eq]
  rfl

theorem requireText_ok {field value : String} {u : Unit} (h : requireText field value = .ok u) :
    isBlank value = false := by
  unfold requireText at h
  cases hv : isBlank value with
  | false => rfl
  | true => simp only [hv, if_true, reduceCtorEq] at h

theorem validate_storageInstanceId {b : PrebuiltAssetsBootstrap} {u : Unit}
    (h : b.validate = .ok u) : isBlank b.storageInstanceId = false := by
  unfold PrebuiltAssetsBootstrap.validate at h
  obtain ⟨_, _, h⟩ := bind_eq_ok.mp h
  obtain ⟨_, hid, _⟩ := bind_eq_ok.mp h
  exact requireText_ok hid

/-- A filled configuration has a storage identity, so none is derived. -/
theorem applied_of_valid {m : Machine} {b : PrebuiltAssetsBootstrap} {u : Unit}
    (h : b.validate = .ok u) (config : DbtNovaConfig) :
    applied m b config = { (fillOpenFields b config).1 with
      bootstrapStatus := some ⟨m.sanitizeUri (trim config.bootstrapUri), (fillOpenFields b config).2⟩
      search := withCacheDir m config.search } := by
  have hid : isBlank (fillOpenFields b config).1.storageInstanceId = false := by
    unfold fillOpenFields applyIfEmpty
    cases hc : isBlank config.storageInstanceId with
    | true => exact validate_storageInstanceId h
    | false => exact hc
  simp only [applied, ensureStorageInstanceId, hid, Bool.not_false, if_true]
  rfl

/-- The rest of what a reload hands over: the status is dropped, the search settings
are already filled in, and the fetch policy is lifted. -/
def forReload (m : Machine) (p : ArtifactFetchPolicy) (config : DbtNovaConfig) : DbtNovaConfig :=
  { config with
    bootstrapStatus := none, search := withCacheDir m config.search, artifactFetchPolicy := p }

theorem fillOpenFields_forReload (m : Machine) (b : PrebuiltAssetsBootstrap)
    (p : ArtifactFetchPolicy) (config : DbtNovaConfig) :
    fillOpenFields b (forReload m p config) =
      (forReload m p (fillOpenFields b config).1, (fillOpenFields b config).2) := by
  have hsource : shouldApplyManifestUri (forReload m p config) = shouldApplyManifestUri config := by
    simp only [shouldApplyManifestUri, forReload]
  simp only [fillOpenFields, hsource]
  simp only [forReload]

theorem ensureStorageInstanceId_frame (w : World) (config : DbtNovaConfig)
    (status : Option BootstrapStatus) (search : SearchConfig) (p : ArtifactFetchPolicy) :
    ensureStorageInstanceId w { config with
        bootstrapStatus := status, search, artifactFetchPolicy := p } =
      { ensureStorageInstanceId w config with
        bootstrapStatus := status, search, artifactFetchPolicy := p } := by
  unfold ensureStorageInstanceId
  cases isBlank config.storageInstanceId <;> rfl

theorem applied_eq (m : Machine) (b : PrebuiltAssetsBootstrap) (config : DbtNovaConfig) :
    applied m b config =
      { ensureStorageInstanceId ⟨m.canonicalize, m.blake3Hex, .ok⟩ (fillOpenFields b config).1 with
        bootstrapStatus :=
          some ⟨m.sanitizeUri (trim config.bootstrapUri), (fillOpenFields b config).2⟩
        search := withCacheDir m config.search
        artifactFetchPolicy := config.artifactFetchPolicy } := by
  have hframe := ensureStorageInstanceId_frame ⟨m.canonicalize, m.blake3Hex, .ok⟩
    (fillOpenFields b config).1
    (some ⟨m.sanitizeUri (trim config.bootstrapUri), (fillOpenFields b config).2⟩)
    config.search config.artifactFetchPolicy
  have hsearch : (fillOpenFields b config).1.search = config.search := by
    simp only [fillOpenFields]
  have hpolicy : (fillOpenFields b config).1.artifactFetchPolicy = config.artifactFetchPolicy := by
    simp only [fillOpenFields]
  simp only [applied, hsearch, hpolicy]
  rw [hframe]

/-- A second document makes of the cleared configuration what it makes of the
original one. -/
theorem applied_cleared (m : Machine) (b₁ b₂ : PrebuiltAssetsBootstrap) (p : ArtifactFetchPolicy)
    (hmodels : isBlank config.modelsArtifactUri = true → config.modelsArtifactUri = "") :
    applied m b₂ (forReload m p (cleared b₁ config)) =
      { applied m b₂ config with artifactFetchPolicy := p } := by
  rw [applied_eq, applied_eq, fillOpenFields_forReload, fillOpenFields_cleared b₁ b₂ hmodels]
  simp only [forReload, cleared, ensureStorageInstanceId_frame, withCacheDir_idem]

theorem validateModelsMetadataContract_forReload (m : Machine) (b : PrebuiltAssetsBootstrap)
    (p : ArtifactFetchPolicy) (config : DbtNovaConfig) :
    validateModelsMetadataContract m (forReload m p config) b =
      validateModelsMetadataContract m config b := rfl

theorem validate_policy (m : Machine) (config : DbtNovaConfig) (p : ArtifactFetchPolicy) :
    validate m { config with artifactFetchPolicy := p } = validate m config := rfl

/-- Preparing what a reload hands over, and putting the fetch policy back. -/
theorem prepare_forReload (m : Machine) (b₁ b₂ : PrebuiltAssetsBootstrap) (p : ArtifactFetchPolicy)
    (hstatus : config.bootstrapStatus = none) (huri : isBlank config.bootstrapUri = false)
    (hmodels : isBlank config.modelsArtifactUri = true → config.modelsArtifactUri = "") :
    (do let prepared ← prepareRuntimeConfig m b₂ (forReload m p (cleared b₁ config))
        pure { prepared with artifactFetchPolicy := config.artifactFetchPolicy }) =
      prepareRuntimeConfig m b₂ config := by
  have hcleared : isBlank (forReload m p (cleared b₁ config)).bootstrapUri = false := by
    simpa only [forReload, cleared] using huri
  rw [prepareRuntimeConfig_eq m b₂ rfl hcleared, prepareRuntimeConfig_eq m b₂ hstatus huri,
    validateModelsMetadataContract_forReload,
    validateModelsMetadataContract_cleared m b₁ b₂ hmodels, applied_cleared m b₁ b₂ p hmodels,
    validate_policy]
  have hpolicy : (applied m b₂ config).artifactFetchPolicy = config.artifactFetchPolicy := by
    rw [applied_eq]
  rw [← hpolicy]
  generalize applied m b₂ config = result
  cases b₂.validate with
  | error e => rfl
  | ok _ =>
      cases validateModelsMetadataContract m config b₂ with
      | error e => rfl
      | ok _ =>
          cases validate m result with
          | error e => rfl
          | ok _ => rfl

/-- A reload without parameters clears what the status lists. -/
theorem reloadConfig_default (w : World) {previous : DbtNovaConfig} {status : BootstrapStatus}
    (h : previous.bootstrapStatus = some status) :
    reloadConfig w {} previous = prepareRuntimeConfigForReload w
      (status.appliedFields.foldl (resetAppliedField false false) previous) := by
  have hedit : editForReload w {} previous = previous := rfl
  unfold reloadConfig
  rw [hedit, h]
  rfl

theorem prepareRuntimeConfigForReload_eq (m : Machine) (b : PrebuiltAssetsBootstrap)
    (config : DbtNovaConfig) (status : Option BootstrapStatus) :
    prepareRuntimeConfigForReload (m.world b) { config with
        bootstrapStatus := status, search := withCacheDir m config.search } = (do
      let prepared ← prepareRuntimeConfig m b (forReload m (bootstrapReloadFetchPolicy config) config)
      pure { prepared with artifactFetchPolicy := config.artifactFetchPolicy }) := by
  simp only [prepareRuntimeConfigForReload, Machine.world, forReload, bootstrapReloadFetchPolicy]

/-- Reloading after a document was applied, where a bootstrap address is set. -/
theorem reload_applied (m : Machine) (names : String → Result String)
    (b₁ b₂ : PrebuiltAssetsBootstrap) {prepared : DbtNovaConfig}
    (hstatus : config.bootstrapStatus = none) (huri : isBlank config.bootstrapUri = false)
    (hmodels : isBlank config.modelsArtifactUri = true → config.modelsArtifactUri = "")
    (h : prepareRuntimeConfig m b₁ config = .ok prepared) :
    reloadConfig (Machine.world { m with artifactNameModels := names } b₂) {} prepared =
      prepareRuntimeConfig { m with artifactNameModels := names } b₂ config := by
  rw [prepareRuntimeConfig_eq m b₁ hstatus huri] at h
  obtain ⟨_, hvalid, h⟩ := bind_eq_ok.mp h
  obtain ⟨_, _, h⟩ := bind_eq_ok.mp h
  obtain ⟨_, _, h⟩ := bind_eq_ok.mp h
  have hprepared : applied m b₁ config = prepared := Except.ok.inj h
  rw [applied_of_valid hvalid config] at hprepared
  rw [← hprepared, reloadConfig_default _ rfl, foldl_applied]
  have hsearch : (cleared b₁ config).search = config.search := by simp only [cleared]
  have hpolicy : (cleared b₁ config).artifactFetchPolicy = config.artifactFetchPolicy := by
    simp only [cleared]
  have hnext := prepareRuntimeConfigForReload_eq { m with artifactNameModels := names } b₂
    (cleared b₁ config)
    (some ⟨m.sanitizeUri (trim config.bootstrapUri), (fillOpenFields b₁ config).2⟩)
  rw [hsearch] at hnext
  refine hnext.trans ?_
  rw [hpolicy]
  exact prepare_forReload { m with artifactNameModels := names } b₁ b₂ _ hstatus huri hmodels

theorem ensureStorageInstanceId_idem (w : World) (config : DbtNovaConfig) :
    ensureStorageInstanceId w (ensureStorageInstanceId w config) =
      ensureStorageInstanceId w config := by
  have hid := ensureStorageInstanceId_isBlank w config
  generalize ensureStorageInstanceId w config = prepared at hid
  unfold ensureStorageInstanceId
  simp only [hid, Bool.not_false, if_true]

/-- The preparation of a configuration that names no bootstrap. -/
def unassisted (m : Machine) (config : DbtNovaConfig) : DbtNovaConfig :=
  { ensureStorageInstanceId ⟨m.canonicalize, m.blake3Hex, .ok⟩ config with
    bootstrapStatus := some ⟨"", []⟩
    search := withCacheDir m config.search
    artifactFetchPolicy := config.artifactFetchPolicy }

theorem prepareRuntimeConfig_unassisted (m : Machine) (b : PrebuiltAssetsBootstrap)
    (huri : isBlank config.bootstrapUri = true) :
    prepareRuntimeConfig m b config = (do
      validate m (unassisted m config)
      .ok (unassisted m config)) := by
  have hframe := ensureStorageInstanceId_frame ⟨m.canonicalize, m.blake3Hex, .ok⟩ config
    (some ⟨"", []⟩) config.search config.artifactFetchPolicy
  unfold prepareRuntimeConfig applyBootstrapDefaults
  simp only [huri, if_true, bind, Except.bind, ensureEmbeddingCacheDir_eq]
  rw [hframe]
  simp only [unassisted]

theorem unassisted_again (m : Machine) (config : DbtNovaConfig) (p : ArtifactFetchPolicy) :
    unassisted m { unassisted m config with bootstrapStatus := none, artifactFetchPolicy := p } =
      { unassisted m config with artifactFetchPolicy := p } := by
  simp only [unassisted, ensureStorageInstanceId_frame, ensureStorageInstanceId_idem,
    withCacheDir_idem]

theorem ensureStorageInstanceId_bootstrapUri (w : World) (config : DbtNovaConfig) :
    (ensureStorageInstanceId w config).bootstrapUri = config.bootstrapUri := by
  unfold ensureStorageInstanceId
  cases isBlank config.storageInstanceId <;> rfl

theorem reload_unassisted (m : Machine) (names : String → Result String)
    (b₁ b₂ : PrebuiltAssetsBootstrap) {prepared : DbtNovaConfig}
    (huri : isBlank config.bootstrapUri = true)
    (h : prepareRuntimeConfig m b₁ config = .ok prepared) :
    reloadConfig (Machine.world { m with artifactNameModels := names } b₂) {} prepared =
      prepareRuntimeConfig { m with artifactNameModels := names } b₂ config := by
  rw [prepareRuntimeConfig_unassisted m b₁ huri] at h
  obtain ⟨_, hvalid, h⟩ := bind_eq_ok.mp h
  have hprepared : unassisted m config = prepared := Except.ok.inj h
  have hstatus : prepared.bootstrapStatus = some ⟨"", []⟩ := by rw [← hprepared]; rfl
  have hblank : isBlank prepared.bootstrapUri = true := by
    rw [← hprepared]
    simpa only [unassisted, ensureStorageInstanceId_bootstrapUri] using huri
  let m' : Machine := { m with artifactNameModels := names }
  have hagain := unassisted_again m' config (bootstrapReloadFetchPolicy prepared)
  have hsame : unassisted m' config = prepared := hprepared
  rw [reloadConfig_default _ hstatus, prepareRuntimeConfig_unassisted m' b₂ huri]
  simp only [List.foldl_nil, prepareRuntimeConfigForReload, Machine.world]
  rw [prepareRuntimeConfig_unassisted m' b₂ (by exact hblank)]
  rw [hsame] at hagain ⊢
  rw [hagain, validate_policy]
  cases validate m' prepared with
  | error e => rfl
  | ok _ => rfl

/-! ## Values that were given stay -/

/-- Every bootstrap field that was given has its value in the result. -/
structure KeepsGiven (original result : DbtNovaConfig) : Prop where
  manifestUri : isBlank original.manifestUri = false → result.manifestUri = original.manifestUri
  storageInstanceId : isBlank original.storageInstanceId = false →
    result.storageInstanceId = original.storageInstanceId
  storageArtifactUri : isBlank original.storageArtifactUri = false →
    result.storageArtifactUri = original.storageArtifactUri
  metadataArtifactUri : isBlank original.metadataArtifactUri = false →
    result.metadataArtifactUri = original.metadataArtifactUri
  modelsArtifactUri : isBlank original.modelsArtifactUri = false →
    result.modelsArtifactUri = original.modelsArtifactUri

theorem applyIfEmpty_given {target : String} (h : isBlank target = false) (value name : String) :
    applyIfEmpty target value name = (target, []) := by
  simp only [applyIfEmpty, h, Bool.false_eq_true, if_false]

theorem fillOpenFields_keeps (b : PrebuiltAssetsBootstrap) (config : DbtNovaConfig) :
    KeepsGiven config (fillOpenFields b config).1 := by
  constructor
  · intro h
    have hclosed : shouldApplyManifestUri config = false := by
      simp only [shouldApplyManifestUri, h, Bool.false_and]
    simp only [fillOpenFields, hclosed, Bool.false_eq_true, if_false]
  · intro h
    simp only [fillOpenFields, applyIfEmpty_given h]
  · intro h
    simp only [fillOpenFields, applyIfEmpty_given h]
  · intro h
    simp only [fillOpenFields, applyIfEmpty_given h]
  · intro h
    simp only [fillOpenFields, applyIfEmpty_given h, ite_self]

theorem KeepsGiven.ensured {original result : DbtNovaConfig} (h : KeepsGiven original result)
    (w : World) : KeepsGiven original (ensureStorageInstanceId w result) := by
  unfold ensureStorageInstanceId
  cases hid : isBlank result.storageInstanceId with
  | false => exact h
  | true =>
      refine ⟨h.manifestUri, ?_, h.storageArtifactUri, h.metadataArtifactUri, h.modelsArtifactUri⟩
      intro hgiven
      rw [h.storageInstanceId hgiven, hgiven] at hid
      cases hid

theorem prepareRuntimeConfig_keeps {m : Machine} {b : PrebuiltAssetsBootstrap}
    {prepared : DbtNovaConfig} (hstatus : config.bootstrapStatus = none)
    (h : prepareRuntimeConfig m b config = .ok prepared) : KeepsGiven config prepared := by
  cases huri : isBlank config.bootstrapUri with
  | true =>
      rw [prepareRuntimeConfig_unassisted m b huri] at h
      obtain ⟨_, _, h⟩ := bind_eq_ok.mp h
      have hprepared : unassisted m config = prepared := Except.ok.inj h
      have hsame : KeepsGiven config config :=
        ⟨fun _ => rfl, fun _ => rfl, fun _ => rfl, fun _ => rfl, fun _ => rfl⟩
      obtain ⟨h₁, h₂, h₃, h₄, h₅⟩ := hsame.ensured ⟨m.canonicalize, m.blake3Hex, .ok⟩
      rw [← hprepared, unassisted]
      generalize ensureStorageInstanceId _ config = ensured at h₁ h₂ h₃ h₄ h₅ ⊢
      exact ⟨h₁, h₂, h₃, h₄, h₅⟩
  | false =>
      rw [prepareRuntimeConfig_eq m b hstatus huri] at h
      obtain ⟨_, _, h⟩ := bind_eq_ok.mp h
      obtain ⟨_, _, h⟩ := bind_eq_ok.mp h
      obtain ⟨_, _, h⟩ := bind_eq_ok.mp h
      have hprepared : applied m b config = prepared := Except.ok.inj h
      obtain ⟨h₁, h₂, h₃, h₄, h₅⟩ :=
        (fillOpenFields_keeps b config).ensured ⟨m.canonicalize, m.blake3Hex, .ok⟩
      rw [← hprepared, applied_eq]
      generalize ensureStorageInstanceId _ (fillOpenFields b config).1 = ensured at h₁ h₂ h₃ h₄ h₅ ⊢
      exact ⟨h₁, h₂, h₃, h₄, h₅⟩

def exampleMachine : Machine :=
  ⟨fun _ => none, fun _ => "", id, fun _ => .ok "models", "/models", fun _ => .ok ()⟩

def exampleEnv : Env := fun name =>
  if name = "DBT_NOVA_BOOTSTRAP_URI" then some "dbfs:/nova/bootstrap.json" else none

def modelsDocument : PrebuiltAssetsBootstrap where
  contractVersion := "v1"
  storageInstanceId := "analytics-prod"
  manifestUri := "dbfs:/prod/manifest.json"
  storageArtifactUri := "dbfs:/nova/storage.tar.gz"
  metadataArtifactUri := "dbfs:/nova/metadata.json"
  modelsArtifactUri := "dbfs:/nova/models.tar.gz"
  manifestHash := "abc123"
  dbtNovaVersion := "0.0.2"
  buildTimestamp := "2026-01-01T10:00:00Z"

end DbtNova.Bootstrap
