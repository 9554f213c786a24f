import DbtNova.Bootstrap
import DbtNova.EntityMeta
import DbtNova.RedactionSecrets

/-!
# Applying a bootstrap twice

The bootstrap is applied to a configuration in place. Everything that can fail comes before
the first update, and a status from an earlier evaluation ends the application at once when its
URI is the sanitized form of the configured one. The status is kept as the JSON object that is
handed out; what resolves, reads and parses files is a record of functions, about which nothing
is assumed.
-/
namespace DbtNova.BootstrapShortcut
open Text Bootstrap Fingerprint JsonValue

/-- The configuration with its bootstrap status, which replaces that of `settings`. -/
structure RuntimeConfig where
  settings : DbtNovaConfig
  manifestMaxBytes : ℕ
  status : Option JsonValue := none

/-- The files and services as one call finds them. `bootstrapFromJson` parses a document, and
`metadataFromJson` parses and validates a metadata contract and gives its models archive. -/
structure Files where
  resolveArtifactUriToLocal : RuntimeConfig → String → String → Result String
  ensureRegularFile : String → String → Result Unit
  readSmallTextFile : String → ℕ → Result String
  bootstrapFromJson : String → Result PrebuiltAssetsBootstrap
  metadataFromJson : String → Result String
  currentTimeMs : ℕ

def effectiveStorageFormat (bootstrap : PrebuiltAssetsBootstrap) : String :=
  if bootstrap.contractVersion = legacyPrebuiltContractVersion then legacyStorageFormatVersion
  else bootstrap.storageFormatVersion

def bootstrapDisabledStatus : JsonValue :=
  .object [("applied_fields", .array []), ("contract_version", .null), ("enabled", .bool false),
    ("last_evaluated_at_ms", .null), ("loaded", .bool false), ("manifest_hash", .null),
    ("storage_format_version", .null), ("uri", .string ""), ("validated", .bool false)]

def bootstrapStatus (uri : String) (bootstrap : PrebuiltAssetsBootstrap)
    (appliedFields : List String) (evaluatedAtMs : ℕ) : JsonValue :=
  .object [("applied_fields", .array (appliedFields.map .string)),
    ("contract_version", .string bootstrap.contractVersion), ("enabled", .bool true),
    ("last_evaluated_at_ms", .ofNat evaluatedAtMs), ("loaded", .bool true),
    ("manifest_hash", .string bootstrap.manifestHash),
    ("storage_format_version", .string (effectiveStorageFormat bootstrap)),
    ("uri", .string uri), ("validated", .bool true)]

/-! ## The fields a document fills in -/

inductive BootstrapField where
  | manifestUri
  | storageInstanceId
  | storageArtifactUri
  | metadataArtifactUri
  | modelsArtifactUri
  deriving DecidableEq, Repr

namespace BootstrapField

def name : BootstrapField → String
  | .manifestUri => "manifest_uri"
  | .storageInstanceId => "storage_instance_id"
  | .storageArtifactUri => "storage_artifact_uri"
  | .metadataArtifactUri => "metadata_artifact_uri"
  | .modelsArtifactUri => "models_artifact_uri"

def get (config : DbtNovaConfig) : BootstrapField → String
  | .manifestUri => config.manifestUri
  | .storageInstanceId => config.storageInstanceId
  | .storageArtifactUri => config.storageArtifactUri
  | .metadataArtifactUri => config.metadataArtifactUri
  | .modelsArtifactUri => config.modelsArtifactUri

def set (config : DbtNovaConfig) (value : String) : BootstrapField → DbtNovaConfig
  | .manifestUri => { config with manifestUri := value }
  | .storageInstanceId => { config with storageInstanceId := value }
  | .storageArtifactUri => { config with storageArtifactUri := value }
  | .metadataArtifactUri => { config with metadataArtifactUri := value }
  | .modelsArtifactUri => { config with modelsArtifactUri := value }

end BootstrapField

/-- A computation that changes the configuration in place; an error leaves what was changed
before it. -/
abbrev ConfigM := EStateM DbtNovaError RuntimeConfig

def fallible {α : Type} (result : Result α) : ConfigM α :=
  match result with
  | .ok a => pure a
  | .error e => throw e

def setField (field : BootstrapField) (value : String) (applied : List String) :
    ConfigM (List String) := do
  modify fun config => { config with settings := field.set config.settings value }
  return applied ++ [field.name]

def applyFieldIfEmpty (field : BootstrapField) (value : String) (applied : List String) :
    ConfigM (List String) := do
  if isBlank (field.get (← get).settings) then setField field value applied else return applied

def applyManifestUri (value : String) : ConfigM (List String) := do
  if shouldApplyManifestUri (← get).settings then setField .manifestUri value [] else return []

/-- The updates, one after another, with the names of the fields that they change. -/
def fillFields (bootstrap : PrebuiltAssetsBootstrap) : ConfigM (List String) := do
  let applied ← applyManifestUri bootstrap.manifestUri
  let applied ← applyFieldIfEmpty .storageInstanceId bootstrap.storageInstanceId applied
  let applied ← applyFieldIfEmpty .storageArtifactUri bootstrap.storageArtifactUri applied
  let applied ← applyFieldIfEmpty .metadataArtifactUri bootstrap.metadataArtifactUri applied
  if isBlank bootstrap.modelsArtifactUri then return applied
  else applyFieldIfEmpty .modelsArtifactUri bootstrap.modelsArtifactUri applied

/-! ## The application -/

section Application
variable (toLowercase : List Char → List Char) (files : Files)

def sanitized (uri : String) : String :=
  String.ofList (Redaction.sanitizeUri toLowercase uri.toList)

/-- The status of an earlier evaluation, when its URI is the sanitized form of this one. -/
def alreadyApplied (config : RuntimeConfig) : Option JsonValue :=
  config.status.filter fun existing =>
    (existing.getStr "uri").getD "" == sanitized toLowercase (trim config.settings.bootstrapUri)

def validateModelsContract (config : RuntimeConfig) (bootstrap : PrebuiltAssetsBootstrap) :
    Result Unit :=
  if isBlank bootstrap.modelsArtifactUri then .ok ()
  else if !isBlank config.settings.modelsArtifactUri then .ok ()
  else do
    let (metadataField, metadataUri) :=
      if isBlank config.settings.metadataArtifactUri then
        ("DBT_NOVA_METADATA_ARTIFACT_URI (from bootstrap)", bootstrap.metadataArtifactUri)
      else ("DBT_NOVA_METADATA_ARTIFACT_URI", config.settings.metadataArtifactUri)
    let metadataLocal ← files.resolveArtifactUriToLocal config metadataField metadataUri
    files.ensureRegularFile metadataField metadataLocal
    let metadataRaw ← files.readSmallTextFile metadataLocal config.manifestMaxBytes
    let artifactNameModels ← files.metadataFromJson metadataRaw
    if isBlank artifactNameModels then
      .error (.invalidParams ("bootstrap models_artifact_uri is set but metadata contract " ++
        "artifact_name_models is empty"))
    else .ok ()

/-- Parsing and validating a document. -/
def bootstrapFromText (raw : String) : Result PrebuiltAssetsBootstrap := do
  let bootstrap ← files.bootstrapFromJson raw
  bootstrap.validate
  return bootstrap

/-- The steps that can fail: fetching, reading, parsing and checking the document. -/
def readBootstrap (config : RuntimeConfig) : Result PrebuiltAssetsBootstrap := do
  let localPath ← files.resolveArtifactUriToLocal config "DBT_NOVA_BOOTSTRAP_URI"
    (trim config.settings.bootstrapUri)
  files.ensureRegularFile "DBT_NOVA_BOOTSTRAP_URI" localPath
  let raw ← files.readSmallTextFile localPath config.manifestMaxBytes
  let bootstrap ← bootstrapFromText files raw
  validateModelsContract files config bootstrap
  return bootstrap

def applyBootstrapDefaults : ConfigM JsonValue := do
  let config ← get
  if isBlank config.settings.bootstrapUri then
    set { config with status := some bootstrapDisabledStatus }
    return bootstrapDisabledStatus
  match alreadyApplied toLowercase config with
  | some existing => return existing
  | none =>
    let bootstrap ← fallible (readBootstrap files config)
    let applied ← fillFields bootstrap
    let status := bootstrapStatus (sanitized toLowercase (trim config.settings.bootstrapUri))
      bootstrap applied files.currentTimeMs
    modify fun config => { config with status := some status }
    return status

end Application

/-! ## What an application does -/

section Runs
variable {toLowercase : List Char → List Char} {files : Files}

theorem bind_ok {α β : Type} {x : ConfigM α} {f : α → ConfigM β} {config next : RuntimeConfig}
    {a : α} (h : x config = .ok a next) : (x >>= f) config = f a next := by
  change EStateM.bind x f config = _
  rw [EStateM.bind, h]

theorem get_bind {β : Type} (f : RuntimeConfig → ConfigM β) (config : RuntimeConfig) :
    (MonadState.get >>= f : ConfigM β) config = f config config := rfl

theorem fallible_ok {α β : Type} (a : α) (f : α → ConfigM β) (config : RuntimeConfig) :
    (fallible (.ok a) >>= f : ConfigM β) config = f a config := rfl

theorem bind_error {α β : Type} {x : ConfigM α} {f : α → ConfigM β} {config next : RuntimeConfig}
    {e : DbtNovaError} (h : x config = .error e next) : (x >>= f) config = .error e next := by
  change EStateM.bind x f config = _
  rw [EStateM.bind, h]

theorem BootstrapField.set_get (field : BootstrapField) (config : DbtNovaConfig) :
    field.set config (field.get config) = config := by
  cases field <;> rfl

theorem applyFieldIfEmpty_ok (field : BootstrapField) (value : String) (applied : List String)
    (config : RuntimeConfig) :
    applyFieldIfEmpty field value applied config =
      .ok (applied ++ (applyIfEmpty (field.get config.settings) value field.name).2)
        { config with
          settings := field.set config.settings
            (applyIfEmpty (field.get config.settings) value field.name).1 } := by
  unfold applyFieldIfEmpty applyIfEmpty
  rw [get_bind]
  cases isBlank (field.get config.settings) with
  | true => rfl
  | false =>
      simp only [Bool.false_eq_true, if_false, List.append_nil, field.set_get]
      rfl

theorem applyManifestUri_ok (value : String) (config : RuntimeConfig) :
    applyManifestUri value config =
      .ok (if shouldApplyManifestUri config.settings then ["manifest_uri"] else [])
        { config with
          settings := BootstrapField.set config.settings
            (if shouldApplyManifestUri config.settings then value
              else config.settings.manifestUri) .manifestUri } := by
  unfold applyManifestUri
  rw [get_bind]
  cases shouldApplyManifestUri config.settings <;> rfl

/-- The updates together fill in the open fields. -/
theorem fillFields_ok (bootstrap : PrebuiltAssetsBootstrap) (config : RuntimeConfig) :
    fillFields bootstrap config =
      .ok (fillOpenFields bootstrap config.settings).2
        { config with settings := (fillOpenFields bootstrap config.settings).1 } := by
  unfold fillFields
  rw [bind_ok (applyManifestUri_ok _ _), bind_ok (applyFieldIfEmpty_ok _ _ _ _),
    bind_ok (applyFieldIfEmpty_ok _ _ _ _), bind_ok (applyFieldIfEmpty_ok _ _ _ _)]
  unfold fillOpenFields
  cases hmodels : isBlank bootstrap.modelsArtifactUri with
  | true =>
      simp only [if_true, BootstrapField.get, BootstrapField.set, BootstrapField.name,
        List.append_nil]
      cases shouldApplyManifestUri config.settings <;> rfl
  | false =>
      simp only [Bool.false_eq_true, if_false, applyFieldIfEmpty_ok, BootstrapField.get,
        BootstrapField.set, BootstrapField.name]
      cases shouldApplyManifestUri config.settings <;> rfl

section Cases
variable {config : RuntimeConfig}

/-- The status of a document that was evaluated. -/
def evaluatedStatus (toLowercase : List Char → List Char) (files : Files) (config : RuntimeConfig)
    (bootstrap : PrebuiltAssetsBootstrap) : JsonValue :=
  bootstrapStatus (sanitized toLowercase (trim config.settings.bootstrapUri)) bootstrap
    (fillOpenFields bootstrap config.settings).2 files.currentTimeMs

theorem apply_blank (h : isBlank config.settings.bootstrapUri = true) :
    applyBootstrapDefaults toLowercase files config =
      .ok bootstrapDisabledStatus { config with status := some bootstrapDisabledStatus } := by
  unfold applyBootstrapDefaults
  refine (get_bind _ _).trans ?_
  simp only [h, if_true]
  rfl

theorem apply_already (h : isBlank config.settings.bootstrapUri = false) {existing : JsonValue}
    (hexisting : alreadyApplied toLowercase config = some existing) :
    applyBootstrapDefaults toLowercase files config = .ok existing config := by
  unfold applyBootstrapDefaults
  refine (get_bind _ _).trans ?_
  simp only [h, Bool.false_eq_true, if_false, hexisting]
  rfl

theorem apply_error (h : isBlank config.settings.bootstrapUri = false)
    (hnone : alreadyApplied toLowercase config = none) {e : DbtNovaError}
    (hread : readBootstrap files config = .error e) :
    applyBootstrapDefaults toLowercase files config = .error e config := by
  unfold applyBootstrapDefaults
  refine (get_bind _ _).trans ?_
  simp only [h, Bool.false_eq_true, if_false, hnone, hread]
  exact bind_error rfl

theorem apply_read (h : isBlank config.settings.bootstrapUri = false)
    (hnone : alreadyApplied toLowercase config = none) {bootstrap : PrebuiltAssetsBootstrap}
    (hread : readBootstrap files config = .ok bootstrap) :
    applyBootstrapDefaults toLowercase files config =
      .ok (evaluatedStatus toLowercase files config bootstrap)
        { config with
          settings := (fillOpenFields bootstrap config.settings).1
          status := some (evaluatedStatus toLowercase files config bootstrap) } := by
  unfold applyBootstrapDefaults
  refine (get_bind _ _).trans ?_
  simp only [h, Bool.false_eq_true, if_false, hnone, hread]
  refine (fallible_ok _ _ _).trans ((bind_ok (fillFields_ok _ _)).trans ?_)
  rfl

end Cases

section Claims
variable {config after : RuntimeConfig} {status : JsonValue}

/-- A success is an early end or an evaluation of the document that was read. -/
theorem apply_ok_cases (h : applyBootstrapDefaults toLowercase files config = .ok status after) :
    (isBlank config.settings.bootstrapUri = true ∧ status = bootstrapDisabledStatus ∧
      after = { config with status := some bootstrapDisabledStatus }) ∨
    (isBlank config.settings.bootstrapUri = false ∧
      alreadyApplied toLowercase config = some status ∧ after = config) ∨
    (isBlank config.settings.bootstrapUri = false ∧ alreadyApplied toLowercase config = none ∧
      ∃ bootstrap, readBootstrap files config = .ok bootstrap ∧
        status = evaluatedStatus toLowercase files config bootstrap ∧
        after = { config with
          settings := (fillOpenFields bootstrap config.settings).1, status := some status }) := by
  cases hblank : isBlank config.settings.bootstrapUri with
  | true =>
      rw [apply_blank hblank] at h
      cases h
      exact Or.inl ⟨rfl, rfl, rfl⟩
  | false =>
      cases hexisting : alreadyApplied toLowercase config with
      | some existing =>
          rw [apply_already hblank hexisting] at h
          cases h
          exact Or.inr (Or.inl ⟨rfl, rfl, rfl⟩)
      | none =>
          cases hread : readBootstrap files config with
          | error e =>
              rw [apply_error hblank hexisting hread] at h
              contradiction
          | ok bootstrap =>
              rw [apply_read hblank hexisting hread] at h
              cases h
              exact Or.inr (Or.inr ⟨rfl, rfl, bootstrap, rfl, rfl, rfl⟩)

theorem apply_error_unchanged {e : DbtNovaError}
    (h : applyBootstrapDefaults toLowercase files config = .error e after) : after = config := by
  cases hblank : isBlank config.settings.bootstrapUri with
  | true =>
      rw [apply_blank hblank] at h
      contradiction
  | false =>
      cases hexisting : alreadyApplied toLowercase config with
      | some existing =>
          rw [apply_already hblank hexisting] at h
          contradiction
      | none =>
          cases hread : readBootstrap files config with
          | error e =>
              rw [apply_error hblank hexisting hread] at h
              cases h
              rfl
          | ok bootstrap =>
              rw [apply_read hblank hexisting hread] at h
              contradiction

/-- The field has a value of its own, or its source was given as a path. -/
def ExplicitlySet (config : DbtNovaConfig) (field : BootstrapField) : Prop :=
  isBlank (field.get config) = false ∨
    field = .manifestUri ∧ config.manifestPathExplicit = true

theorem fillOpenFields_explicit (bootstrap : PrebuiltAssetsBootstrap) {config : DbtNovaConfig}
    {field : BootstrapField} (h : ExplicitlySet config field) :
    field.get (fillOpenFields bootstrap config).1 = field.get config := by
  have hkeeps := fillOpenFields_keeps bootstrap config
  cases h with
  | inl hgiven =>
      cases field with
      | manifestUri => exact hkeeps.manifestUri hgiven
      | storageInstanceId => exact hkeeps.storageInstanceId hgiven
      | storageArtifactUri => exact hkeeps.storageArtifactUri hgiven
      | metadataArtifactUri => exact hkeeps.metadataArtifactUri hgiven
      | modelsArtifactUri => exact hkeeps.modelsArtifactUri hgiven
  | inr hpath =>
      obtain ⟨rfl, hexplicit⟩ := hpath
      have hclosed : shouldApplyManifestUri config = false := by
        simp only [shouldApplyManifestUri, hexplicit, Bool.not_true, Bool.and_false,
          Bool.false_and]
      simp only [BootstrapField.get, fillOpenFields, hclosed, Bool.false_eq_true, if_false]

/-- Two configurations that differ in the five fields at most. -/
def SameElsewhere (config after : DbtNovaConfig) : Prop :=
  { after with
    manifestUri := config.manifestUri
    storageInstanceId := config.storageInstanceId
    storageArtifactUri := config.storageArtifactUri
    metadataArtifactUri := config.metadataArtifactUri
    modelsArtifactUri := config.modelsArtifactUri } = config

theorem fillOpenFields_elsewhere (bootstrap : PrebuiltAssetsBootstrap) (config : DbtNovaConfig) :
    SameElsewhere config (fillOpenFields bootstrap config).1 := by
  simp only [SameElsewhere, fillOpenFields]

theorem fillOpenFields_bootstrapUri (bootstrap : PrebuiltAssetsBootstrap)
    (config : DbtNovaConfig) :
    (fillOpenFields bootstrap config).1.bootstrapUri = config.bootstrapUri := by
  simp only [fillOpenFields]

theorem evaluatedStatus_uri (config : RuntimeConfig) (bootstrap : PrebuiltAssetsBootstrap) :
    (evaluatedStatus toLowercase files config bootstrap).getStr "uri" =
      some (sanitized toLowercase (trim config.settings.bootstrapUri)) := by
  rfl

/-- Applying the bootstrap again changes nothing, whatever the files hold by then. -/
theorem apply_again (h : applyBootstrapDefaults toLowercase files config = .ok status after)
    (other : Files) : applyBootstrapDefaults toLowercase other after = .ok status after := by
  obtain ⟨hblank, rfl, rfl⟩ | ⟨hblank, hexisting, rfl⟩ | ⟨hblank, -, bootstrap, -, rfl, rfl⟩ :=
    apply_ok_cases h
  · exact apply_blank hblank
  · exact apply_already hblank hexisting
  · refine apply_already ?_ ?_
    · rw [fillOpenFields_bootstrapUri]
      exact hblank
    · unfold alreadyApplied
      rw [Option.filter_some, fillOpenFields_bootstrapUri, evaluatedStatus_uri]
      simp

/-- The status that an application leaves names the sanitized URI. -/
theorem statusUri_of_ok (h : applyBootstrapDefaults toLowercase files config = .ok status after)
    (hnone : alreadyApplied toLowercase config = none) :
    after.status = some status ∧ (status.getStr "uri").getD "" =
      sanitized toLowercase (trim config.settings.bootstrapUri) := by
  obtain ⟨hblank, rfl, rfl⟩ | ⟨-, hexisting, -⟩ | ⟨-, -, bootstrap, -, rfl, rfl⟩ :=
    apply_ok_cases h
  · have htrim : trim config.settings.bootstrapUri = "" := by
      simpa only [isBlank, beq_iff_eq] using hblank
    exact ⟨rfl, by rw [htrim]; rfl⟩
  · rw [hnone] at hexisting
    contradiction
  · exact ⟨rfl, by rw [evaluatedStatus_uri]; rfl⟩

theorem sanitized_trim_inj (hlower : Redaction.Lowercases toLowercase) (uri other : String) :
    sanitized toLowercase (trim uri) = sanitized toLowercase (trim other) ↔
      Redaction.keptUri toLowercase (trim uri).toList =
        Redaction.keptUri toLowercase (trim other).toList := by
  have htrim : ∀ s : String, trimChars (trim s).toList = (trim s).toList := by
    intro s
    have h := congrArg String.toList (trim_trim s)
    rwa [trim, String.toList_ofList] at h
  unfold sanitized
  rw [hlower.sanitizeUri_trimChars, hlower.sanitizeUri_trimChars, htrim, htrim]
  exact ⟨fun h => String.ofList_injective h, fun h => congrArg String.ofList h⟩

/-- Two URIs that keep different texts when queries, fragments, credentials and sensitive path
segments are taken out, unless they are equal. -/
def KeptApart (toLowercase : List Char → List Char) (applied configured : String) : Prop :=
  Redaction.keptUri toLowercase applied.toList = Redaction.keptUri toLowercase configured.toList →
    configured = applied

/-- URIs without these parts are kept apart. -/
theorem keptApart_of_plain {applied configured : String}
    (happlied : Redaction.PlainUri toLowercase applied.toList)
    (hconfigured : Redaction.PlainUri toLowercase configured.toList) :
    KeptApart toLowercase applied configured := by
  intro hkept
  rw [happlied.keptUri_eq, hconfigured.keptUri_eq] at hkept
  exact (String.toList_inj.mp hkept).symm

theorem alreadyApplied_isSome_iff {later : RuntimeConfig}
    (h : applyBootstrapDefaults toLowercase files config = .ok status after)
    (hnone : alreadyApplied toLowercase config = none) (hlater : later.status = after.status) :
    (alreadyApplied toLowercase later).isSome = true ↔
      sanitized toLowercase (trim config.settings.bootstrapUri) =
        sanitized toLowercase (trim later.settings.bootstrapUri) := by
  obtain ⟨hstatus, huri⟩ := statusUri_of_ok h hnone
  unfold alreadyApplied
  rw [hlater, hstatus, Option.filter_some, huri]
  by_cases heq : sanitized toLowercase (trim config.settings.bootstrapUri) =
      sanitized toLowercase (trim later.settings.bootstrapUri) <;> simp [heq]

end Claims

/-! ## The configuration that others see -/

def statusView (status : JsonValue) : BootstrapStatus where
  uri := (status.getStr "uri").getD ""
  appliedFields := (status.getArray "applied_fields").filterMap asStr

/-- The settings with the parts of the status that are read back. -/
def RuntimeConfig.view (config : RuntimeConfig) : DbtNovaConfig :=
  { config.settings with bootstrapStatus := config.status.map statusView }

theorem statusView_evaluated (config : RuntimeConfig) (bootstrap : PrebuiltAssetsBootstrap) :
    statusView (evaluatedStatus toLowercase files config bootstrap) =
      ⟨sanitized toLowercase (trim config.settings.bootstrapUri),
        (fillOpenFields bootstrap config.settings).2⟩ := by
  have hfields : ∀ fields : List String,
      (fields.map JsonValue.string).filterMap asStr = fields := by
    intro fields
    induction fields with
    | nil => rfl
    | cons field fields ih => simpa [asStr] using ih
  have happlied : ∀ uri fields evaluatedAtMs,
      (bootstrapStatus uri bootstrap fields evaluatedAtMs).getArray "applied_fields" =
        fields.map .string := fun _ _ _ => rfl
  unfold statusView
  rw [evaluatedStatus_uri, evaluatedStatus, happlied, hfields, Option.getD_some]

theorem fillOpenFields_view (bootstrap : PrebuiltAssetsBootstrap) (config : RuntimeConfig) :
    fillOpenFields bootstrap config.view =
      ({ (fillOpenFields bootstrap config.settings).1 with
          bootstrapStatus := config.status.map statusView },
        (fillOpenFields bootstrap config.settings).2) := by
  have hsource : shouldApplyManifestUri config.view =
      shouldApplyManifestUri config.settings := by
    simp only [shouldApplyManifestUri, RuntimeConfig.view]
  simp only [fillOpenFields, hsource]
  simp only [RuntimeConfig.view]

/-- On what others see this is the application of the document that was read. -/
theorem applyBootstrapDefaults_view {config after : RuntimeConfig} {status : JsonValue}
    (h : applyBootstrapDefaults toLowercase files config = .ok status after) (m : Machine)
    (hsanitize : m.sanitizeUri = sanitized toLowercase) {bootstrap : PrebuiltAssetsBootstrap}
    (hread : readBootstrap files config = .ok bootstrap) (hvalid : bootstrap.validate = .ok ())
    (hmodels : validateModelsMetadataContract m config.view bootstrap = .ok ()) :
    Bootstrap.applyBootstrapDefaults m bootstrap config.view = .ok after.view := by
  have huri : config.view.bootstrapUri = config.settings.bootstrapUri := rfl
  have hany : (config.view.bootstrapStatus.any fun status =>
      status.uri == m.sanitizeUri (trim config.view.bootstrapUri)) =
      (alreadyApplied toLowercase config).isSome := by
    rw [hsanitize, huri]
    unfold alreadyApplied RuntimeConfig.view
    cases config.status with
    | none => rfl
    | some existing =>
        rw [Option.map_some, Option.any_some, Option.filter_some]
        unfold statusView
        cases (existing.getStr "uri").getD "" ==
          sanitized toLowercase (trim config.settings.bootstrapUri) <;> rfl
  unfold Bootstrap.applyBootstrapDefaults
  rw [hany, huri]
  obtain ⟨hblank, rfl, rfl⟩ | ⟨hblank, hexisting, rfl⟩ | ⟨hblank, hnone, other, hother, rfl, rfl⟩ :=
    apply_ok_cases h
  · rw [hblank]
    rfl
  · rw [hblank, hexisting]
    rfl
  · rw [hread] at hother
    cases hother
    rw [hblank, hnone, hvalid]
    simp only [Bool.false_eq_true, if_false, Option.isSome_none, bind, Except.bind, hmodels,
      fillOpenFields_view, hsanitize]
    simp only [RuntimeConfig.view, Option.map_some, statusView_evaluated,
      fillOpenFields_bootstrapUri]

/-- An error leaves the configuration as it was; a success changes none of the fields that were
given and nothing outside the five fields and the status; and a second application changes
nothing. A configuration that has the status of an evaluation is taken as already applied only
for the URI that was evaluated, exactly when that URI and the configured one are kept apart. -/
theorem bootstrap_application_iff (hlower : Redaction.Lowercases toLowercase) (files : Files)
    (config : RuntimeConfig) :
    (∀ e after, applyBootstrapDefaults toLowercase files config = .error e after →
      after = config) ∧
    ∀ status after, applyBootstrapDefaults toLowercase files config = .ok status after →
      (∀ explicit : Set BootstrapField,
        (∀ field ∈ explicit, ExplicitlySet config.settings field) →
          ∀ field ∈ explicit, field.get after.settings = field.get config.settings) ∧
      SameElsewhere config.settings after.settings ∧
      (∀ other, applyBootstrapDefaults toLowercase other after = .ok status after) ∧
      (alreadyApplied toLowercase config = none → ∀ later : RuntimeConfig,
        later.status = after.status → isBlank later.settings.bootstrapUri = false →
          (((alreadyApplied toLowercase later).isSome = true →
              trim later.settings.bootstrapUri = trim config.settings.bootstrapUri) ↔
            KeptApart toLowercase (trim config.settings.bootstrapUri)
              (trim later.settings.bootstrapUri))) := by
  refine ⟨fun e after => apply_error_unchanged, fun status after h => ⟨?_, ?_, ?_, ?_⟩⟩
  · intro explicit hexplicit field hfield
    obtain ⟨-, -, rfl⟩ | ⟨-, -, rfl⟩ | ⟨-, -, bootstrap, -, -, rfl⟩ := apply_ok_cases h
    · rfl
    · rfl
    · exact fillOpenFields_explicit bootstrap (hexplicit field hfield)
  · obtain ⟨-, -, rfl⟩ | ⟨-, -, rfl⟩ | ⟨-, -, bootstrap, -, -, rfl⟩ := apply_ok_cases h
    · rfl
    · rfl
    · exact fillOpenFields_elsewhere bootstrap config.settings
  · exact apply_again h
  · intro hnone later hlater _
    rw [alreadyApplied_isSome_iff h hnone hlater, sanitized_trim_inj hlower]
    rfl

/-! ### A URI with another query -/

/-- Files that hold one document and a metadata contract with a models archive. -/
def storedFiles : Files where
  resolveArtifactUriToLocal := fun _ _ uri => .ok uri
  ensureRegularFile := fun _ _ => .ok ()
  readSmallTextFile := fun path _ => .ok path
  bootstrapFromJson := fun _ => .ok modelsDocument
  metadataFromJson := fun _ => .ok "models"
  currentTimeMs := 0

def configured (uri : String) : RuntimeConfig where
  settings := { bootstrapUri := uri }
  manifestMaxBytes := 1024

theorem bootstrap_application_configured :
    (∀ e after, applyBootstrapDefaults (List.map Char.toLower) storedFiles
      (configured "https://host/nova.json") = .error e after →
      after = configured "https://host/nova.json") ∧
    ∀ status after, applyBootstrapDefaults (List.map Char.toLower) storedFiles
        (configured "https://host/nova.json") = .ok status after →
      (∀ explicit : Set BootstrapField,
        (∀ field ∈ explicit,
          ExplicitlySet (configured "https://host/nova.json").settings field) →
          ∀ field ∈ explicit, field.get after.settings =
            field.get (configured "https://host/nova.json").settings) ∧
      SameElsewhere (configured "https://host/nova.json").settings after.settings ∧
      (∀ other, applyBootstrapDefaults (List.map Char.toLower) other after = .ok status after) ∧
      (alreadyApplied (List.map Char.toLower) (configured "https://host/nova.json") = none →
        ∀ later : RuntimeConfig, later.status = after.status →
          isBlank later.settings.bootstrapUri = false →
          (((alreadyApplied (List.map Char.toLower) later).isSome = true →
              trim later.settings.bootstrapUri =
                trim (configured "https://host/nova.json").settings.bootstrapUri) ↔
            KeptApart (List.map Char.toLower)
              (trim (configured "https://host/nova.json").settings.bootstrapUri)
              (trim later.settings.bootstrapUri))) :=
  bootstrap_application_iff Redaction.lowercases_map_toLower storedFiles
    (configured "https://host/nova.json")

/-- The version in the query is another one, and the earlier evaluation is taken for it. -/
theorem other_query_already_applied :
    ∃ status after, applyBootstrapDefaults (List.map Char.toLower) storedFiles
        (configured "https://host/nova.json?v=1") = .ok status after ∧
      alreadyApplied (List.map Char.toLower)
        { after with
          settings := { after.settings with bootstrapUri := "https://host/nova.json?v=2" } } =
        some status ∧
      trim "https://host/nova.json?v=2" ≠ trim "https://host/nova.json?v=1" := by
  have hread : readBootstrap storedFiles (configured "https://host/nova.json?v=1") =
      .ok modelsDocument := by
    rfl
  have hblank : isBlank (configured "https://host/nova.json?v=1").settings.bootstrapUri =
      false := by
    decide
  refine ⟨_, _, apply_read hblank rfl hread, ?_, by decide⟩
  have hsame : sanitized (List.map Char.toLower) (trim "https://host/nova.json?v=1") =
      sanitized (List.map Char.toLower) (trim "https://host/nova.json?v=2") := by
    decide +kernel
  unfold alreadyApplied
  rw [Option.filter_some, evaluatedStatus_uri]
  simp only [configured, Option.getD_some, hsame, beq_self_eq_true, if_true]

end Runs

end DbtNova.BootstrapShortcut
