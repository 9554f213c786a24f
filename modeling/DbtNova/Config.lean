import DbtNova.Error
import DbtNova.Json
import DbtNova.Text

/-!
# Runtime configuration

The fields that the modelled parts of the server read or write, with the
defaults of the source. A floating point setting is kept by the number text the
serializer prints for it; validation refuses those that have none. What the code
asks of the machine it runs on (canonical paths, hashes, the resolution of a
bootstrap contract) is one record of functions, `World`; nothing is assumed about
them here.
-/
namespace DbtNova
open Text

inductive ArtifactFetchPolicy where
  | ifMissing
  | always
  | never
  deriving DecidableEq, Repr

inductive ExtendedMetaFieldMode where
  | keyword
  | text
  | stringArray
  | bool
  deriving DecidableEq, Repr

structure ExtendedMetaFieldConfig where
  path : String
  fieldAlias : String
  mode : ExtendedMetaFieldMode := .keyword
  boost : JsonValue.NumberText := ⟨"1.0", rfl⟩
  summary : Bool := false
  deriving DecidableEq, Repr

structure ExtendedMetaSearchConfig where
  fields : List ExtendedMetaFieldConfig := []
  maxFields : ℕ := 32
  maxValuesPerField : ℕ := 64
  maxBytesPerValue : ℕ := 4096
  deriving DecidableEq, Repr

structure SearchConfig where
  maxSqlChunkBytes : ℕ := 256 * 1024
  enableNgram : Bool := true
  ngramMin : ℕ := 3
  ngramMax : ℕ := 3
  extendedMeta : ExtendedMetaSearchConfig := {}
  embeddingModel : String := "intfloat/multilingual-e5-base"
  embeddingCacheDir : String := ""
  vectorMaxChars : ℕ := 4000
  deriving DecidableEq, Repr

/-- The parts of the bootstrap status object that are read back. -/
structure BootstrapStatus where
  uri : String
  appliedFields : List String
  deriving DecidableEq, Repr

structure DbtNovaConfig where
  manifestPath : String := "manifest.json"
  manifestPathExplicit : Bool := false
  catalogPath : String := ""
  manifestUri : String := ""
  manifestCacheDir : String := ""
  manifestRefreshSecs : ℕ := 300
  manifestPruneAllowIds : List String := []
  manifestPruneDenyIds : List String := []
  storageDir : String := ".dbt-nova"
  storageInstanceId : String := ""
  storageReadOnly : Bool := false
  storageArtifactUri : String := ""
  metadataArtifactUri : String := ""
  modelsArtifactUri : String := ""
  artifactsCacheDir : String := ""
  bootstrapUri : String := ""
  artifactFetchPolicy : ArtifactFetchPolicy := .ifMissing
  artifactMaxBytes : ℕ := 3 * 1024 * 1024 * 1024
  artifactArchiveMaxEntries : ℕ := 200000
  artifactArchiveMaxUncompressedBytes : ℕ := 10 * 1024 * 1024 * 1024
  search : SearchConfig := {}
  bootstrapStatus : Option BootstrapStatus := none
  deriving DecidableEq, Repr

/-- The machine as one call finds it. `prepareRuntimeConfig` resolves and applies
the bootstrap contract, fills in identities and validates. -/
structure World where
  canonicalize : String → Option String
  blake3Hex : String → String
  prepareRuntimeConfig : DbtNovaConfig → Result DbtNovaConfig

def isBlank (s : String) : Bool := trim s == ""

theorem isBlank_of_mem {s : String} {c : Char} (h : c ∈ s.toList) (hc : isWhitespace c = false) :
    isBlank s = false := by
  have hmem := mem_trimChars h hc
  have hne : trim s ≠ "" := by
    intro hempty
    have hnil := congrArg String.toList hempty
    rw [trim, String.toList_ofList] at hnil
    rw [hnil] at hmem
    cases hmem
  simpa only [isBlank, beq_eq_false_iff_ne] using hne

def ensureStorageInstanceId (w : World) (config : DbtNovaConfig) : DbtNovaConfig :=
  if !isBlank config.storageInstanceId then config
  else
    let seed :=
      if isBlank config.manifestUri then
        (w.canonicalize config.manifestPath).getD config.manifestPath
      else config.manifestUri
    { config with
      storageInstanceId :=
        "manifest-" ++ String.ofList ((w.blake3Hex seed).toList.take 12) }

theorem ensureStorageInstanceId_isBlank (w : World) (config : DbtNovaConfig) :
    isBlank (ensureStorageInstanceId w config).storageInstanceId = false := by
  unfold ensureStorageInstanceId
  cases h : isBlank config.storageInstanceId with
  | false => simpa only [Bool.not_false, if_true] using h
  | true =>
      simp only [Bool.not_true, Bool.false_eq_true, if_false]
      have hm : 'm' ∈ ("manifest-" : String).toList := by decide
      refine isBlank_of_mem ?_ (show isWhitespace 'm' = false by decide)
      rw [String.toList_append]
      exact List.mem_append_left _ hm

/-! ## Reload edits -/

structure ReloadManifestParams where
  manifestUri : Option String := none
  manifestPath : Option String := none
  refreshSecs : Option ℕ := none
  storageInstanceId : Option String := none
  deriving DecidableEq, Repr

def autoInstanceId (w : World) (config : DbtNovaConfig) : String :=
  (ensureStorageInstanceId w { config with storageInstanceId := "" }).storageInstanceId

/-- A parameter that is present and not blank, trimmed. -/
def givenText (param : Option String) : Option String :=
  (param.map trim).filter fun s => s != ""

/-- A new source drops a storage identity that was derived from the old one. -/
def resetDerivedInstanceId (w : World) (previous next : DbtNovaConfig) : DbtNovaConfig :=
  let previousId := trim previous.storageInstanceId
  if previousId = "" ∨ previousId = autoInstanceId w previous then
    { next with storageInstanceId := "" }
  else next

/-- The edits of one reload request, before the bootstrap is consulted. -/
def editForReload (w : World) (params : ReloadManifestParams) (previous : DbtNovaConfig) :
    DbtNovaConfig :=
  let next :=
    match givenText params.manifestUri with
    | some uri => { previous with manifestUri := uri }
    | none => previous
  let next :=
    match givenText params.manifestPath with
    | some path =>
        { next with manifestPath := path, manifestPathExplicit := true, manifestUri := "" }
    | none => next
  let next :=
    match params.refreshSecs with
    | some secs => { next with manifestRefreshSecs := secs }
    | none => next
  let changedSource :=
    (givenText params.manifestUri).isSome || (givenText params.manifestPath).isSome
  -- A blank instance id is neither applied nor treated as absent.
  match params.storageInstanceId with
  | some _ =>
      match givenText params.storageInstanceId with
      | some id => { next with storageInstanceId := id }
      | none => next
  | none => if changedSource then resetDerivedInstanceId w previous next else next

def resetAppliedField (explicitManifestSource explicitStorageInstanceId : Bool)
    (next : DbtNovaConfig) (field : String) : DbtNovaConfig :=
  if field = "manifest_uri" ∧ !explicitManifestSource then { next with manifestUri := "" }
  else if field = "storage_instance_id" ∧ !explicitStorageInstanceId then
    { next with storageInstanceId := "" }
  else if field = "storage_artifact_uri" then { next with storageArtifactUri := "" }
  else if field = "metadata_artifact_uri" then { next with metadataArtifactUri := "" }
  else if field = "models_artifact_uri" then { next with modelsArtifactUri := "" }
  else next

def resetBootstrapAppliedFieldsForReload (next : DbtNovaConfig)
    (bootstrapStatus : Option BootstrapStatus)
    (explicitManifestSource explicitStorageInstanceId : Bool) : DbtNovaConfig :=
  match bootstrapStatus with
  | none => next
  | some status =>
      status.appliedFields.foldl
        (resetAppliedField explicitManifestSource explicitStorageInstanceId) next

def bootstrapReloadFetchPolicy (config : DbtNovaConfig) : ArtifactFetchPolicy :=
  if isBlank config.bootstrapUri then config.artifactFetchPolicy else .always

/-- The bootstrap is evaluated again on every reload; the fetch policy is lifted
for this call only. -/
def prepareRuntimeConfigForReload (w : World) (config : DbtNovaConfig) :
    Result DbtNovaConfig := do
  let prepared ← w.prepareRuntimeConfig
    { config with
      bootstrapStatus := none, artifactFetchPolicy := bootstrapReloadFetchPolicy config }
  pure { prepared with artifactFetchPolicy := config.artifactFetchPolicy }

/-- The configuration a reload request asks for, from the one it read. -/
def reloadConfig (w : World) (params : ReloadManifestParams) (previous : DbtNovaConfig) :
    Result DbtNovaConfig :=
  let explicitManifestSource :=
    (givenText params.manifestUri).isSome || (givenText params.manifestPath).isSome
  let explicitStorageInstanceId := (givenText params.storageInstanceId).isSome
  prepareRuntimeConfigForReload w
    (resetBootstrapAppliedFieldsForReload (editForReload w params previous)
      previous.bootstrapStatus explicitManifestSource explicitStorageInstanceId)

end DbtNova
