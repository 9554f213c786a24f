import DbtNova.Fingerprint

/-!
# Signatures of manifest sources

The loader and the refresh loop both turn a source into a hash. The loader mixes
a catalog into the content hash, explicit or found beside the manifest; the
refresh loop hashes the manifest alone. Both add the fingerprints of the
configuration. Errors are kept as the texts they print.

The configuration is the prepared one that the handle stores. A version that is
served while another process holds the build lock was built from the files and
the configuration of that process, so its hash is the loader's for those. The
read-only match with the older storage format is left out of the comparison: the
refresh loop does not run there.
-/
namespace DbtNova.ManifestSignature
open Fingerprint Text

structure ManifestResolution where
  localPath : String
  sourceUri : String
  deriving DecidableEq, Repr

structure ManifestFile where
  content : List UInt8
  modifiedMs : ℕ
  deriving DecidableEq, Repr

/-- The files and the providers as one call finds them. `siblingCatalog` is the
path of the `catalog.json` in the directory of a local file, when it exists. -/
structure Machine where
  resolveProvider : String → Except String ManifestResolution
  readFile : String → Except String ManifestFile
  siblingCatalog : String → Option String

def resolveManifest (m : Machine) (config : DbtNovaConfig) :
    Except String ManifestResolution :=
  let uri :=
    if isBlank config.manifestUri then trim config.manifestPath else trim config.manifestUri
  if uri = "" then .error "Invalid parameter: manifest path/uri cannot be empty"
  else m.resolveProvider uri

/-- The resolution of a catalog path, as a manifest of its own. -/
def resolveCatalogPath (m : Machine) (config : DbtNovaConfig) (path label : String) :
    Except String (Option ManifestResolution) :=
  let catalogConfig :=
    { config with manifestUri := "", manifestPath := path, manifestPathExplicit := true }
  match resolveManifest m catalogConfig with
  | .ok resolution => .ok (some resolution)
  | .error err => .error ("Manifest error: Failed to resolve " ++ label ++ ": " ++ err)

def resolveCatalog (m : Machine) (config : DbtNovaConfig) (manifest : ManifestResolution) :
    Except String (Option ManifestResolution) :=
  let explicitCatalog := trim config.catalogPath
  if explicitCatalog ≠ "" then resolveCatalogPath m config explicitCatalog "catalog"
  else
    match m.siblingCatalog manifest.localPath with
    | none => .ok none
    | some path => resolveCatalogPath m config path "sibling catalog"

/-- A resolved file together with what was read from it. -/
structure Source where
  resolution : ManifestResolution
  file : ManifestFile
  deriving DecidableEq, Repr

def readSource (m : Machine) (label : String) (resolution : ManifestResolution) :
    Except String Source :=
  match m.readFile resolution.localPath with
  | .ok file => .ok ⟨resolution, file⟩
  | .error err =>
      .error ("Manifest error: Failed to read " ++ label ++ " file " ++ resolution.sourceUri ++
        ": " ++ err)

structure Sources where
  manifest : Source
  catalog : Option Source
  deriving DecidableEq, Repr

def readCatalog (m : Machine) : Option ManifestResolution → Except String (Option Source)
  | none => .ok none
  | some resolution => (readSource m "catalog" resolution).map some

/-- What the loader reads to build a version. -/
def readSources (m : Machine) (config : DbtNovaConfig) : Except String Sources := do
  let manifestResolution ← resolveManifest m config
  let catalogResolution ← resolveCatalog m config manifestResolution
  let manifest ← readSource m "manifest" manifestResolution
  let catalog ← readCatalog m catalogResolution
  pure ⟨manifest, catalog⟩

structure Signature where
  path : String := ""
  len : ℕ := 0
  modifiedMs : ℕ := 0
  contentHash : String := ""
  pruneFingerprint : String := ""
  searchIndexFingerprint : String := ""
  storageFormatVersion : String := ""
  sourceUri : String := ""
  deriving DecidableEq, Repr

def effectiveStorageFormatVersion (signature : Signature) : String :=
  if signature.storageFormatVersion = "" then legacyStorageFormatVersion
  else signature.storageFormatVersion

def manifestSignature (b : Blake3) (source : Source) : Signature where
  path := source.resolution.localPath
  len := source.file.content.length
  modifiedMs := source.file.modifiedMs
  contentHash := b.hex source.file.content
  storageFormatVersion := storageFormatVersion
  sourceUri := source.resolution.sourceUri

def catalogPayload (b : Blake3) (manifestHash : String) (catalog : Source) : JsonValue :=
  .object
    [("catalog_hash", .string (manifestSignature b catalog).contentHash),
      ("catalog_len", .ofNat (manifestSignature b catalog).len),
      ("catalog_source_uri", .string catalog.resolution.sourceUri),
      ("manifest_hash", .string manifestHash)]

def applyCatalogSignature (b : Blake3) (signature : Signature) (catalog : Source) : Signature :=
  { signature with
    contentHash := b.hashJson (catalogPayload b signature.contentHash catalog)
    sourceUri := signature.sourceUri ++ " | catalog:" ++ catalog.resolution.sourceUri }

def scopedManifestHash (b : Blake3) (signature : Signature) : String :=
  if signature.pruneFingerprint = "" ∧ signature.searchIndexFingerprint = "" then
    signature.contentHash
  else
    b.hashJson (.object
      [("content_hash", .string signature.contentHash),
        ("prune_fingerprint", .string signature.pruneFingerprint),
        ("search_index_fingerprint", .string signature.searchIndexFingerprint)])

def withFingerprints (b : Blake3) (config : DbtNovaConfig) (signature : Signature) : Signature :=
  { signature with
    pruneFingerprint := manifestPruneFingerprint b config
    searchIndexFingerprint := indexFingerprint b config.search }

/-- The signature the loader asks the storage for. -/
def requestedSignature (b : Blake3) (config : DbtNovaConfig) (sources : Sources) : Signature :=
  let signature := manifestSignature b sources.manifest
  let signature :=
    match sources.catalog with
    | some catalog => applyCatalogSignature b signature catalog
    | none => signature
  withFingerprints b config signature

def scopedRefreshManifestHash (b : Blake3) (signature : Signature) (config : DbtNovaConfig) :
    String :=
  scopedManifestHash b (withFingerprints b config signature)

/-- The hash a round of the refresh loop computes. -/
def refreshHash (b : Blake3) (m : Machine) (config : DbtNovaConfig) : Except String String := do
  let resolution ← resolveManifest m config
  let manifest ← (m.readFile resolution.localPath).map (Source.mk resolution)
  pure (scopedRefreshManifestHash b (manifestSignature b manifest) config)

/-- Whether the round goes on to claim the state for a rebuild. -/
def refreshStartsRebuild (b : Blake3) (m : Machine) (config : DbtNovaConfig)
    (activeHash : String) : Bool :=
  match refreshHash b m config with
  | .ok hash => hash != activeHash
  | .error _ => false

def manifestSignatureMatchesForReuse (existing expected : Signature) : Bool :=
  existing.contentHash != "" && expected.contentHash != "" &&
    existing.contentHash == expected.contentHash &&
    existing.pruneFingerprint == expected.pruneFingerprint &&
    existing.searchIndexFingerprint == expected.searchIndexFingerprint &&
    effectiveStorageFormatVersion existing == effectiveStorageFormatVersion expected

/-! ## The two hashes compared -/

/-- The text whose hash becomes the content hash of the version. -/
def signedContent (b : Blake3) (sources : Sources) : List UInt8 :=
  match sources.catalog with
  | none => sources.manifest.file.content
  | some catalog =>
      textBytes (catalogPayload b (b.hex sources.manifest.file.content) catalog).toText

theorem requestedSignature_contentHash (b : Blake3) (config : DbtNovaConfig)
    (sources : Sources) :
    (requestedSignature b config sources).contentHash = b.hex (signedContent b sources) := by
  obtain ⟨manifest, catalog⟩ := sources
  cases catalog <;> rfl

theorem requestedSignature_search (b : Blake3) (config : DbtNovaConfig) (sources : Sources) :
    (requestedSignature b config sources).searchIndexFingerprint =
      indexFingerprint b config.search := rfl

/-- Scoped hashes tell their three parts apart. -/
theorem scopedManifestHash_eq_iff (b : Blake3) {s t : Signature}
    (hs : s.searchIndexFingerprint ≠ "") (ht : t.searchIndexFingerprint ≠ "") :
    scopedManifestHash b s = scopedManifestHash b t ↔
      s.contentHash = t.contentHash ∧ s.pruneFingerprint = t.pruneFingerprint ∧
        s.searchIndexFingerprint = t.searchIndexFingerprint := by
  have hwf (u : Signature) :
      (JsonValue.object [("content_hash", .string u.contentHash),
        ("prune_fingerprint", .string u.pruneFingerprint),
        ("search_index_fingerprint", .string u.searchIndexFingerprint)]).wellFormed = true := by
    simp [JsonValue.wellFormed, JsonValue.wellFormedFields_iff]
  simp only [scopedManifestHash, hs, ht, and_false, if_false]
  rw [b.hashJson_inj (hwf s) (hwf t)]
  simp

/-- The part of the configuration that decides what a version contains, as the
loader identifies it. -/
def SameIndexConfig (c c' : DbtNovaConfig) : Prop :=
  SamePruning c c' ∧ SameExtendedMeta c.search.extendedMeta c'.search.extendedMeta

theorem withFingerprints_hash_eq_iff (b : Blake3) (c c' : DbtNovaConfig) (s t : Signature) :
    scopedManifestHash b (withFingerprints b c s) =
        scopedManifestHash b (withFingerprints b c' t) ↔
      s.contentHash = t.contentHash ∧ SameIndexConfig c c' := by
  rw [scopedManifestHash_eq_iff b (indexFingerprint_ne_empty b c.search)
    (indexFingerprint_ne_empty b c'.search)]
  simp only [withFingerprints, manifestPruneFingerprint_eq_iff, indexFingerprint_eq_iff,
    SameIndexConfig]

theorem refreshHash_eq {b : Blake3} {m : Machine} {config : DbtNovaConfig} {sources : Sources}
    (hread : readSources m config = .ok sources) :
    refreshHash b m config =
      .ok (scopedRefreshManifestHash b (manifestSignature b sources.manifest) config) := by
  simp only [readSources, bind_eq_ok] at hread
  obtain ⟨resolution, hres, catalogResolution, -, manifest, hmanifest, catalog, -, hpure⟩ := hread
  cases hpure
  unfold readSource at hmanifest
  split at hmanifest
  · rename_i file hfile
    cases hmanifest
    simp only [refreshHash, hres, bind, Except.bind, hfile, Except.map, pure, Except.pure]
  · cases hmanifest

/-- A version found on disk and matched has the hash of the requested one. -/
theorem scopedManifestHash_of_matches (b : Blake3) {existing expected : Signature}
    (hmatch : manifestSignatureMatchesForReuse existing expected = true) :
    scopedManifestHash b existing = scopedManifestHash b expected := by
  simp only [manifestSignatureMatchesForReuse, Bool.and_eq_true, beq_iff_eq] at hmatch
  obtain ⟨⟨⟨⟨-, hcontent⟩, hprune⟩, hsearch⟩, -⟩ := hmatch
  simp only [scopedManifestHash, hcontent, hprune, hsearch]

/-- How the loader came to the signature it serves. -/
def Selected (existing requested : Signature) : Prop :=
  existing = requested ∨ manifestSignatureMatchesForReuse existing requested = true

theorem Selected.hash {b : Blake3} {existing requested : Signature}
    (hsel : Selected existing requested) :
    scopedManifestHash b existing = scopedManifestHash b requested := by
  rcases hsel with rfl | hmatch
  · rfl
  · exact scopedManifestHash_of_matches b hmatch

/-- The refresh hash of some files is the stored hash of others exactly when the
manifest is the signed content and the index configuration is the same. -/
theorem refreshHash_stored_iff (b : Blake3) {c₀ c : DbtNovaConfig} {src₀ src : Sources}
    {existing : Signature} (hsel : Selected existing (requestedSignature b c₀ src₀)) :
    scopedRefreshManifestHash b (manifestSignature b src.manifest) c =
        scopedManifestHash b existing ↔
      src.manifest.file.content = signedContent b src₀ ∧ SameIndexConfig c c₀ := by
  rw [hsel.hash, scopedRefreshManifestHash]
  have hcontent := requestedSignature_contentHash b c₀ src₀
  have hrequested : requestedSignature b c₀ src₀ =
      withFingerprints b c₀ (requestedSignature b c₀ src₀) := rfl
  rw [hrequested, withFingerprints_hash_eq_iff, hcontent]
  simp only [manifestSignature, b.injective.eq_iff]

def Sources.catalogContent (sources : Sources) : Option (List UInt8) :=
  sources.catalog.map fun catalog => catalog.file.content

/-- Something that a version depends on is different. -/
def Changed (c₀ c : DbtNovaConfig) (src₀ src : Sources) : Prop :=
  src.manifest.file.content ≠ src₀.manifest.file.content ∨
    src.catalogContent ≠ src₀.catalogContent ∨ ¬ SameIndexConfig c c₀

/-- No catalog takes part in the build; the second case is a manifest that is
itself the text its catalog signature hashes. -/
def CatalogUnmixed (b : Blake3) (src : Sources) : Prop :=
  ∀ catalog, src.catalog = some catalog →
    src.manifest.file.content =
      textBytes (catalogPayload b (b.hex src.manifest.file.content) catalog).toText

theorem catalogUnmixed_iff (b : Blake3) (src : Sources) :
    CatalogUnmixed b src ↔ src.manifest.file.content = signedContent b src := by
  obtain ⟨manifest, catalog⟩ := src
  cases catalog <;> simp [CatalogUnmixed, signedContent]

theorem SameIndexConfig.refl (c : DbtNovaConfig) : SameIndexConfig c c :=
  ⟨⟨rfl, rfl⟩, ⟨List.Perm.refl _, rfl, rfl, rfl⟩⟩

theorem startsRebuild_iff {b : Blake3} {m : Machine} {c₀ c : DbtNovaConfig}
    {src₀ src : Sources} {existing : Signature} (hread : readSources m c = .ok src)
    (hsel : Selected existing (requestedSignature b c₀ src₀)) :
    refreshStartsRebuild b m c (scopedManifestHash b existing) = true ↔
      ¬ (src.manifest.file.content = signedContent b src₀ ∧ SameIndexConfig c c₀) := by
  rw [refreshStartsRebuild, refreshHash_eq hread]
  simp only [bne_iff_ne, ne_eq, refreshHash_stored_iff b hsel]

/-- The refresh loop agrees with the loader exactly for sources without a
catalog, as long as no catalog change comes alone. -/
theorem refresh_detects_change_iff (b : Blake3) (m₀ m : Machine) (c₀ c : DbtNovaConfig)
    (src₀ src : Sources) (existing : Signature) (hread₀ : readSources m₀ c₀ = .ok src₀)
    (hread : readSources m c = .ok src)
    (hsel : Selected existing (requestedSignature b c₀ src₀)) :
    (refreshHash b m₀ c₀ = .ok (scopedManifestHash b existing) ∧
        (refreshStartsRebuild b m c (scopedManifestHash b existing) = true ↔
          Changed c₀ c src₀ src)) ↔
      (CatalogUnmixed b src₀ ∧
        (src.manifest.file.content = src₀.manifest.file.content → SameIndexConfig c c₀ →
          src.catalogContent = src₀.catalogContent)) := by
  have hfirst : refreshHash b m₀ c₀ = .ok (scopedManifestHash b existing) ↔
      CatalogUnmixed b src₀ := by
    rw [refreshHash_eq hread₀, Except.ok.injEq, refreshHash_stored_iff b hsel,
      catalogUnmixed_iff]
    exact and_iff_left (SameIndexConfig.refl c₀)
  rw [hfirst, startsRebuild_iff hread hsel]
  refine and_congr_right fun hunmixed => ?_
  rw [← (catalogUnmixed_iff b src₀).mp hunmixed]
  constructor
  · intro hdetect hmanifest hconfig
    by_contra hcatalog
    exact hdetect.mpr (.inr (.inl hcatalog)) ⟨hmanifest, hconfig⟩
  · intro hcatalog
    constructor
    · intro hdiffers
      by_cases hmanifest : src.manifest.file.content = src₀.manifest.file.content
      · exact .inr (.inr fun hconfig => hdiffers ⟨hmanifest, hconfig⟩)
      · exact .inl hmanifest
    · rintro (hmanifest | hchanged | hconfig) ⟨hsame, hsameConfig⟩
      · exact hmanifest hsame
      · exact hchanged (hcatalog hsame hsameConfig)
      · exact hconfig hsameConfig

/-- A hash for examples: one byte of the input, then all of it spelled out. -/
def spelledBlake3 : Blake3 where
  hex bytes :=
    String.ofList (Char.ofNat (bytes.getD 18 120).toNat ::
      bytes.map fun byte => Char.ofNat byte.toNat)
  injective := by
    intro x y h
    have hlist := (List.cons.inj (String.ofList_injective h)).2
    refine (List.map_injective_iff.mpr ?_) hlist
    intro a b hab
    have hnat := congrArg Char.toNat hab
    have hbyte : ∀ n < 256, (Char.ofNat n).toNat = n := by decide +kernel
    rw [hbyte _ a.toNat_lt, hbyte _ b.toNat_lt] at hnat
    exact UInt8.toNat_inj.mp hnat
  nonempty := by
    intro bytes h
    simpa using congrArg String.toList h

/-- Local files only; the catalog beside the manifest may be missing. -/
def localMachine (manifest : List UInt8) (catalog : Option (List UInt8)) : Machine where
  resolveProvider uri := .ok ⟨uri, uri⟩
  readFile path :=
    if path = "manifest.json" then .ok ⟨manifest, 0⟩
    else
      match catalog with
      | some content => .ok ⟨content, 0⟩
      | none => .error "No such file or directory"
  siblingCatalog _ := catalog.map fun _ => "catalog.json"

def localSources (manifest : List UInt8) (catalog : Option (List UInt8)) : Sources where
  manifest := ⟨⟨"manifest.json", "manifest.json"⟩, ⟨manifest, 0⟩⟩
  catalog := catalog.map fun content => ⟨⟨"catalog.json", "catalog.json"⟩, ⟨content, 0⟩⟩

/-- A changed manifest without a catalog is found, an unchanged one is not. -/
theorem refresh_detects_manifest_change :
    refreshStartsRebuild spelledBlake3 (localMachine [1] none) {}
        (scopedManifestHash spelledBlake3
          (requestedSignature spelledBlake3 {} (localSources [1] none))) = false ∧
      refreshStartsRebuild spelledBlake3 (localMachine [2] none) {}
        (scopedManifestHash spelledBlake3
          (requestedSignature spelledBlake3 {} (localSources [1] none))) = true := by
  have hunmixed : CatalogUnmixed spelledBlake3 (localSources [1] none) := by
    intro catalog hcatalog
    cases hcatalog
  have hsame := (refresh_detects_change_iff spelledBlake3 (localMachine [1] none)
    (localMachine [1] none) {} {} (localSources [1] none) (localSources [1] none) _ rfl rfl
    (.inl rfl)).mpr ⟨hunmixed, fun _ _ => rfl⟩
  have hother := (refresh_detects_change_iff spelledBlake3 (localMachine [1] none)
    (localMachine [2] none) {} {} (localSources [1] none) (localSources [2] none) _ rfl rfl
    (.inl rfl)).mpr ⟨hunmixed, fun _ _ => rfl⟩
  constructor
  · rw [Bool.eq_false_iff]
    intro hstart
    rcases hsame.2.mp hstart with hmanifest | hcatalog | hconfig
    · exact hmanifest rfl
    · exact hcatalog rfl
    · exact hconfig (SameIndexConfig.refl _)
  · exact hother.2.mpr (.inl (by decide))

/-- With a catalog beside the manifest nothing changes and a rebuild starts. -/
theorem catalog_rebuilds_unchanged :
    readSources (localMachine [1] (some [7])) {} = .ok (localSources [1] (some [7])) ∧
      ¬ Changed {} {} (localSources [1] (some [7])) (localSources [1] (some [7])) ∧
      refreshStartsRebuild spelledBlake3 (localMachine [1] (some [7])) {}
        (scopedManifestHash spelledBlake3
          (requestedSignature spelledBlake3 {} (localSources [1] (some [7])))) = true := by
  refine ⟨rfl, ?_, ?_⟩
  · simp [Changed, SameIndexConfig.refl]
  · have hread : readSources (localMachine [1] (some [7])) {} =
        .ok (localSources [1] (some [7])) := rfl
    rw [startsRebuild_iff hread (.inl rfl)]
    intro h
    obtain ⟨hcontent, -⟩ := h
    exact absurd hcontent (by decide)

end DbtNova.ManifestSignature
