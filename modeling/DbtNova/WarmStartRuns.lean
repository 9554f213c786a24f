import DbtNova.WarmStartParts

/-!
# Histories of warm starts

Every part of a version directory comes from a request for that version. A start
adds only such parts, whatever it reuses, so a history keeps this up however its
processes end; and what a start puts together from such parts is what it would
have built from nothing.
-/
namespace DbtNova.WarmStart
open ManifestSignature ManifestParse Fingerprint TransitionSystem
open StorageProtocol (Request versionIdOf manifestSignatureMatchesForRuntimeRead)

section Parts
variable (env : Env)

/-- What a request is parsed to when nothing is reused. -/
structure Builds (request : Request) (acc : ManifestAccumulator) (entities : EntityStore) :
    Prop where
  parsed : parsed env request true = some acc
  store : acc.store = some entities

/-- Some request for the version has the property. -/
def Requested (requests : List Request) (version : String) (property : Request → Prop) : Prop :=
  ∃ r ∈ requests, requestedVersion env r = version ∧ property r

def StoreOf (entities : EntityStore) (request : Request) : Prop :=
  ∃ acc, Builds env request acc entities

def IndexesOf (cached : PersistedIndexes) (request : Request) : Prop :=
  ∃ acc entities visit, Builds env request acc entities ∧
    cached = persistedIndexes cached.manifestHash acc (buildPathAndTestIndexes visit acc entities)

structure Provenance (requests : List Request) (version : String) (dir : VersionDir) : Prop where
  signature : ∀ written ∈ dir.signature,
    Requested env requests version fun r => written = r.signature env.blake3
  store : ∀ entities ∈ dir.store, Requested env requests version (StoreOf env entities)
  indexes : ∀ cached ∈ dir.indexes, Requested env requests version (IndexesOf env cached)

def Provenances (requests : List Request) (storage : Storage) : Prop :=
  ∀ version, Provenance env requests version (storage.dirs version)

/-- A write that puts in a version what a request for it builds. -/
def GoodWrite (requests : List Request) : Write → Prop
  | .signature version written =>
      Requested env requests version fun r => written = r.signature env.blake3
  | .finishStore version entities => Requested env requests version (StoreOf env entities)
  | .indexes version cached => Requested env requests version (IndexesOf env cached)
  | _ => True

def GoodWrites (requests : List Request) (writes : List Write) : Prop :=
  ∀ write ∈ writes, GoodWrite env requests write

end Parts

variable {env : Env} {requests : List Request} {storage : Storage} {request : Request}

theorem Builds.of_sameInputs {r r' : Request} {acc : ManifestAccumulator} {entities : EntityStore}
    (h : Builds env r acc entities) (hsame : SameInputs r r') : Builds env r' acc entities :=
  ⟨hsame.parsed true ▸ h.parsed, h.store⟩

theorem Builds.unique {acc acc' : ManifestAccumulator} {entities entities' : EntityStore}
    (h : Builds env request acc entities) (h' : Builds env request acc' entities') :
    acc = acc' ∧ entities = entities' := by
  obtain rfl : acc = acc' := Option.some.inj (h.parsed.symm.trans h'.parsed)
  exact ⟨rfl, Option.some.inj (h.store.symm.trans h'.store)⟩

theorem Requested.mono {requests' : List Request} {version : String} {property : Request → Prop}
    (hsub : requests ⊆ requests') (h : Requested env requests version property) :
    Requested env requests' version property := by
  obtain ⟨r, hr, hversion, hproperty⟩ := h
  exact ⟨r, hsub hr, hversion, hproperty⟩

theorem Provenances.mono {requests' : List Request} (hsub : requests ⊆ requests')
    (h : Provenances env requests storage) : Provenances env requests' storage := fun version =>
  { signature := fun written hwritten => ((h version).signature written hwritten).mono hsub
    store := fun entities hentities => ((h version).store entities hentities).mono hsub
    indexes := fun cached hcached => ((h version).indexes cached hcached).mono hsub }

theorem provenance_empty (version : String) : Provenance env requests version {} where
  signature := nofun
  store := nofun
  indexes := nofun

theorem Provenances.setDir {version : String} {change : VersionDir → VersionDir}
    (h : Provenances env requests storage)
    (hchange : Provenance env requests version (change (storage.dirs version))) :
    Provenances env requests (storage.setDir version change) := by
  intro v
  unfold Storage.setDir
  by_cases hv : v = version
  · subst hv
    simpa using hchange
  · simpa [hv] using h v

theorem Provenances.apply {write : Write} (h : Provenances env requests storage)
    (hgood : GoodWrite env requests write) :
    Provenances env requests (Write.apply storage write) := by
  unfold Write.apply
  cases write with
  | prune versions =>
      intro v
      by_cases hv : v ∈ versions
      · simpa [hv] using provenance_empty v
      · simpa [hv] using h v
  | startStore version =>
      apply h.setDir
      exact { h version with store := nofun }
  | finishStore version entities =>
      apply h.setDir
      refine { h version with store := ?_ }
      rintro _ ⟨⟩
      exact hgood
  | startTantivy version =>
      apply h.setDir
      exact { h version with }
  | finishTantivy version config =>
      apply h.setDir
      exact { h version with }
  | signature version written =>
      apply h.setDir
      refine { h version with signature := ?_ }
      rintro _ ⟨⟩
      exact hgood
  | current version => exact h
  | indexes version cached =>
      apply h.setDir
      refine { h version with indexes := ?_ }
      rintro _ ⟨⟩
      exact hgood

/-- A process that ends early has made some of its writes. -/
theorem Provenances.foldl {writes : List Write} (h : Provenances env requests storage)
    (hgood : GoodWrites env requests writes) :
    Provenances env requests (writes.foldl Write.apply storage) := by
  induction writes generalizing storage with
  | nil => exact h
  | cons write writes ih =>
      obtain ⟨hwrite, hwrites⟩ := List.forall_mem_cons.mp hgood
      exact ih (h.apply hwrite) hwrites

/-! ## Selecting and reusing -/

theorem signature_format (r : Request) :
    effectiveStorageFormatVersion (r.signature env.blake3) = storageFormatVersion := by
  obtain ⟨config, manifest, catalog⟩ := r
  cases catalog <;> rfl

theorem matches_sameKey {config : DbtNovaConfig} {r r' : Request}
    (h : manifestSignatureMatchesForRuntimeRead env.blake3 config (r.signature env.blake3)
      (r'.signature env.blake3) = true) : SameKey env r r' := by
  -- what is written today is never of the older format
  have hlegacy : (storageFormatVersion == legacyStorageFormatVersion) = false := by decide
  rw [manifestSignatureMatchesForRuntimeRead, signature_format, hlegacy] at h
  simp only [manifestSignatureMatchesForReuse, Bool.and_false, Bool.false_and, Bool.or_false,
    Bool.and_eq_true, beq_iff_eq] at h
  obtain ⟨⟨⟨⟨-, hcontent⟩, hprune⟩, hsearch⟩, -⟩ := h
  exact ⟨hcontent, hprune, hsearch⟩

/-- The signature of a request that selects the same version. -/
def SignatureFor (env : Env) (requests : List Request) (request : Request)
    (signature : Signature) : Prop :=
  ∃ r ∈ requests, signature = r.signature env.blake3 ∧ SameKey env r request

theorem matchingSignature_spec {config : DbtNovaConfig} {version : String} {dir : VersionDir}
    {expected existing : Signature} (h : Provenance env requests version dir)
    (hexpected : SignatureFor env requests request expected)
    (hmatch : existing ∈ matchingSignature env config expected dir) :
    version = requestedVersion env request ∧ SignatureFor env requests request existing := by
  obtain ⟨hwritten, hmatch⟩ := Option.mem_filter_iff.mp hmatch
  obtain ⟨r, hr, hversion, rfl⟩ := h.signature existing hwritten
  obtain ⟨r', hr', rfl, hkey⟩ := hexpected
  have hkey := (matches_sameKey hmatch).trans hkey
  exact ⟨hversion.symm.trans hkey.requestedVersion, r, hr, rfl, hkey⟩

theorem signatureFor_self (hrequest : request ∈ requests) :
    SignatureFor env requests request (request.signature env.blake3) :=
  ⟨request, hrequest, rfl, rfl, rfl, rfl⟩

structure SelectionFor (env : Env) (requests : List Request) (request : Request)
    (sel : Selection) : Prop where
  version : sel.version = requestedVersion env request
  signature : SignatureFor env requests request sel.signature

theorem selectionFor_mk {signature : Signature} {version : String} {locked : Bool}
    (hversion : version = requestedVersion env request)
    (hsignature : SignatureFor env requests request signature) :
    SelectionFor env requests request ⟨signature, version, locked⟩ := ⟨hversion, hsignature⟩

section Start
variable (h : Provenances env requests storage) (hrequest : request ∈ requests)
include h hrequest

theorem completeVersion_spec {version : String} {sel : Selection}
    (hsel : sel ∈ completeVersion env storage request version) :
    SelectionFor env requests request sel := by
  simp only [completeVersion, Option.mem_map, Option.mem_filter_iff] at hsel
  obtain ⟨existing, ⟨hmatch, -⟩, rfl⟩ := hsel
  obtain ⟨hversion, hsignature⟩ :=
    matchingSignature_spec (h version) (signatureFor_self hrequest) hmatch
  exact selectionFor_mk hversion hsignature

theorem selectStorageVersionOrLock_spec :
    SelectionFor env requests request (selectStorageVersionOrLock env storage request) := by
  unfold selectStorageVersionOrLock
  cases hcurrent : storage.current.bind (completeVersion env storage request) with
  | some sel =>
      obtain ⟨version, -, hsel⟩ := Option.bind_eq_some_iff.mp hcurrent
      exact completeVersion_spec h hrequest hsel
  | none =>
      cases hown : completeVersion env storage request (requestedVersion env request) with
      | some sel => exact completeVersion_spec h hrequest hown
      | none =>
          rw [Option.or_none, Option.getD_none]
          exact selectionFor_mk rfl (signatureFor_self hrequest)

end Start

/-- What a start takes over lies in the version of its request. -/
structure ReuseFor (env : Env) (storage : Storage) (request : Request) (reuse : ReuseArtifacts) :
    Prop where
  version : reuse.version = requestedVersion env request
  entities : ∀ entities ∈ reuse.entities, entities ∈ (storage.dirs reuse.version).store

theorem reuseFor_nothing {version : String} (h : version = requestedVersion env request) :
    ReuseFor env storage request ⟨version, none, false⟩ where
  version := h
  entities := nofun

theorem loadReusableArtifacts_spec {sel : Selection} (h : Provenances env requests storage)
    (hsel : SelectionFor env requests request sel) :
    ReuseFor env storage request (loadReusableArtifacts env storage request sel) := by
  have hopen (version : String)
      (hmatch : (matchingSignature env request.config sel.signature
        (storage.dirs version)).isSome = true) :
      ReuseFor env storage request (openReusableArtifacts env storage request version) := by
    obtain ⟨existing, hexisting⟩ := Option.isSome_iff_exists.mp hmatch
    exact ⟨(matchingSignature_spec (h version) hsel.signature hexisting).1, fun _ hstore => hstore⟩
  unfold loadReusableArtifacts
  simp only
  split
  · next version hcurrent => exact hopen version (Option.mem_filter_iff.mp hcurrent).2
  · split
    · next hmatch => exact hopen sel.version hmatch
    · exact reuseFor_nothing hsel.version

/-! ## Loading -/

/-- Requests for one version are parsed from the same inputs. -/
def Told (env : Env) (requests : List Request) : Prop :=
  ∀ r ∈ requests, ∀ r' ∈ requests,
    requestedVersion env r = requestedVersion env r' → SameInputs r r'

theorem StoreOf.of_sameInputs {r r' : Request} {entities : EntityStore} (hsame : SameInputs r r')
    (h : StoreOf env entities r) : StoreOf env entities r' := by
  obtain ⟨acc, hbuilds⟩ := h
  exact ⟨acc, hbuilds.of_sameInputs hsame⟩

theorem IndexesOf.of_sameInputs {r r' : Request} {cached : PersistedIndexes}
    (hsame : SameInputs r r') (h : IndexesOf env cached r) : IndexesOf env cached r' := by
  obtain ⟨acc, entities, visit, hbuilds, hcached⟩ := h
  exact ⟨acc, entities, visit, hbuilds.of_sameInputs hsame, hcached⟩

theorem Requested.own {property : Request → Prop} (htold : Told env requests)
    (hrequest : request ∈ requests)
    (hsame : ∀ {r r'}, SameInputs r r' → property r → property r')
    (h : Requested env requests (requestedVersion env request) property) : property request := by
  obtain ⟨r, hr, hversion, hproperty⟩ := h
  exact hsame (htold r hr request hrequest hversion) hproperty

/-- Prepared data that the request builds, except that its store may be left out. -/
structure DataFor (env : Env) (request : Request) (data : PreparedManifestData)
    (acc : ManifestAccumulator) (visit : Visit) : Prop where
  builds : Builds env request acc data.entities
  served : assembleManifestSearch data.accumulator data.entities data.pathAndTests =
    served visit acc data.entities
  persisted : ∀ hash, persistedIndexes hash data.accumulator data.pathAndTests =
    persistedIndexes hash acc (buildPathAndTestIndexes visit acc data.entities)

theorem persistedIndexes_restore (hash : String) (acc start : ManifestAccumulator)
    (indexes : PathAndTestIndexes) (hash' : String) :
    persistedIndexes hash' ((persistedIndexes hash acc indexes).restore start)
        (persistedIndexes hash acc indexes).pathAndTests =
      persistedIndexes hash' acc indexes := by
  simp only [persistedIndexes, PersistedIndexes.restore, PersistedIndexes.pathAndTests,
    mapSetToVec_mapVecToSet]

theorem assembleManifestSearch_restore (hash : String) (acc start : ManifestAccumulator)
    (indexes : PathAndTestIndexes) (entities : EntityStore) :
    assembleManifestSearch ((persistedIndexes hash acc indexes).restore start) entities
        (persistedIndexes hash acc indexes).pathAndTests =
      assembleManifestSearch acc entities indexes := by
  simp only [assembleManifestSearch, persistedIndexes, PersistedIndexes.restore,
    PersistedIndexes.pathAndTests, mapSetToVec_mapVecToSet]

theorem parsed_of_bind {buildStore : Bool} {acc : ManifestAccumulator}
    {catalogColumns : Option CatalogColumns.CatalogColumnMap}
    (hcatalog : loadCatalogColumnMap env request.sources = some catalogColumns)
    (hparse : parseSources env request catalogColumns (.new buildStore) = some acc) :
    parsed env request buildStore = some acc :=
  Option.bind_eq_some_iff.mpr ⟨catalogColumns, hcatalog, hparse⟩

/-- Store and indexes, reused or built, belong together. -/
theorem prepareManifestData_spec {sel : Selection} {reuse : ReuseArtifacts} {visit : Visit}
    {data : PreparedManifestData} (h : Provenances env requests storage)
    (htold : Told env requests) (hrequest : request ∈ requests)
    (hreuse : ReuseFor env storage request reuse)
    (hdata : data ∈ prepareManifestData env storage request visit sel reuse) :
    ∃ acc visit', DataFor env request data acc visit' := by
  obtain ⟨catalogColumns, hcatalog, hdata⟩ := Option.bind_eq_some_iff.mp hdata
  have hprovenance : Provenance env requests (requestedVersion env request)
      (storage.dirs reuse.version) := hreuse.version ▸ h reuse.version
  cases hentities : reuse.entities with
  | none =>
      simp only [hentities, Option.isNone_none] at hdata
      obtain ⟨acc, hparse, hdata⟩ := Option.bind_eq_some_iff.mp hdata
      obtain ⟨entities, hstore, rfl⟩ := Option.map_eq_some_iff.mp hdata
      exact ⟨acc, visit, ⟨parsed_of_bind hcatalog hparse, hstore⟩, rfl, fun _ => rfl⟩
  | some entities =>
      obtain ⟨acc, hbuilds⟩ := Requested.own htold hrequest StoreOf.of_sameInputs
        (hprovenance.store entities (hreuse.entities entities hentities))
      simp only [hentities, Option.isNone_some] at hdata
      split at hdata
      · next cached hcached =>
          cases hdata
          obtain ⟨acc', entities', visit', hbuilds', hcached⟩ :=
            Requested.own htold hrequest IndexesOf.of_sameInputs
              (hprovenance.indexes cached (Option.mem_filter_iff.mp hcached).1)
          obtain ⟨rfl, rfl⟩ := hbuilds.unique hbuilds'
          refine ⟨acc, visit', hbuilds, ?_, fun hash => ?_⟩
          · rw [hcached]
            exact assembleManifestSearch_restore _ _ _ _ _
          · rw [hcached]
            exact persistedIndexes_restore _ _ _ _ _
      · obtain ⟨acc', hparse, rfl⟩ := Option.map_eq_some_iff.mp hdata
        have hwithout := parsed_withoutStore hbuilds.parsed
        rw [parsed_of_bind hcatalog hparse] at hwithout
        cases hwithout
        exact ⟨acc, visit, hbuilds, rfl, fun _ => rfl⟩

/-! ## One start -/

section Writes
variable {sel : Selection} {reuse : ReuseArtifacts}

theorem ReuseFor.requested {property : Request → Prop}
    (hreuse : ReuseFor env storage request reuse) (hrequest : request ∈ requests)
    (h : property request) : Requested env requests reuse.version property :=
  ⟨request, hrequest, hreuse.version.symm, h⟩

theorem goodWrites_nil : GoodWrites env requests [] := nofun

theorem goodWrites_cons {write : Write} {writes : List Write} (h : GoodWrite env requests write)
    (h' : GoodWrites env requests writes) : GoodWrites env requests (write :: writes) :=
  List.forall_mem_cons.mpr ⟨h, h'⟩

theorem goodWrites_singleton {write : Write} (h : GoodWrite env requests write) :
    GoodWrites env requests [write] := goodWrites_cons h goodWrites_nil

theorem GoodWrites.append {writes writes' : List Write} (h : GoodWrites env requests writes)
    (h' : GoodWrites env requests writes') : GoodWrites env requests (writes ++ writes') := by
  intro write hwrite
  rcases List.mem_append.mp hwrite with hwrite | hwrite
  · exact h write hwrite
  · exact h' write hwrite

theorem pruneStorageVersions_good (storage : Storage) (victims : List String) (sel : Selection) :
    GoodWrites env requests (pruneStorageVersions storage victims sel) := by
  unfold pruneStorageVersions
  split
  · exact goodWrites_singleton trivial
  · exact goodWrites_nil

theorem persistStorageOutputs_good {data : PreparedManifestData} {acc : ManifestAccumulator}
    {visit : Visit} (hsel : SelectionFor env requests request sel)
    (hreuse : ReuseFor env storage request reuse) (hrequest : request ∈ requests)
    (hdata : DataFor env request data acc visit) :
    GoodWrites env requests (persistStorageOutputs storage request sel reuse data) := by
  unfold persistStorageOutputs
  refine (GoodWrites.append ?_ ?_).append ?_
  · split
    · obtain ⟨r, hr, hsignature, hkey⟩ := hsel.signature
      exact goodWrites_singleton
        ⟨r, hr, hkey.requestedVersion.trans hreuse.version.symm, hsignature⟩
    · exact goodWrites_nil
  · split
    · exact goodWrites_singleton trivial
    · exact goodWrites_nil
  · split
    · exact goodWrites_singleton (hreuse.requested hrequest
        ⟨acc, data.entities, visit, hdata.builds, hdata.persisted sel.signature.contentHash⟩)
    · exact goodWrites_nil

end Writes

/-- What a plan is to be, whatever lies in the storage. -/
structure PlanFor (env : Env) (requests : List Request) (request : Request) (plan : Plan) :
    Prop where
  writes : GoodWrites env requests plan.writes
  served : ∀ result ∈ plan.served,
    ∃ acc entities visit, Builds env request acc entities ∧ result = served visit acc entities

theorem manifestSearchNew_spec (h : Provenances env requests storage)
    (htold : Told env requests) (hrequest : request ∈ requests) (victims : List String)
    (visit : Visit) :
    PlanFor env requests request (manifestSearchNew env storage request victims visit) := by
  have hsel := selectStorageVersionOrLock_spec h hrequest
  have hreuse := loadReusableArtifacts_spec h hsel
  unfold manifestSearchNew
  simp only
  generalize selectStorageVersionOrLock env storage request = sel at hsel hreuse ⊢
  generalize loadReusableArtifacts env storage request sel = reuse at hreuse ⊢
  have hpruned : GoodWrites env requests (pruneStorageVersions storage victims sel) :=
    pruneStorageVersions_good storage victims sel
  have hstarted : GoodWrites env requests
      (if reuse.entities.isNone = true then [Write.startStore reuse.version] else []) := by
    split
    · exact goodWrites_singleton trivial
    · exact goodWrites_nil
  split
  · exact ⟨hpruned, nofun⟩
  · cases hprepare : prepareManifestData env storage request visit sel reuse with
    | none => exact ⟨hpruned.append hstarted, nofun⟩
    | some data =>
        obtain ⟨acc, visit', hdata⟩ := prepareManifestData_spec h htold hrequest hreuse hprepare
        refine ⟨((((hpruned.append hstarted).append ?_).append ?_).append
          (persistStorageOutputs_good hsel hreuse hrequest hdata)), ?_⟩
        · split
          · exact goodWrites_singleton (hreuse.requested hrequest ⟨acc, hdata.builds⟩)
          · exact goodWrites_nil
        · split
          · exact goodWrites_nil
          · exact goodWrites_cons trivial (goodWrites_singleton trivial)
        · rintro _ ⟨⟩
          exact ⟨acc, data.entities, visit', hdata.builds, hdata.served⟩

/-! ## Cold starts -/

/-- The request in a storage that may be written. -/
def writable (request : Request) : Request :=
  { request with config := { request.config with storageReadOnly := false } }

/-- The served data is that of a start in an empty storage. -/
def ServesCold (env : Env) (request : Request) (result : Served) : Prop :=
  ∀ visit, ∃ cold,
    (manifestSearchNew env .empty (writable request) [] visit).served = some cold ∧
      SameUpToOrder result cold

theorem prepareManifestData_fresh {acc : ManifestAccumulator} {entities : EntityStore}
    (hbuilds : Builds env request acc entities) (visit : Visit) (sel : Selection)
    (version : String) (opened : Bool) :
    prepareManifestData env storage request visit sel ⟨version, none, opened⟩ =
      some ⟨acc, entities, buildPathAndTestIndexes visit acc entities, false⟩ := by
  obtain ⟨catalogColumns, hcatalog, hparse⟩ := Option.bind_eq_some_iff.mp hbuilds.parsed
  simp only [prepareManifestData, hcatalog, Option.bind_some, Option.isNone_none, hparse,
    hbuilds.store, Option.map_some]

theorem selectStorageVersionOrLock_empty :
    selectStorageVersionOrLock env .empty request =
      ⟨request.signature env.blake3, requestedVersion env request, true⟩ := by
  have hcomplete (version : String) : completeVersion env .empty request version = none := rfl
  simp only [selectStorageVersionOrLock, hcomplete]
  rfl

theorem loadReusableArtifacts_empty (sel : Selection) :
    loadReusableArtifacts env .empty request sel = ⟨sel.version, none, false⟩ := by
  have hmatch : (matchingSignature env request.config sel.signature {}).isSome = false := rfl
  simp only [loadReusableArtifacts, Storage.empty, Option.filter_none, hmatch, Bool.false_eq_true,
    if_false]

theorem manifestSearchNew_empty {acc : ManifestAccumulator} {entities : EntityStore}
    (hbuilds : Builds env request acc entities) (hwritable : request.config.storageReadOnly = false)
    (victims : List String) (visit : Visit) :
    (manifestSearchNew env .empty request victims visit).served =
      some (served visit acc entities) := by
  unfold manifestSearchNew
  simp only [loadReusableArtifacts_empty, prepareManifestData_fresh hbuilds, hwritable,
    Bool.false_and, Bool.false_eq_true, if_false]
  rfl

theorem servesCold_of_builds {acc : ManifestAccumulator} {entities : EntityStore} {visit : Visit}
    (hbuilds : Builds env request acc entities) :
    ServesCold env request (served visit acc entities) := by
  intro visit'
  have hbuilds' : Builds env (writable request) acc entities := ⟨hbuilds.parsed, hbuilds.store⟩
  exact ⟨_, manifestSearchNew_empty hbuilds' rfl [] visit',
    served_sameUpToOrder visit visit' acc entities⟩

/-! ## What is left to the next start -/

theorem matches_of_sameKey (config : DbtNovaConfig) {r r' : Request} (h : SameKey env r r') :
    manifestSignatureMatchesForRuntimeRead env.blake3 config (r.signature env.blake3)
      (r'.signature env.blake3) = true := by
  have hcontent (r : Request) : (r.signature env.blake3).contentHash ≠ "" := by
    unfold Request.signature
    rw [requestedSignature_contentHash]
    exact env.blake3.nonempty _
  simp only [manifestSignatureMatchesForRuntimeRead, manifestSignatureMatchesForReuse,
    Bool.or_eq_true, Bool.and_eq_true, bne_iff_ne, beq_iff_eq, signature_format]
  exact .inl ⟨⟨⟨⟨⟨hcontent r, hcontent r'⟩, h.content⟩, h.prune⟩, h.search⟩, trivial⟩

/-- The version that a request builds from nothing. -/
def builtDir (env : Env) (request : Request) (acc : ManifestAccumulator) (entities : EntityStore)
    (visit : Visit) : VersionDir where
  signature := some (request.signature env.blake3)
  store := some entities
  tantivy := some request.config.search
  indexes := some (persistedIndexes (request.signature env.blake3).contentHash acc
    (buildPathAndTestIndexes visit acc entities))

section Reuse
variable {acc : ManifestAccumulator} {entities : EntityStore} (victims : List String)
  (visit : Visit)

theorem writes_empty (hbuilds : Builds env request acc entities)
    (hwritable : request.config.storageReadOnly = false) :
    let left := (manifestSearchNew env .empty request victims visit).writes.foldl Write.apply .empty
    left.current = some (requestedVersion env request) ∧
      left.dirs (requestedVersion env request) = builtDir env request acc entities visit := by
  simp only [manifestSearchNew, selectStorageVersionOrLock_empty, loadReusableArtifacts_empty,
    prepareManifestData_fresh hbuilds, hwritable, persistStorageOutputs, pruneStorageVersions,
    ReuseArtifacts.needsBuild, Option.isNone_none, Bool.true_or, Bool.not_false,
    Bool.and_true, Bool.false_eq_true, if_true, if_false]
  generalize requestedVersion env request = version
  simp [Write.apply, Storage.setDir, Storage.empty, builtDir]

/-- A finished version is served to every request with its key. -/
theorem served_of_builtDir {r : Request} {version : String} {visit' : Visit}
    (hkey : SameKey env r request) (hcurrent : storage.current = some version)
    (hdir : storage.dirs version = builtDir env r acc entities visit')
    (hopens : env.tantivyOpens r.config.search request.config.search = true)
    (hcatalog : (loadCatalogColumnMap env request.sources).isSome = true) :
    (manifestSearchNew env storage request victims visit).served =
      some (served visit' acc entities) := by
  have hmatch {r' : Request} (hkey : SameKey env r r') :
      matchingSignature env request.config (r'.signature env.blake3) (storage.dirs version) =
        some (r.signature env.blake3) := by
    simp only [hdir, matchingSignature, builtDir, Option.filter_some, matches_of_sameKey _ hkey,
      if_true]
  have hindexes : tryLoadIndexes (storage.dirs version) (r.signature env.blake3).contentHash =
      some (persistedIndexes (r.signature env.blake3).contentHash acc
        (buildPathAndTestIndexes visit' acc entities)) := by
    simp [hdir, tryLoadIndexes, builtDir, persistedIndexes]
  have hopened : tantivyOpened env request.config (storage.dirs version) = true := by
    simp [hdir, tantivyOpened, builtDir, hopens]
  have hstore : (storage.dirs version).store = some entities := by rw [hdir, builtDir]
  have hsel : selectStorageVersionOrLock env storage request =
      ⟨r.signature env.blake3, version, false⟩ := by
    have hcomplete : completeVersion env storage request version =
        some ⟨r.signature env.blake3, version, false⟩ := by
      simp [completeVersion, hmatch hkey, storageDirHasLocklessReadArtifacts, hindexes, hopened,
        hstore]
    simp [selectStorageVersionOrLock, hcurrent, hcomplete]
  have hreuse : loadReusableArtifacts env storage request ⟨r.signature env.blake3, version, false⟩ =
      ⟨version, some entities, true⟩ := by
    simp [loadReusableArtifacts, hcurrent, Option.filter_some, hmatch ⟨rfl, rfl, rfl⟩,
      openReusableArtifacts, hstore, hopened]
  obtain ⟨catalogColumns, hcatalog⟩ := Option.isSome_iff_exists.mp hcatalog
  simp only [manifestSearchNew, hsel, hreuse, prepareManifestData, hcatalog, hindexes,
    ReuseArtifacts.needsBuild, Option.bind_some, Option.isNone_some, Bool.not_true, Bool.or_false,
    Bool.and_false, Bool.false_eq_true, if_false]
  rw [assembleManifestSearch_restore]
  rfl

theorem served_after_empty {r : Request} (victims' : List String) (visit' : Visit)
    (hkey : SameKey env r request) (hbuilds : Builds env r acc entities)
    (hwritable : r.config.storageReadOnly = false)
    (hopens : env.tantivyOpens r.config.search request.config.search = true)
    (hcatalog : (loadCatalogColumnMap env request.sources).isSome = true) :
    (manifestSearchNew env ((manifestSearchNew env .empty r victims' visit').writes.foldl
      Write.apply .empty) request victims visit).served = some (served visit' acc entities) := by
  obtain ⟨hcurrent, hdir⟩ := writes_empty victims' visit' hbuilds hwritable
  exact served_of_builtDir victims visit hkey hcurrent hdir hopens hcatalog

end Reuse

/-- The storage of a finished start is served to a second one with its key. -/
theorem run_two {first second : Start} {acc : ManifestAccumulator} {entities : EntityStore}
    (hkey : SameKey env first.request second.request)
    (hbuilds : Builds env first.request acc entities)
    (hwritable : first.request.config.storageReadOnly = false)
    (hopens : env.tantivyOpens first.request.config.search second.request.config.search = true)
    (hcatalog : (loadCatalogColumnMap env second.request.sources).isSome = true) :
    ∃ state, run (step env) initial [.complete first, .complete second] = some state ∧
      state.served = [(first.request, served first.visit acc entities),
        (second.request, served first.visit acc entities)] := by
  refine ⟨_, rfl, ?_⟩
  have hfirst := manifestSearchNew_empty hbuilds hwritable first.victims first.visit
  have hsecond := served_after_empty second.victims second.visit first.victims first.visit hkey
    hbuilds hwritable hopens hcatalog
  simp only [State.plan, initial, hfirst, hsecond]
  rfl

theorem exists_builds {property : EntityStore → Bool}
    (h : ((parsed env request true).bind (·.store)).any property = true) :
    ∃ acc entities, Builds env request acc entities ∧ property entities = true := by
  obtain ⟨entities, hentities, hproperty⟩ := (Option.any_eq_true _ _).mp h
  obtain ⟨acc, hparsed, hstore⟩ := Option.bind_eq_some_iff.mp hentities
  exact ⟨acc, entities, ⟨hparsed, hstore⟩, hproperty⟩

/-! ## A manifest that is the hashed text of another one -/

def modelSections : List (String × JsonValue) :=
  [("nodes", .object [("m", .object [("resource_type", .string "model")])])]

def cataloged : Sources :=
  localSources (textBytes (JsonValue.object modelSections).toText) (some (textBytes "{}"))

/-- The text hashed for the manifest and its catalog, as a manifest of its own. -/
def hashedText : Sources := localSources (signedContent spelledBlake3 cataloged) none

/-- The hashed text has four strange sections and no entity. -/
def twoManifests : Env where
  blake3 := spelledBlake3
  readManifest content :=
    if content = cataloged.manifest.file.content then some modelSections
    else cataloged.catalog.bind fun catalog => (catalogPayload spelledBlake3
      (spelledBlake3.hex cataloged.manifest.file.content) catalog).asObject
  readCatalog _ := some (.object [])
  tantivyOpens _ _ := true

def defaultStart (sources : Sources) : Start := ⟨⟨{}, sources⟩, [], ⟨id, List.Perm.refl⟩⟩

/-! ## Histories -/

def Action.start : Action → Start
  | .complete start => start
  | .crash start _ => start

/-- Version ids are prefixes of hashes, and tell apart what the hashes do. -/
def PrefixesDistinct (env : Env) (state : State) (action : Action) : Prop :=
  ∀ earlier ∈ state.requests,
    requestedVersion env earlier = requestedVersion env action.start.request →
      scopedManifestHash env.blake3 (earlier.signature env.blake3) =
        scopedManifestHash env.blake3 (action.start.request.signature env.blake3)

/-- No manifest standing alone is the text that is hashed for another one and its
catalog. -/
def CatalogsTold (env : Env) (state : State) (action : Action) : Prop :=
  ∀ earlier ∈ state.requests,
    Unconfused env.blake3 earlier.sources action.start.request.sources

theorem Told.step {action : Action} {state : State} (h : Told env state.requests)
    (hprefixes : PrefixesDistinct env state action) (htold : CatalogsTold env state action) :
    Told env (state.requests ++ [action.start.request]) := by
  have hnew : ∀ earlier ∈ state.requests,
      requestedVersion env earlier = requestedVersion env action.start.request →
        SameInputs earlier action.start.request := fun earlier hearlier hversion =>
    (sameKey_of_scopedHash (hprefixes earlier hearlier hversion)).sameInputs
      (htold earlier hearlier)
  intro r hr r' hr' hversion
  rcases List.mem_append.mp hr with hr | hr <;> rcases List.mem_append.mp hr' with hr' | hr'
  · exact h r hr r' hr' hversion
  · obtain rfl := List.mem_singleton.mp hr'
    exact hnew r hr hversion
  · obtain rfl := List.mem_singleton.mp hr
    exact (hnew r' hr' hversion.symm).symm
  · obtain rfl := List.mem_singleton.mp hr
    obtain rfl := List.mem_singleton.mp hr'
    exact ⟨rfl, rfl, rfl, rfl⟩

structure Invariant (env : Env) (state : State) : Prop where
  storage : Provenances env state.requests state.storage
  told : Told env state.requests
  served : ∀ entry ∈ state.served, ServesCold env entry.1 entry.2

theorem invariant_initial : Invariant env initial where
  storage := provenance_empty
  told _ hr := absurd hr List.not_mem_nil
  served _ hentry := absurd hentry List.not_mem_nil

theorem invariant_step {state state' : State} {action : Action}
    (hguard : PrefixesDistinct env state action ∧ CatalogsTold env state action)
    (hinv : Invariant env state) (hstep : step env state action = some state') :
    Invariant env state' := by
  have hsub : state.requests ⊆ state.requests ++ [action.start.request] :=
    List.subset_append_left _ _
  have hstorage := hinv.storage.mono hsub
  have htold := hinv.told.step hguard.1 hguard.2
  have hplan (victims : List String) (visit : Visit) :=
    manifestSearchNew_spec hstorage htold (List.mem_append_right _ (List.mem_singleton_self _))
      victims visit
  cases action with
  | complete start =>
      cases hstep
      obtain ⟨hwrites, hserved⟩ := hplan start.victims start.visit
      refine ⟨hstorage.foldl hwrites, htold, fun entry hentry => ?_⟩
      rcases List.mem_append.mp hentry with hentry | hentry
      · exact hinv.served entry hentry
      · obtain ⟨result, hresult, rfl⟩ := Option.map_eq_some_iff.mp (Option.mem_toList.mp hentry)
        obtain ⟨acc, entities, visit, hbuilds, rfl⟩ := hserved result hresult
        exact servesCold_of_builds hbuilds
  | crash start writes =>
      cases hstep
      obtain ⟨hwrites, -⟩ := hplan start.victims start.visit
      refine ⟨hstorage.foldl fun write hwrite => ?_, htold, hinv.served⟩
      exact hwrites write (List.mem_of_mem_take hwrite)

/-- Whatever earlier processes left, every start that comes to its end serves what a
start from nothing serves. -/
theorem warm_start_serves_cold (env : Env) (actions : List Action) (state : State)
    (hprefixes : Guarded (step env) (PrefixesDistinct env) initial actions)
    (htold : Guarded (step env) (CatalogsTold env) initial actions)
    (hrun : run (step env) initial actions = some state) :
    ∀ entry ∈ state.served, ServesCold env entry.1 entry.2 :=
  ((hprefixes.and htold).invariant (Invariant env) (fun _ _ _ => invariant_step) invariant_initial
    hrun).served

/-- The second start on one manifest takes over everything. -/
theorem warm_start_twice :
    ∃ state, run (step twoManifests) initial
        [.complete (defaultStart cataloged), .complete (defaultStart cataloged)] = some state ∧
      state.served.length = 2 ∧
      ∀ entry ∈ state.served, ServesCold twoManifests entry.1 entry.2 := by
  obtain ⟨acc, entities, hbuilds, -⟩ : ∃ acc entities,
      Builds twoManifests ⟨{}, cataloged⟩ acc entities ∧ (!entities.isEmpty) = true :=
    exists_builds (by decide)
  obtain ⟨state, hrun, hserved⟩ : ∃ state, run (step twoManifests) initial
      [.complete (defaultStart cataloged), .complete (defaultStart cataloged)] = some state ∧
      state.served = _ :=
    run_two ⟨rfl, rfl, rfl⟩ hbuilds rfl rfl rfl
  have hprefixes : Guarded (step twoManifests) (PrefixesDistinct twoManifests) initial
      [.complete (defaultStart cataloged), .complete (defaultStart cataloged)] := by
    refine ⟨fun earlier hearlier => absurd hearlier List.not_mem_nil, ?_⟩
    rintro _ ⟨⟩
    refine ⟨fun earlier hearlier _ => ?_, fun _ _ => trivial⟩
    rw [List.mem_singleton.mp hearlier]
    rfl
  have htold : Guarded (step twoManifests) (CatalogsTold twoManifests) initial
      [.complete (defaultStart cataloged), .complete (defaultStart cataloged)] := by
    refine ⟨fun earlier hearlier => absurd hearlier List.not_mem_nil, ?_⟩
    rintro _ ⟨⟩
    refine ⟨fun earlier hearlier => ?_, fun _ _ => trivial⟩
    rw [List.mem_singleton.mp hearlier]
    exact ⟨nofun, nofun⟩
  refine ⟨state, hrun, by rw [hserved]; rfl, ?_⟩
  exact warm_start_serves_cold twoManifests _ state hprefixes htold hrun

/-- Of two requests with one key but different stores, the second one is served the
store of the first. -/
theorem sameKey_serves_other {first second : Start} {acc acc' : ManifestAccumulator}
    {entities entities' : EntityStore} (hkey : SameKey env first.request second.request)
    (hbuilds : Builds env first.request acc entities)
    (hbuilds' : Builds env second.request acc' entities') (hne : entities ≠ entities')
    (hwritable : first.request.config.storageReadOnly = false)
    (hopens : env.tantivyOpens first.request.config.search second.request.config.search = true)
    (hcatalog : (loadCatalogColumnMap env second.request.sources).isSome = true) :
    ∃ state, run (step env) initial [.complete first, .complete second] = some state ∧
      Guarded (step env) (PrefixesDistinct env) initial [.complete first, .complete second] ∧
      ∃ entry ∈ state.served, ¬ ServesCold env entry.1 entry.2 := by
  obtain ⟨state, hrun, hserved⟩ := run_two hkey hbuilds hwritable hopens hcatalog
  refine ⟨state, hrun, ⟨?_, ?_⟩, ⟨second.request, served first.visit acc entities⟩, ?_, ?_⟩
  · intro earlier hearlier
    exact absurd hearlier List.not_mem_nil
  · rintro _ ⟨⟩
    refine ⟨fun earlier hearlier _ => ?_, fun _ _ => trivial⟩
    rw [List.mem_singleton.mp hearlier]
    exact hkey.scopedHash
  · rw [hserved]
    exact List.mem_cons_of_mem _ (List.mem_singleton_self _)
  · intro hcold
    obtain ⟨cold, hfresh, hsame⟩ := hcold first.visit
    have hbuilds' : Builds env (writable second.request) acc' entities' :=
      ⟨hbuilds'.parsed, hbuilds'.store⟩
    rw [manifestSearchNew_empty hbuilds' rfl] at hfresh
    cases hfresh
    exact hne hsame.entities

/-- The process on the second manifest serves the entities of the first one. -/
theorem hashed_text_serves_other :
    ∃ state, run (step twoManifests) initial
        [.complete (defaultStart cataloged), .complete (defaultStart hashedText)] = some state ∧
      Guarded (step twoManifests) (PrefixesDistinct twoManifests) initial
        [.complete (defaultStart cataloged), .complete (defaultStart hashedText)] ∧
      ∃ entry ∈ state.served, ¬ ServesCold twoManifests entry.1 entry.2 := by
  have halone (content : List UInt8) :
      signedContent spelledBlake3 (localSources content none) = content := rfl
  have hkey : SameKey twoManifests ⟨{}, cataloged⟩ ⟨{}, hashedText⟩ :=
    sameKey_of_signedContent (halone (signedContent spelledBlake3 cataloged)).symm
  obtain ⟨acc, entities, hbuilds, hsome⟩ : ∃ acc entities,
      Builds twoManifests ⟨{}, cataloged⟩ acc entities ∧ (!entities.isEmpty) = true :=
    exists_builds (by decide)
  obtain ⟨acc', entities', hbuilds', hnone⟩ : ∃ acc entities,
      Builds twoManifests ⟨{}, hashedText⟩ acc entities ∧ entities.isEmpty = true :=
    exists_builds (by decide +kernel)
  have hne : entities ≠ entities' := by
    rintro rfl
    simp [hnone] at hsome
  exact sameKey_serves_other hkey hbuilds hbuilds' hne rfl rfl rfl

end DbtNova.WarmStart
