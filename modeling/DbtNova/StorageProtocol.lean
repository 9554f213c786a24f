import DbtNova.ManifestSignature
import DbtNova.TransitionSystem

/-!
# Processes sharing one storage instance

Each process loads a manifest: it selects a version without a lock or takes the
build lock, reads the reusable artifacts again, takes its in-use locks, builds
what is missing, persists, and releases. Every access to the shared directory is
one step, and between steps any other process may run. A process may also end at
any point with an error, which releases its locks.

An absent version directory and an empty one behave alike, so a directory is a
total function with an empty default. A store or an index that cannot be opened
is recorded as missing. Which directories a pruning removes depends on ages and
sizes that are not modelled: any set that the source may not protect is allowed.
The manifest of a process does not change while it loads, and artifacts are not
fetched from a remote store. `writes` is a history variable.
-/
namespace DbtNova.StorageProtocol
open ManifestSignature Fingerprint TransitionSystem

structure Request where
  config : DbtNovaConfig
  sources : Sources
  deriving DecidableEq, Repr

/-- The signature a process computes for its own sources. -/
def Request.signature (b : Blake3) (request : Request) : Signature :=
  requestedSignature b request.config request.sources

def versionIdOf (b : Blake3) (signature : Signature) : String :=
  let id := String.ofList ((scopedManifestHash b signature).toList.take 12)
  if id = "" then "unknown" else id

/-- What a run does not change: the processes' requests and the ids of the
versions they ask for. `tantivyOpens built config` says whether an index written
under one search configuration opens under another. -/
structure Setting where
  blake3 : Blake3
  tantivyOpens : SearchConfig → SearchConfig → Bool
  request : ℕ → Request
  versionId : ℕ → String
  versionId_eq : ∀ p, versionId p = versionIdOf blake3 ((request p).signature blake3)

def manifestSignatureMatchesForRuntimeRead (b : Blake3) (config : DbtNovaConfig)
    (existing expected : Signature) : Bool :=
  manifestSignatureMatchesForReuse existing expected ||
    (config.storageReadOnly &&
      effectiveStorageFormatVersion existing == legacyStorageFormatVersion &&
      effectiveStorageFormatVersion expected == storageFormatVersion &&
      existing.contentHash != "" && existing.contentHash == expected.contentHash &&
      existing.pruneFingerprint == expected.pruneFingerprint &&
      existing.searchIndexFingerprint == legacyIndexFingerprint b config.search)

/-- `store` is the content hash of the manifest parsed into the entity store,
`tantivy` the configuration of the index, `indexes` the hash in the cache file. -/
structure VersionDir where
  signature : Option Signature := none
  store : Option String := none
  tantivy : Option SearchConfig := none
  indexes : Option String := none
  deriving DecidableEq, Repr

structure Selection where
  signature : Signature
  versionId : String
  locked : Bool
  deriving DecidableEq, Repr

/-- The outcome of reading the reusable artifacts again. -/
structure Reuse where
  currentVersion : Option String
  dir : String
  reuseStore : Bool
  tantivyOpened : Bool
  deriving DecidableEq, Repr

def Reuse.needsBuild (r : Reuse) : Bool := !r.reuseStore || !r.tantivyOpened

inductive Phase where
  | start
  | contending
  | busy
  | waiting
  | selected (sel : Selection)
  | reread (sel : Selection) (r : Reuse)
  | prepared (sel : Selection) (r : Reuse)
  | opened (sel : Selection) (r : Reuse)
  | storing (sel : Selection) (r : Reuse)
  | stored (sel : Selection) (r : Reuse) (indexesReused : Bool)
  | built (sel : Selection) (r : Reuse) (indexesReused : Bool)
  | signed (sel : Selection) (r : Reuse) (indexesReused : Bool)
  | published (sel : Selection) (r : Reuse) (indexesReused : Bool)
  | persisted (sel : Selection)
  | serving
  | ended
  deriving DecidableEq, Repr

inductive WriteKind where
  | entityStore
  | signature (named : String) (parsed : Option String)
  | current
  deriving DecidableEq, Repr

/-- One write, with the holder of the build lock at that moment. -/
structure Write where
  proc : ℕ
  holder : Option ℕ
  kind : WriteKind
  deriving DecidableEq, Repr

structure Storage where
  current : Option String
  versions : String → VersionDir
  buildLock : Option ℕ
  inUse : List (ℕ × String)
  phases : ℕ → Phase
  writes : List Write

inductive Action where
  | selectLockless (p : ℕ)
  | tryLock (p : ℕ)
  | serveCurrent (p : ℕ)
  | acquireLock (p : ℕ)
  | reread (p : ℕ)
  | prune (p : ℕ) (victims : List String)
  | takeInUse (p : ℕ)
  | openStore (p : ℕ)
  | finishStore (p : ℕ)
  | buildIndex (p : ℕ)
  | writeSignature (p : ℕ)
  | writeCurrent (p : ℕ)
  | writeIndexes (p : ℕ)
  | release (p : ℕ)
  | abort (p : ℕ)
  deriving DecidableEq, Repr

def empty : Storage := ⟨none, fun _ => {}, none, [], fun _ => .start, []⟩

namespace Storage

def setPhase (s : Storage) (p : ℕ) (phase : Phase) : Storage :=
  { s with phases := Function.update s.phases p phase }

def setDir (s : Storage) (v : String) (dir : VersionDir) : Storage :=
  { s with versions := Function.update s.versions v dir }

def log (s : Storage) (p : ℕ) (kind : WriteKind) : Storage :=
  { s with writes := s.writes ++ [⟨p, s.buildLock, kind⟩] }

def unlock (s : Storage) (sel : Selection) : Storage :=
  if sel.locked then { s with buildLock := none } else s

end Storage

section Steps
variable (ι : Setting)

def Setting.config (p : ℕ) : DbtNovaConfig := (ι.request p).config

def Setting.requested (p : ℕ) : Signature := (ι.request p).signature ι.blake3

theorem Setting.versionId_requested (p : ℕ) :
    ι.versionId p = versionIdOf ι.blake3 (ι.requested p) := ι.versionId_eq p

def tantivyUsable (p : ℕ) (dir : VersionDir) : Bool :=
  dir.tantivy.any fun search => ι.tantivyOpens search (ι.config p).search

def storageDirHasLocklessReadArtifacts (p : ℕ) (dir : VersionDir) (signature : Signature) :
    Bool :=
  dir.store.isSome && tantivyUsable ι p dir && dir.indexes == some signature.contentHash

/-- The signature of a version, when a process may read that version for `expected`. -/
def matchingSignature (s : Storage) (p : ℕ) (expected : Signature) (v : String) :
    Option Signature :=
  (s.versions v).signature.filter fun existing =>
    manifestSignatureMatchesForRuntimeRead ι.blake3 (ι.config p) existing expected

def completeMatch (s : Storage) (p : ℕ) (v : String) : Option Selection :=
  ((matchingSignature ι s p (ι.requested p) v).filter fun existing =>
    storageDirHasLocklessReadArtifacts ι p (s.versions v) existing).map
      fun existing => ⟨existing, v, false⟩

def findLocklessStorageVersion (s : Storage) (p : ℕ) : Option Selection :=
  (s.current.bind (completeMatch ι s p)).or (completeMatch ι s p (ι.versionId p))

def selectLockless (s : Storage) (p : ℕ) : Option Storage :=
  match s.phases p with
  | .start =>
      match findLocklessStorageVersion ι s p with
      | some sel => some (s.setPhase p (.selected sel))
      | none => some (s.setPhase p .contending)
  | _ => none

def lockedSelection (p : ℕ) : Selection := ⟨ι.requested p, ι.versionId p, true⟩

def tryLock (s : Storage) (p : ℕ) : Option Storage :=
  match s.phases p with
  | .contending =>
      match s.buildLock with
      | none => some ({ s with buildLock := some p }.setPhase p (.selected (lockedSelection ι p)))
      | some _ => some (s.setPhase p .busy)
  | _ => none

/-- The published version, whatever it was built from. -/
def loadCompletePublishedStorageVersion (s : Storage) (p : ℕ) : Option Selection :=
  s.current.bind fun v =>
    ((s.versions v).signature.filter fun existing =>
      storageDirHasLocklessReadArtifacts ι p (s.versions v) existing).map
        fun existing => ⟨existing, v, false⟩

def serveCurrent (s : Storage) (p : ℕ) : Option Storage :=
  match s.phases p with
  | .busy =>
      match loadCompletePublishedStorageVersion ι s p with
      | some sel => some (s.setPhase p (.selected sel))
      | none => some (s.setPhase p .waiting)
  | _ => none

def acquireLock (s : Storage) (p : ℕ) : Option Storage :=
  match s.phases p, s.buildLock with
  | .waiting, none =>
      some ({ s with buildLock := some p }.setPhase p (.selected (lockedSelection ι p)))
  | _, _ => none

def openReusableArtifacts (s : Storage) (p : ℕ) (v : String) : Reuse :=
  ⟨s.current, v, (s.versions v).store.isSome, tantivyUsable ι p (s.versions v)⟩

def loadReusableArtifacts (s : Storage) (p : ℕ) (sel : Selection) : Reuse :=
  match s.current.filter fun v => (matchingSignature ι s p sel.signature v).isSome with
  | some v => openReusableArtifacts ι s p v
  | none =>
      if (matchingSignature ι s p sel.signature sel.versionId).isSome then
        openReusableArtifacts ι s p sel.versionId
      else ⟨s.current, sel.versionId, false, false⟩

/-- Only a process with the lock goes on to prune. -/
def reread (s : Storage) (p : ℕ) : Option Storage :=
  match s.phases p with
  | .selected sel =>
      let r := loadReusableArtifacts ι s p sel
      some (s.setPhase p (if sel.locked then .reread sel r else .prepared sel r))
  | _ => none

/-- The versions that pruning may not remove: its own, the one that was current,
and those in use. -/
def prunable (s : Storage) (sel : Selection) (r : Reuse) (v : String) : Bool :=
  v != sel.versionId && r.currentVersion != some v && s.inUse.all fun use => use.2 != v

def pruneStorageVersions (s : Storage) (victims : List String) : Storage :=
  { s with versions := fun v => if v ∈ victims then {} else s.versions v }

def prune (s : Storage) (p : ℕ) (victims : List String) : Option Storage :=
  match s.phases p with
  | .reread sel r =>
      if victims.all (prunable s sel r) then
        some ((pruneStorageVersions s victims).setPhase p (.prepared sel r))
      else none
  | _ => none

/-- Takes the in-use locks; a read-only process that would have to build ends. -/
def takeInUse (s : Storage) (p : ℕ) : Option Storage :=
  match s.phases p with
  | .prepared sel r =>
      if (ι.config p).storageReadOnly && r.needsBuild then some ((s.unlock sel).setPhase p .ended)
      else some ({ s with inUse := (p, r.dir) :: s.inUse }.setPhase p (.opened sel r))
  | _ => none

def indexesReused (s : Storage) (sel : Selection) (r : Reuse) : Bool :=
  r.reuseStore && (s.versions r.dir).indexes == some sel.signature.contentHash

/-- A new store replaces the old one, which can no longer be opened. -/
def openStore (s : Storage) (p : ℕ) : Option Storage :=
  match s.phases p with
  | .opened sel r =>
      if r.reuseStore then some (s.setPhase p (.stored sel r (indexesReused s sel r)))
      else some (((s.log p .entityStore).setDir r.dir
        { s.versions r.dir with store := none }).setPhase p (.storing sel r))
  | _ => none

def finishStore (s : Storage) (p : ℕ) : Option Storage :=
  match s.phases p with
  | .storing sel r =>
      some (((s.log p .entityStore).setDir r.dir
        { s.versions r.dir with store := some (ι.requested p).contentHash }).setPhase p
          (.stored sel r false))
  | _ => none

def buildIndex (s : Storage) (p : ℕ) : Option Storage :=
  match s.phases p with
  | .stored sel r reused =>
      if r.tantivyOpened then some (s.setPhase p (.built sel r reused))
      else some ((s.setDir r.dir
        { s.versions r.dir with tantivy := some (ι.config p).search }).setPhase p
          (.built sel r reused))
  | _ => none

def writeSignature (s : Storage) (p : ℕ) : Option Storage :=
  match s.phases p with
  | .built sel r reused =>
      if r.needsBuild then
        some (((s.log p (.signature sel.signature.contentHash (s.versions r.dir).store)).setDir
          r.dir { s.versions r.dir with signature := some sel.signature }).setPhase p
            (.signed sel r reused))
      else some (s.setPhase p (.signed sel r reused))
  | _ => none

def updateCurrentVersion (p : ℕ) (sel : Selection) (r : Reuse) : Bool :=
  sel.locked && !r.needsBuild && !(ι.config p).storageReadOnly && r.dir == sel.versionId &&
    r.currentVersion != some sel.versionId

def writeCurrent (s : Storage) (p : ℕ) : Option Storage :=
  match s.phases p with
  | .signed sel r reused =>
      if r.needsBuild || updateCurrentVersion ι p sel r then
        some ({ s.log p .current with current := some sel.versionId }.setPhase p
          (.published sel r reused))
      else some (s.setPhase p (.published sel r reused))
  | _ => none

def writeIndexes (s : Storage) (p : ℕ) : Option Storage :=
  match s.phases p with
  | .published sel r reused =>
      if !reused && !(ι.config p).storageReadOnly then
        some ((s.setDir r.dir
          { s.versions r.dir with indexes := some sel.signature.contentHash }).setPhase p
            (.persisted sel))
      else some (s.setPhase p (.persisted sel))
  | _ => none

def release (s : Storage) (p : ℕ) : Option Storage :=
  match s.phases p with
  | .persisted sel => some ((s.unlock sel).setPhase p .serving)
  | _ => none

/-- The end of a process, after its work or in the middle of it. -/
def abort (s : Storage) (p : ℕ) : Storage :=
  { s with
    buildLock := if s.buildLock = some p then none else s.buildLock
    inUse := s.inUse.filter fun use => use.1 != p }.setPhase p .ended

def step (s : Storage) : Action → Option Storage
  | .selectLockless p => selectLockless ι s p
  | .tryLock p => tryLock ι s p
  | .serveCurrent p => serveCurrent ι s p
  | .acquireLock p => acquireLock ι s p
  | .reread p => reread ι s p
  | .prune p victims => prune s p victims
  | .takeInUse p => takeInUse ι s p
  | .openStore p => openStore s p
  | .finishStore p => finishStore ι s p
  | .buildIndex p => buildIndex ι s p
  | .writeSignature p => writeSignature s p
  | .writeCurrent p => writeCurrent ι s p
  | .writeIndexes p => writeIndexes ι s p
  | .release p => release s p
  | .abort p => some (abort s p)

end Steps

/-! ## What an update leaves alone -/

namespace Storage
variable (s : Storage) (p : ℕ) (phase : Phase) (v : String) (dir : VersionDir) (kind : WriteKind)

@[simp] theorem setPhase_phases :
    (s.setPhase p phase).phases = Function.update s.phases p phase := rfl
@[simp] theorem setPhase_versions : (s.setPhase p phase).versions = s.versions := rfl
@[simp] theorem setPhase_buildLock : (s.setPhase p phase).buildLock = s.buildLock := rfl
@[simp] theorem setPhase_writes : (s.setPhase p phase).writes = s.writes := rfl
@[simp] theorem setDir_phases : (s.setDir v dir).phases = s.phases := rfl
@[simp] theorem setDir_versions :
    (s.setDir v dir).versions = Function.update s.versions v dir := rfl
@[simp] theorem setDir_buildLock : (s.setDir v dir).buildLock = s.buildLock := rfl
@[simp] theorem setDir_writes : (s.setDir v dir).writes = s.writes := rfl
@[simp] theorem log_phases : (s.log p kind).phases = s.phases := rfl
@[simp] theorem log_versions : (s.log p kind).versions = s.versions := rfl
@[simp] theorem log_buildLock : (s.log p kind).buildLock = s.buildLock := rfl
@[simp] theorem log_writes :
    (s.log p kind).writes = s.writes ++ [⟨p, s.buildLock, kind⟩] := rfl
@[simp] theorem unlock_phases (sel : Selection) : (s.unlock sel).phases = s.phases := by
  unfold unlock; split <;> rfl
@[simp] theorem unlock_versions (sel : Selection) : (s.unlock sel).versions = s.versions := by
  unfold unlock; split <;> rfl
@[simp] theorem unlock_writes (sel : Selection) : (s.unlock sel).writes = s.writes := by
  unfold unlock; split <;> rfl

end Storage

end DbtNova.StorageProtocol
