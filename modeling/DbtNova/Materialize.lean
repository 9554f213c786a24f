import DbtNova.BoundedCollect
import DbtNova.FileTree
import DbtNova.StorageRoot

/-!
# Materializing a storage artifact

The archive is unpacked into a fresh directory beside the storage root and its one
top-level directory is then swapped for the root. What the archive's URI resolves to
is given, and the tree is taken once the archive is at hand. Removing the old root
and the staging directory is taken to succeed; the source ignores a failure there.
-/
namespace DbtNova.Materialize
open UnixPath FileTree StorageRoot
open BoundedCollect (saturatingAdd)

abbrev Bytes := List UInt8
abbrev Files := Tree Name Bytes

def ioMessage : IoError → String
  | .notFound => "No such file or directory (os error 2)"
  | .notADirectory => "Not a directory (os error 20)"
  | .alreadyExists => "File exists (os error 17)"
  | .isADirectory => "Is a directory (os error 21)"
  | .invalidInput => "Invalid argument (os error 22)"
  | .directoryNotEmpty => "Directory not empty (os error 39)"

def io (x : Except IoError Files) : Result Files :=
  match x with
  | .ok files => .ok files
  | .error e => .error (.ioError (ioMessage e))

inductive EntryKind where
  | dir
  | file
  | other
  deriving DecidableEq, Repr

structure ArchiveEntry where
  path : String
  kind : EntryKind
  bytes : Bytes := []
  deriving DecidableEq, Repr

/-- A regular file: its length, and what reading it as an archive yields, entry by
entry. -/
structure LocalArchive where
  len : ℕ
  entries : List (Result ArchiveEntry)

structure ArtifactArchiveLimits where
  maxEntries : ℕ
  maxUncompressedBytes : ℕ

def ArtifactArchiveLimits.fromConfig (config : DbtNovaConfig) : ArtifactArchiveLimits :=
  ⟨config.artifactArchiveMaxEntries, config.artifactArchiveMaxUncompressedBytes⟩

theorem io_eq_ok {x : Except IoError Files} {files : Files} : io x = .ok files ↔ x = .ok files := by
  cases x with
  | ok files' =>
      constructor
      · intro h
        exact congrArg Except.ok (Except.ok.inj h)
      · intro h
        exact congrArg Except.ok (Except.ok.inj h)
  | error e =>
      constructor
      · intro h
        cases h
      · intro h
        cases h

/-! ## Unpacking -/

def validateArchiveEntryPath (path : String) : Result Unit :=
  if (pathOf path).isAbsolute then
    .error (.serverError ("archive contains absolute path entry: " ++ path))
  else if .parent ∈ (pathOf path).steps then
    .error (.serverError ("archive contains parent traversal entry: " ++ path))
  else .ok ()

/-- The two running totals of an extraction. -/
structure Progress where
  entryCount : ℕ := 0
  uncompressedBytes : ℕ := 0

/-- The checks made for an entry before its parent directory is created. -/
def admitEntry (limits : ArtifactArchiveLimits) (entryCount : ℕ) (entry : ArchiveEntry) :
    Result Unit := do
  if 0 < limits.maxEntries ∧ limits.maxEntries < entryCount then
    throw (.serverError ("archive contains too many entries (" ++ toString entryCount ++ " > " ++
      toString limits.maxEntries ++ ")"))
  validateArchiveEntryPath entry.path
  if entry.kind = .other then
    throw (.serverError ("archive contains unsupported entry type for path: " ++ entry.path))

/-- The running size with the entry counted. -/
def admitBytes (limits : ArtifactArchiveLimits) (uncompressedBytes : ℕ) (entry : ArchiveEntry) :
    Result ℕ :=
  if entry.kind = .file then
    let uncompressedBytes := saturatingAdd uncompressedBytes entry.bytes.length
    if 0 < limits.maxUncompressedBytes ∧ limits.maxUncompressedBytes < uncompressedBytes then
      .error (.serverError ("archive exceeds decompressed size limit (" ++
        toString uncompressedBytes ++ " > " ++ toString limits.maxUncompressedBytes ++ ")"))
    else .ok uncompressedBytes
  else .ok uncompressedBytes

def unpack (files : Files) (outPath : List Name) (entry : ArchiveEntry) : Result Files :=
  if entry.kind = .file then io (writeFile files outPath entry.bytes)
  else io (createDir files outPath)

/-- The directory unpacked into exists, so creating it again in place of the parent of
an entry named `.` changes nothing. -/
def extractEntries (limits : ArtifactArchiveLimits) (outputRoot : List Name) :
    List (Result ArchiveEntry) → Progress → Files → Result Files
  | [], _, files => .ok files
  | read :: rest, progress, files => do
      let entry ← read
      let entryCount := saturatingAdd progress.entryCount 1
      admitEntry limits entryCount entry
      let names := (pathOf entry.path).names
      let files ← io (createDirAll files (outputRoot ++ names.dropLast))
      let uncompressedBytes ← admitBytes limits progress.uncompressedBytes entry
      let files ← unpack files (outputRoot ++ names) entry
      extractEntries limits outputRoot rest ⟨entryCount, uncompressedBytes⟩ files

def extractTarGz (limits : ArtifactArchiveLimits) (archive : LocalArchive)
    (outputRoot : List Name) (files : Files) : Result Files :=
  extractEntries limits outputRoot archive.entries {} files

def singleDirectoryChild (files : Files) (root : List Name) : Result (List Name) :=
  match children files root with
  | [name] =>
      if isDir files (root ++ [name]) then .ok (root ++ [name])
      else .error (.serverError "archive top-level entry must be a directory")
  | names =>
      .error (.serverError ("archive must contain exactly one top-level directory entry; found " ++
        toString names.length))

/-! ## The swap -/

/-- What `unique_suffix` returns at its two calls. -/
structure Suffixes where
  stage : String
  backup : String

def stageRoot (suffixes : Suffixes) (parent : Path) : Path :=
  parent.child (".nova-artifacts-stage-" ++ suffixes.stage).toList

def backupDir (suffixes : Suffixes) (target : Path) : Path :=
  target.withFileName
    (target.fileName?.getD "target".toList ++ (".backup-" ++ suffixes.backup).toList)

def swapDirectoryAtomically (cwd : List Name) (suffixes : Suffixes) (source : List Name)
    (target : Path) (files : Files) : Result Files :=
  let materialize (files : Files) : Result Files :=
    match rename files source (target.denote cwd) with
    | .ok files => .ok files
    | .error e =>
        .error (.serverError ("failed to materialize archive into " ++ target.display ++ ": " ++
          ioMessage e))
  if isPresent files (target.denote cwd) then do
    let backup := (backupDir suffixes target).denote cwd
    let files ← io (rename files (target.denote cwd) backup)
    let files ← materialize files
    return removeDirAll files backup
  else materialize files

def extractArchiveAtomically (cwd : List Name) (suffixes : Suffixes)
    (limits : ArtifactArchiveLimits) (archive : LocalArchive) (target : Path) (files : Files) :
    Result Files :=
  match target.parent? with
  | none =>
      .error (.serverError
        ("cannot materialize archive; target has no parent: " ++ target.display))
  | some parent => do
      let files ← io (createDirAll files (parent.denote cwd))
      let stage := stageRoot suffixes parent
      let files ← io (createDirAll files (stage.denote cwd))
      let extractedRoot := (stage.child "extract-root".toList).denote cwd
      let files ← io (createDirAll files extractedRoot)
      let files ← extractTarGz limits archive extractedRoot files
      let payloadRoot ← singleDirectoryChild files extractedRoot
      let files ← swapDirectoryAtomically cwd suffixes payloadRoot target files
      return removeDirAll files (stage.denote cwd)

/-! ## The storage artifact -/

def storageInstancePresent (home : Option String) (cwd : List Name) (config : DbtNovaConfig)
    (files : Files) : Result Bool := do
  let versionsRoot := ((← storageInstanceRootDir home config).child "versions".toList).denote cwd
  return isDir files versionsRoot &&
    (children files versionsRoot).any fun name => isDir files (versionsRoot ++ [name])

def shouldMaterialize (label : String) (policy : ArtifactFetchPolicy) (isPresent : Bool) :
    Result Bool :=
  match policy with
  | .always => .ok true
  | .ifMissing => .ok !isPresent
  | .never =>
      if isPresent then .ok false
      else
        .error (.serverError ("artifact fetch policy is 'never' but no " ++ label ++
          " are present locally"))

def ensureMaterializationAllowed (config : DbtNovaConfig) (shouldMaterialize : Bool)
    (label : String) : Result Unit :=
  if config.storageReadOnly && shouldMaterialize then
    .error (.serverError ("Storage is read-only; cannot materialize " ++ label ++
      " on first-run hydration. Supported flows: either unset DBT_NOVA_STORAGE_READ_ONLY and use " ++
      "DBT_NOVA_ARTIFACT_FETCH_POLICY=if_missing|always to hydrate locally, or keep " ++
      "DBT_NOVA_STORAGE_READ_ONLY=true with DBT_NOVA_ARTIFACT_FETCH_POLICY=never after assets are " ++
      "already materialized locally."))
  else .ok ()

def ensureArtifactFileWithinLimit (name : String) (len maxBytes : ℕ) : Result Unit :=
  if 0 < maxBytes ∧ maxBytes < len then
    .error (.serverError (name ++ " exceeds configured artifact size limit (" ++ toString len ++
      " > " ++ toString maxBytes ++ ")"))
  else .ok ()

/-- Whether the storage was materialized, and the tree after the call. -/
def materializeStorageArtifact (home : Option String) (cwd : List Name) (suffixes : Suffixes)
    (config : DbtNovaConfig) (resolved : Result LocalArchive) (files : Files) :
    Result (Bool × Files) := do
  let storageTarget ← storageRootDir home config
  let storagePresent ← storageInstancePresent home cwd config files
  let shouldMaterializeStorage ←
    shouldMaterialize "storage artifacts" config.artifactFetchPolicy storagePresent
  ensureMaterializationAllowed config shouldMaterializeStorage "storage artifacts"
  if shouldMaterializeStorage then
    let archive ← resolved
    ensureArtifactFileWithinLimit "DBT_NOVA_STORAGE_ARTIFACT_URI" archive.len
      config.artifactMaxBytes
    let files ← extractArchiveAtomically cwd suffixes (.fromConfig config) archive storageTarget
      files
    return (true, files)
  else return (false, files)

/-! ## What unpacking does -/

section Unpacking
variable {limits : ArtifactArchiveLimits} {root : List Name} {t t' s : Files}

theorem unpack_mirrors (hmirror : Mirrors root t s) {rest : List Name} {entry : ArchiveEntry}
    (h : unpack t (root ++ rest) entry = .ok t') :
    ∃ s', unpack s rest entry = .ok s' ∧ Mirrors root t' s' ∧ SameOutside root t t' := by
  unfold unpack at h ⊢
  split at h
  next hkind =>
    rw [if_pos hkind]
    obtain ⟨s', hput, hmirror', hsame⟩ := hmirror.writeFile (io_eq_ok.mp h)
    exact ⟨s', io_eq_ok.mpr hput, hmirror', hsame⟩
  next hkind =>
    rw [if_neg hkind]
    obtain ⟨s', hput, hmirror', hsame⟩ := hmirror.createDir (io_eq_ok.mp h)
    exact ⟨s', io_eq_ok.mpr hput, hmirror', hsame⟩

/-- What an archive puts below a directory does not depend on the rest of the tree. -/
theorem extractEntries_mirrors (hmirror : Mirrors root t s) {entries : List (Result ArchiveEntry)}
    {progress : Progress} (h : extractEntries limits root entries progress t = .ok t') :
    ∃ s', extractEntries limits [] entries progress s = .ok s' ∧
      Mirrors root t' s' ∧ SameOutside root t t' := by
  induction entries generalizing progress t s with
  | nil =>
      rw [← Except.ok.inj h]
      exact ⟨s, rfl, hmirror, fun q _ => rfl⟩
  | cons read rest ih =>
      unfold extractEntries at h ⊢
      obtain ⟨entry, hread, h⟩ := bind_eq_ok.mp h
      obtain ⟨admitted, hadmit, h⟩ := bind_eq_ok.mp h
      obtain ⟨t₁, hparent, h⟩ := bind_eq_ok.mp h
      obtain ⟨bytes, hbytes, h⟩ := bind_eq_ok.mp h
      obtain ⟨t₂, hunpack, h⟩ := bind_eq_ok.mp h
      obtain ⟨s₁, hparent', hmirror₁, hsame₁⟩ := hmirror.createDirAll (io_eq_ok.mp hparent)
      obtain ⟨s₂, hunpack', hmirror₂, hsame₂⟩ := unpack_mirrors hmirror₁ hunpack
      obtain ⟨s', hrest, hmirror', hsame⟩ := ih hmirror₂ h
      refine ⟨s', ?_, hmirror', (hsame₁.trans hsame₂).trans hsame⟩
      exact bind_eq_ok.mpr ⟨entry, hread, bind_eq_ok.mpr ⟨admitted, hadmit,
        bind_eq_ok.mpr ⟨s₁, io_eq_ok.mpr hparent', bind_eq_ok.mpr ⟨bytes, hbytes,
          bind_eq_ok.mpr ⟨s₂, hunpack', hrest⟩⟩⟩⟩⟩

theorem singleDirectoryChild_ok {payload : List Name}
    (h : singleDirectoryChild t root = .ok payload) :
    ∃ name, children t root = [name] ∧ isDir t (root ++ [name]) = true ∧
      payload = root ++ [name] := by
  unfold singleDirectoryChild at h
  split at h
  next name hchildren =>
    split at h
    next hdir => exact ⟨name, hchildren, hdir, (Except.ok.inj h).symm⟩
    · cases h
  · cases h

theorem singleDirectoryChild_mirrors (hmirror : Mirrors root t s) {payload : List Name}
    (h : singleDirectoryChild t root = .ok payload) :
    ∃ name, payload = root ++ [name] ∧ singleDirectoryChild s [] = .ok [name] := by
  obtain ⟨name, hchildren, hdir, hpayload⟩ := singleDirectoryChild_ok h
  have hperm := hmirror.children []
  rw [List.append_nil, hchildren] at hperm
  rw [hmirror.isDir] at hdir
  refine ⟨name, hpayload, ?_⟩
  unfold singleDirectoryChild
  rw [← List.singleton_perm.mp hperm]
  simp only [List.nil_append, hdir, if_true]

end Unpacking

/-! ## What the swap does -/

section Swap
variable {cwd : List Name} {suffixes : Suffixes} {target parent : Path} {t t' : Files}

theorem sibling_prefix_iff {dir rest : List Name} {a b : Name} :
    dir ++ [a] <+: dir ++ b :: rest ↔ a = b := by
  rw [List.prefix_append_right_inj, List.cons_prefix_cons]
  simp

theorem denote_backupDir (cwd : List Name) (suffixes : Suffixes) {name : Name}
    (hparent : target.parent? = some parent)
    (hname : target.fileName? = some name) :
    (backupDir suffixes target).denote cwd =
      parent.denote cwd ++ [name ++ (".backup-" ++ suffixes.backup).toList] := by
  unfold backupDir Path.withFileName
  rw [hparent, hname]
  exact denote_child cwd parent _

theorem backup_name_ne (name : Name) : name ≠ name ++ (".backup-" ++ suffixes.backup).toList := by
  intro h
  have hempty := List.self_eq_append_right.mp h
  rw [String.toList_append] at hempty
  cases (List.append_eq_nil_iff.mp hempty).1

/-- A target without a file name holds its parent, and cannot be moved into itself. -/
theorem swap_fileName {source : List Name} (hparent : target.parent? = some parent)
    (hdirs : ∀ q, q <+: parent.denote cwd → node t q = some .dir)
    (h : swapDirectoryAtomically cwd suffixes source target t = .ok t') :
    ∃ name, target.fileName? = some name ∧
      target.denote cwd = parent.denote cwd ++ [name] := by
  cases denote_parent cwd hparent with
  | inl hname => exact hname
  | inr hnone =>
      have hpresent : isPresent t (target.denote cwd) = true := by
        rw [isPresent, hdirs _ hnone.2]
        rfl
      have hbackup : target.denote cwd <+: (backupDir suffixes target).denote cwd := by
        unfold backupDir Path.withFileName
        rw [hnone.1]
        change _ <+: (target.child _).denote cwd
        rw [denote_child]
        exact List.prefix_append _ _
      unfold swapDirectoryAtomically at h
      simp only [hpresent, if_true] at h
      obtain ⟨t₁, hrename, -⟩ := bind_eq_ok.mp h
      exact absurd hbackup (rename_ok (io_eq_ok.mp hrename)).2.1

theorem materialize_ok {x : Except IoError Files} {message : IoError → String}
    (h : (match x with
      | .ok files => .ok files
      | .error e => .error (.serverError (message e)) : Result Files) = .ok t) : x = .ok t := by
  cases x with
  | ok files => exact congrArg Except.ok (Except.ok.inj h)
  | error e => cases h

theorem swap_spec {stage : Name} {source : List Name} {name : Name}
    (hparent : target.parent? = some parent) (hname : target.fileName? = some name)
    (hdenote : target.denote cwd = parent.denote cwd ++ [name])
    (hstage : node t (parent.denote cwd ++ [stage]) = some .dir)
    (hsource : parent.denote cwd ++ [stage] <+: source)
    (hfresh : ∀ q, (backupDir suffixes target).denote cwd <+: q →
      ¬ parent.denote cwd ++ [stage] <+: q → node t q = none)
    (h : swapDirectoryAtomically cwd suffixes source target t = .ok t') :
    name ≠ stage ∧
      (∀ rest, node t' (target.denote cwd ++ rest) = node t (source ++ rest)) ∧
      ∀ q, ¬ target.denote cwd <+: q → ¬ parent.denote cwd ++ [stage] <+: q →
        node t' q = node t q := by
  have hbackup := denote_backupDir cwd suffixes hparent hname
  have hunder : ∀ {other : Name}, other ≠ stage → ∀ rest,
      ¬ parent.denote cwd ++ [other] <+: source ++ rest := by
    intro other hother rest hstart
    obtain ⟨below, hbelow⟩ := hsource
    rw [← hbelow, List.append_assoc, List.append_assoc, List.singleton_append,
      sibling_prefix_iff] at hstart
    exact hother hstart
  have hapart : ∀ {other : Name}, other ≠ stage → ¬ parent.denote cwd ++ [other] <+: source := by
    intro other hother
    have hnil := hunder hother []
    rwa [List.append_nil] at hnil
  have hfree : ∀ {other : Name}, node t (parent.denote cwd ++ [other]) = none → other ≠ stage := by
    intro other hother heq
    rw [heq, hstage] at hother
    cases hother
  unfold swapDirectoryAtomically at h
  rw [hdenote] at h ⊢
  cases hpresent : isPresent t (parent.denote cwd ++ [name]) with
  | true =>
      simp only [hpresent, if_true] at h
      rw [hbackup] at h hfresh
      obtain ⟨t₁, hfirst, h⟩ := bind_eq_ok.mp h
      obtain ⟨t₂, hsecond, h⟩ := bind_eq_ok.mp h
      have hfirst := io_eq_ok.mp hfirst
      have hsecond := materialize_ok hsecond
      have hback := hfree (rename_ok hfirst).2.2
      have hmoved : ¬ parent.denote cwd ++ [name ++ (".backup-" ++ suffixes.backup).toList] <+:
          parent.denote cwd ++ [name] :=
        fun hstart => backup_name_ne name (sibling_prefix_iff.mp hstart).symm
      -- were the staging directory the target, the payload would have moved with it
      have hne : name ≠ stage := by
        intro heq
        have hgone := node_rename_gone hfirst hmoved (hapart hback) (heq ▸ hsource)
        have hthere := (rename_ok hsecond).1
        rw [isPresent, hgone] at hthere
        cases hthere
      rw [← Except.ok.inj h]
      refine ⟨hne, ?_, ?_⟩
      · intro rest
        rw [node_removeDirAll, if_neg, node_rename_below hsecond (hapart hne),
          node_rename_other hfirst hmoved (hunder hback rest) (hunder hne rest)]
        rw [List.append_assoc, List.singleton_append, sibling_prefix_iff]
        exact (backup_name_ne name).symm
      · intro q htarget hout
        have hpayload : ¬ source <+: q := fun hstart => hout (hsource.trans hstart)
        rw [node_removeDirAll]
        split
        next hbelow => exact (hfresh q hbelow hout).symm
        next hbelow =>
          rw [node_rename_other hsecond (hapart hne) htarget hpayload,
            node_rename_other hfirst hmoved hbelow htarget]
  | false =>
      simp only [hpresent, Bool.false_eq_true, if_false] at h
      have hrename := materialize_ok h
      have hne : name ≠ stage := hfree (rename_ok hrename).2.2
      refine ⟨hne, node_rename_below hrename (hapart hne), ?_⟩
      intro q htarget hout
      have hpayload : ¬ source <+: q := fun hstart => hout (hsource.trans hstart)
      exact node_rename_other hrename (hapart hne) htarget hpayload

end Swap

/-! ## What a materialization does -/

/-- The archive unpacked into an empty directory, and its top-level directory there. -/
def archivePayload (limits : ArtifactArchiveLimits) (archive : LocalArchive) :
    Result (Files × List Name) := do
  let files ← extractTarGz limits archive [] [([], .dir)]
  return (files, ← singleDirectoryChild files [])

/-- Nothing stands at the two temporary names yet. -/
def FreshSuffixes (cwd : List Name) (suffixes : Suffixes) (target : Path) (files : Files) : Prop :=
  ∀ parent, target.parent? = some parent →
    (∀ q, (stageRoot suffixes parent).denote cwd <+: q → node files q = none) ∧
    ∀ q, (backupDir suffixes target).denote cwd <+: q → node files q = none

theorem node_stageTree {t t₁ t₂ t₃ : Files} {dir : List Name} {a b : Name}
    (h₁ : createDirAll t dir = .ok t₁) (h₂ : createDirAll t₁ (dir ++ [a]) = .ok t₂)
    (h₃ : createDirAll t₂ (dir ++ [a] ++ [b]) = .ok t₃) (q : List Name) :
    node t₃ q = if q <+: dir ++ [a] ++ [b] then some .dir else node t q := by
  rw [node_createDirAll h₃, node_createDirAll h₂, node_createDirAll h₁]
  by_cases hq : q <+: dir ++ [a] ++ [b]
  · rw [if_pos hq, if_pos hq]
  · have hup : ¬ q <+: dir ++ [a] := fun h => hq (h.trans (List.prefix_append _ _))
    have htop : ¬ q <+: dir := fun h => hup (h.trans (List.prefix_append _ _))
    rw [if_neg hq, if_neg hq, if_neg hup, if_neg htop]

section StageTree
variable {t t₃ : Files} {dir : List Name} {stage extract : Name}
  (hnode : ∀ q, node t₃ q = if q <+: dir ++ [stage] ++ [extract] then some .dir else node t q)
include hnode

theorem stageTree_mirrors (hstage : ∀ q, dir ++ [stage] <+: q → node t q = none) :
    Mirrors (dir ++ [stage] ++ [extract]) t₃ [([], .dir)] := by
  constructor
  · intro rest
    cases rest with
    | nil =>
        rw [List.append_nil, hnode, if_pos (List.prefix_refl _)]
        rfl
    | cons x rest =>
        have hbelow : ¬ dir ++ [stage] ++ [extract] ++ x :: rest <+:
            dir ++ [stage] ++ [extract] := by
          intro hstart
          have hlength := hstart.length_le
          rw [List.length_append, List.length_cons] at hlength
          omega
        rw [hnode, if_neg hbelow, List.append_assoc]
        exact hstage _ (List.prefix_append _ _)
  · intro q hq
    rw [hnode, if_pos hq]

/-- Extracting below the stage leaves everything else alone. -/
theorem stageTree_unchanged {t₄ : Files} {q : List Name}
    (hsame : ∀ q, ¬ dir ++ [stage] ++ [extract] <+: q → node t₄ q = node t₃ q)
    (hout : ¬ dir ++ [stage] <+: q) (hdir : ¬ q <+: dir) : node t₄ q = node t q := by
  have hextracted : ¬ dir ++ [stage] ++ [extract] <+: q :=
    fun hstart => hout ((List.prefix_append _ _).trans hstart)
  rw [hsame q hextracted, hnode, if_neg]
  intro hstart
  cases List.prefix_concat_iff.mp hstart with
  | inl heq => exact hextracted (heq ▸ List.prefix_refl q)
  | inr hstart =>
      cases List.prefix_concat_iff.mp hstart with
      | inl heq => exact hout (heq ▸ List.prefix_refl q)
      | inr hstart => exact hdir hstart

end StageTree

/-- The target becomes the archive's directory, and only what leads to the target may
have changed elsewhere. -/
theorem extractArchiveAtomically_spec {cwd : List Name} {suffixes : Suffixes}
    {limits : ArtifactArchiveLimits} {archive : LocalArchive} {target : Path} {t t' : Files}
    (hfresh : FreshSuffixes cwd suffixes target t)
    (h : extractArchiveAtomically cwd suffixes limits archive target t = .ok t') :
    ∃ payload, archivePayload limits archive = .ok payload ∧
      (∀ rest, node t' (target.denote cwd ++ rest) = node payload.1 (payload.2 ++ rest)) ∧
      ∀ q, ¬ target.denote cwd <+: q → ¬ q <+: target.denote cwd → node t' q = node t q := by
  unfold extractArchiveAtomically at h
  cases hparent : target.parent? with
  | none =>
      rw [hparent] at h
      cases h
  | some parent =>
      rw [hparent] at h
      obtain ⟨hstage, hbackup⟩ := hfresh parent hparent
      obtain ⟨t₁, h₁, h⟩ := bind_eq_ok.mp h
      obtain ⟨t₂, h₂, h⟩ := bind_eq_ok.mp h
      obtain ⟨t₃, h₃, h⟩ := bind_eq_ok.mp h
      obtain ⟨t₄, hextract, h⟩ := bind_eq_ok.mp h
      obtain ⟨payloadRoot, hchild, h⟩ := bind_eq_ok.mp h
      obtain ⟨t₅, hswap, hdone⟩ := bind_eq_ok.mp h
      have hstageDenote : (stageRoot suffixes parent).denote cwd =
          parent.denote cwd ++ [(".nova-artifacts-stage-" ++ suffixes.stage).toList] :=
        denote_child cwd parent _
      rw [hstageDenote] at hstage h₂ hdone
      rw [denote_child, hstageDenote] at h₃ hextract hchild
      generalize (".nova-artifacts-stage-" ++ suffixes.stage).toList = stage
        at hstage h₂ h₃ hextract hchild hdone
      generalize "extract-root".toList = extractName at h₃ hextract hchild
      have hnode := node_stageTree (io_eq_ok.mp h₁) (io_eq_ok.mp h₂) (io_eq_ok.mp h₃)
      have hmirror := stageTree_mirrors hnode hstage
      have hup : ∀ q, q <+: parent.denote cwd →
          q <+: parent.denote cwd ++ [stage] ++ [extractName] := by
        intro q hq
        rw [List.append_assoc]
        exact hq.trans (List.prefix_append _ _)
      obtain ⟨s, hextract', hmirror', hsame⟩ := extractEntries_mirrors hmirror hextract
      obtain ⟨top, hpayload, hchild'⟩ := singleDirectoryChild_mirrors hmirror' hchild
      obtain ⟨name, hname, hdenote⟩ := swap_fileName hparent
        (fun q hq => hmirror'.above q (hup q hq)) hswap
      have hswapped := swap_spec hparent hname hdenote
        (hmirror'.above _ (List.prefix_append _ _))
        (by rw [hpayload, List.append_assoc]; exact List.prefix_append _ _)
        (by
          intro q hstart hout
          refine (stageTree_unchanged hnode hsame hout ?_).trans (hbackup q hstart)
          intro hdir
          have hlength := (hstart.trans hdir).length_le
          rw [denote_backupDir cwd suffixes hparent hname, List.length_append] at hlength
          simp at hlength)
        hswap
      obtain ⟨hne, hbelow, hother⟩ := hswapped
      refine ⟨(s, [top]), ?_, ?_, ?_⟩
      · exact bind_eq_ok.mpr ⟨s, hextract', bind_eq_ok.mpr ⟨[top], hchild', rfl⟩⟩
      · intro rest
        rw [← Except.ok.inj hdone, node_removeDirAll, if_neg, hbelow, hpayload, List.append_assoc]
        · exact hmirror'.below _
        · rw [hdenote, List.append_assoc, List.singleton_append, sibling_prefix_iff]
          exact Ne.symm hne
      · intro q htarget habove
        rw [← Except.ok.inj hdone, node_removeDirAll]
        split
        next hstart => exact (hstage q hstart).symm
        next hout =>
          rw [hother q htarget hout]
          refine stageTree_unchanged hnode hsame hout fun hdir => ?_
          rw [hdenote] at habove
          exact habove (hdir.trans (List.prefix_append _ _))

/-- Only the configured instance has changed, and what leads to it or to the root. -/
def KeepsOthers (home : Option String) (cwd : List Name) (config : DbtNovaConfig)
    (files files' : Files) : Prop :=
  ∀ root inst, storageRootDir home config = .ok root →
    storageInstanceRootDir home config = .ok inst →
    ∀ q, ¬ q <+: root.denote cwd → ¬ inst.denote cwd <+: q → ¬ q <+: inst.denote cwd →
      node files' q = node files q

/-- Outside the instance the archive holds what the storage root holds. -/
def AgreesOutside (home : Option String) (cwd : List Name) (config : DbtNovaConfig)
    (archive : LocalArchive) (files : Files) : Prop :=
  ∀ root inst payload, storageRootDir home config = .ok root →
    storageInstanceRootDir home config = .ok inst →
    archivePayload (.fromConfig config) archive = .ok payload →
    ∀ rest, rest ≠ [] → ¬ inst.denote cwd <+: root.denote cwd ++ rest →
      ¬ root.denote cwd ++ rest <+: inst.denote cwd →
      node payload.1 (payload.2 ++ rest) = node files (root.denote cwd ++ rest)

def NothingToMaterialize (home : Option String) (cwd : List Name) (config : DbtNovaConfig)
    (files : Files) : Prop :=
  storageInstancePresent home cwd config files = .ok true ∧ config.artifactFetchPolicy ≠ .always

section Materialization
variable {home : Option String} {cwd : List Name} {suffixes : Suffixes} {config : DbtNovaConfig}
  {resolved : Result LocalArchive} {files files' : Files} {materialized : Bool}

theorem shouldMaterialize_false {label : String} {policy : ArtifactFetchPolicy} {present : Bool} :
    shouldMaterialize label policy present = .ok false ↔ present = true ∧ policy ≠ .always := by
  cases policy <;> cases present <;> simp [shouldMaterialize]

/-- A successful call has either found nothing to do or swapped the root. -/
theorem materialize_ok_cases
    (h : materializeStorageArtifact home cwd suffixes config resolved files =
      .ok (materialized, files')) :
    (NothingToMaterialize home cwd config files ∧ files' = files) ∨
      ¬ NothingToMaterialize home cwd config files ∧
        ∃ root archive, storageRootDir home config = .ok root ∧ resolved = .ok archive ∧
          extractArchiveAtomically cwd suffixes (.fromConfig config) archive root files =
            .ok files' := by
  unfold materializeStorageArtifact at h
  obtain ⟨root, hroot, h⟩ := bind_eq_ok.mp h
  obtain ⟨present, hpresent, h⟩ := bind_eq_ok.mp h
  obtain ⟨should, hshould, h⟩ := bind_eq_ok.mp h
  obtain ⟨allowed, hallowed, h⟩ := bind_eq_ok.mp h
  cases should with
  | false =>
      left
      have hnothing := shouldMaterialize_false.mp hshould
      exact ⟨⟨hnothing.1 ▸ hpresent, hnothing.2⟩, (congrArg Prod.snd (Except.ok.inj h)).symm⟩
  | true =>
      right
      obtain ⟨archive, harchive, h⟩ := bind_eq_ok.mp h
      obtain ⟨limited, hlimited, h⟩ := bind_eq_ok.mp h
      obtain ⟨swapped, hswapped, h⟩ := bind_eq_ok.mp h
      have hfiles : swapped = files' := congrArg Prod.snd (Except.ok.inj h)
      refine ⟨?_, root, archive, hroot, harchive, hfiles ▸ hswapped⟩
      intro hnothing
      have hsame : present = true := Except.ok.inj (hpresent.symm.trans hnothing.1)
      rw [shouldMaterialize_false.mpr ⟨hsame, hnothing.2⟩] at hshould
      cases hshould

theorem materialize_keeps_others_iff
    (hfresh : ∀ root, storageRootDir home config = .ok root →
      FreshSuffixes cwd suffixes root files)
    (h : materializeStorageArtifact home cwd suffixes config resolved files =
      .ok (materialized, files')) :
    KeepsOthers home cwd config files files' ↔
      NothingToMaterialize home cwd config files ∨
        ∀ archive, resolved = .ok archive → AgreesOutside home cwd config archive files := by
  cases materialize_ok_cases h with
  | inl hnothing =>
      constructor
      · intro _
        exact .inl hnothing.1
      · intro _ root inst _ _ q _ _ _
        rw [hnothing.2]
  | inr hswap =>
      obtain ⟨hsome, root, archive, hroot, harchive, hextract⟩ := hswap
      obtain ⟨payload, hpayload, hbelow, hother⟩ :=
        extractArchiveAtomically_spec (hfresh root hroot) hextract
      constructor
      · intro hkeeps
        right
        intro archive' harchive' root' inst payload' hroot' hinst hpayload' rest hrest hout hup
        cases Except.ok.inj (harchive.symm.trans harchive')
        cases Except.ok.inj (hroot.symm.trans hroot')
        cases Except.ok.inj (hpayload.symm.trans hpayload')
        rw [← hbelow rest]
        refine hkeeps root inst hroot hinst _ ?_ hout hup
        intro hstart
        have hlength := hstart.length_le
        rw [List.length_append] at hlength
        exact hrest (List.length_eq_zero_iff.mp (by omega))
      · intro hcond root' inst hroot' hinst q habove hout hup
        cases Except.ok.inj (hroot.symm.trans hroot')
        by_cases hq : root.denote cwd <+: q
        · obtain ⟨rest, hrest⟩ := hq
          subst hrest
          have hne : rest ≠ [] := by
            intro hnil
            rw [hnil, List.append_nil] at habove
            exact habove (List.prefix_refl _)
          cases hcond with
          | inl hnothing => exact absurd hnothing hsome
          | inr hagrees =>
              rw [hbelow rest]
              exact hagrees archive harchive root inst payload hroot hinst hpayload rest hne hout
                hup
        · exact hother q hq habove

end Materialization

def hydrateConfig : DbtNovaConfig :=
  { storageDir := "/srv/nova", storageInstanceId := "a" }

def hydrateArchive : LocalArchive :=
  ⟨64, [.ok ⟨"nova", .dir, []⟩, .ok ⟨"nova/instances/a/versions/v1/index", .file, [7]⟩]⟩

def hydrated (files : Files) : Result (Bool × Files) :=
  materializeStorageArtifact none [] ⟨"1", "2"⟩ hydrateConfig (.ok hydrateArchive) files

/-- A root that holds another instance beside the one to be hydrated. -/
def sharedRoot : Files :=
  [(["srv".toList, "nova".toList, "instances".toList, "b".toList], .dir),
    (["srv".toList, "nova".toList, "instances".toList], .dir),
    (["srv".toList, "nova".toList], .dir), (["srv".toList], .dir), ([], .dir)]

theorem hydrate_fresh {files : Files}
    (h : ∀ e ∈ files, ¬ ["srv".toList, ".nova-artifacts-stage-1".toList] <+: e.1 ∧
      ¬ ["srv".toList, "nova.backup-2".toList] <+: e.1)
    (root : Path) (hroot : storageRootDir none hydrateConfig = .ok root) :
    FreshSuffixes [] ⟨"1", "2"⟩ root files := by
  have hpath : storageRootDir none hydrateConfig = .ok (pathOf "/srv/nova") := by decide
  cases Except.ok.inj (hroot.symm.trans hpath)
  intro parent hparent
  have hsrv : (pathOf "/srv/nova").parent? = some (pathOf "/srv") := by decide
  cases Option.some.inj (hparent.symm.trans hsrv)
  have hstage : (stageRoot ⟨"1", "2"⟩ (pathOf "/srv")).denote [] =
      ["srv".toList, ".nova-artifacts-stage-1".toList] := by decide
  have hbackup : (backupDir ⟨"1", "2"⟩ (pathOf "/srv/nova")).denote [] =
      ["srv".toList, "nova.backup-2".toList] := by decide
  rw [hstage, hbackup]
  constructor
  · intro q hq
    exact node_eq_none fun e he heq => (h e he).1 (heq ▸ hq)
  · intro q hq
    exact node_eq_none fun e he heq => (h e he).2 (heq ▸ hq)

/-- A run on a known tree, and one thing its result shows. -/
theorem hydrated_ok (files : Files) (shows : Files → Bool)
    (h : ((hydrated files).toOption.any fun r => r.1 && shows r.2) = true) :
    ∃ files', hydrated files = .ok (true, files') ∧ shows files' = true := by
  cases hrun : hydrated files with
  | error e =>
      rw [hrun] at h
      cases h
  | ok r =>
      rw [hrun] at h
      obtain ⟨materialized, files'⟩ := r
      have hboth := Bool.and_eq_true_iff.mp h
      have hmaterialized : materialized = true := hboth.1
      subst hmaterialized
      exact ⟨files', rfl, hboth.2⟩

/-- On an empty file system the archive brings nothing but the instance. -/
theorem hydrate_empty_keeps_others :
    ∃ files', hydrated [([], .dir)] = .ok (true, files') ∧
      KeepsOthers none [] hydrateConfig [([], .dir)] files' := by
  obtain ⟨files', hrun, -⟩ := hydrated_ok [([], .dir)] (fun _ => true)
    (by decide)
  refine ⟨files', hrun, (materialize_keeps_others_iff (hydrate_fresh (by decide))
    hrun).mpr (.inr ?_)⟩
  intro archive harchive root inst payload hroot hinst hpayload rest hrest hout hup
  cases Except.ok.inj harchive
  have hdirs : (root.denote [], inst.denote []) =
      (["srv".toList, "nova".toList], ["srv".toList, "nova".toList] ++
        ["instances".toList, "a".toList]) := by
    have hroot' : storageRootDir none hydrateConfig = .ok (pathOf "/srv/nova") := by decide
    have hinst' : storageInstanceRootDir none hydrateConfig =
        .ok (pathOf "/srv/nova/instances/a") := by decide
    cases Except.ok.inj (hroot.symm.trans hroot')
    cases Except.ok.inj (hinst.symm.trans hinst')
    decide
  have hkeys : (archivePayload (.fromConfig hydrateConfig) hydrateArchive).toOption.all (fun p =>
      p.2.length == 1 && p.1.all fun e =>
        decide (e.1.drop 1 <+: ["instances".toList, "a".toList] ∨
          ["instances".toList, "a".toList] <+: e.1.drop 1)) = true := by decide
  rw [hpayload] at hkeys
  obtain ⟨hlength, hkeys⟩ := Bool.and_eq_true_iff.mp hkeys
  obtain ⟨hrootDenote, hinstDenote⟩ := Prod.mk.inj hdirs
  rw [hrootDenote, hinstDenote, List.prefix_append_right_inj] at hout hup
  have hpayloadNone : node payload.1 (payload.2 ++ rest) = none := by
    apply node_eq_none
    intro e he heq
    have hkey := of_decide_eq_true (List.all_eq_true.mp hkeys e he)
    rw [heq, ← of_decide_eq_true hlength, List.drop_left] at hkey
    cases hkey with
    | inl habove => exact hup habove
    | inr hbelow => exact hout hbelow
  have hfilesNone : node ([([], .dir)] : Files) (root.denote [] ++ rest) = none := by
    apply node_eq_none
    intro e he heq
    rw [List.mem_singleton.mp he] at heq
    exact hrest (List.append_eq_nil_iff.mp heq.symm).2
  rw [hpayloadNone, hfilesNone]

/-- Hydrating instance `a` removes instance `b`. -/
theorem hydrate_removes_other_instance :
    ¬ ∀ (home : Option String) (cwd : List Name) (suffixes : Suffixes) (config : DbtNovaConfig)
        (resolved : Result LocalArchive) (files files' : Files) (materialized : Bool),
      (∀ root, storageRootDir home config = .ok root → FreshSuffixes cwd suffixes root files) →
      materializeStorageArtifact home cwd suffixes config resolved files =
        .ok (materialized, files') →
      KeepsOthers home cwd config files files' := by
  intro h
  let other : List Name := ["srv".toList, "nova".toList, "instances".toList, "b".toList]
  obtain ⟨files', hrun, hgone⟩ := hydrated_ok sharedRoot
    (fun files => !isPresent files other) (by decide)
  have hkeeps := h none [] ⟨"1", "2"⟩ hydrateConfig (.ok hydrateArchive) sharedRoot files' true
    (hydrate_fresh (by decide)) hrun
  have hother := hkeeps (pathOf "/srv/nova") (pathOf "/srv/nova/instances/a")
    (by decide) (by decide) other (by decide) (by decide)
    (by decide)
  have hthere : node sharedRoot other = some .dir := by decide
  rw [isPresent, hother, hthere] at hgone
  cases hgone

end DbtNova.Materialize
