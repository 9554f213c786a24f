import DbtNova.Config
import DbtNova.UnixPath

/-!
# The storage root and what lies under it

The root is the configured storage directory, joined to the manifest's directory
for a local manifest and to the manifest cache or the home directory for a remote
one. Materializing an artifact replaces the root as a whole, so it must not hold
data that is not the server's. The guard compares spellings; `Spares` speaks of the
directories they denote.
-/
namespace DbtNova.StorageRoot
open UnixPath

def pathOf (text : String) : Path := ofText text.toList

def manifestDir (config : DbtNovaConfig) : Path :=
  (pathOf config.manifestPath).parent?.getD (pathOf ".")

/-- The directory the storage directory is joined to. -/
def joinBase (home : Option String) (config : DbtNovaConfig) : Path :=
  if isBlank config.manifestUri then manifestDir config
  else if !isBlank config.manifestCacheDir then pathOf config.manifestCacheDir
  else (home.map pathOf).getD (pathOf ".")

def storageRootDir (home : Option String) (config : DbtNovaConfig) : Result Path :=
  if isBlank config.storageDir || config.storageDir == "." || config.storageDir == "./"
      || config.storageDir == "/" then
    .error (.serverError "Refusing to use storage directory; DBT_NOVA_STORAGE_DIR is unsafe")
  else
    let storageDirPath := pathOf config.storageDir
    if .parent ∈ storageDirPath.steps then
      .error (.serverError
        "Refusing to use storage directory; DBT_NOVA_STORAGE_DIR contains '..'")
    else
      let storageRoot := (joinBase home config).join storageDirPath
      if isBlank config.manifestUri ∧ storageRoot = manifestDir config then
        .error (.serverError
          "Refusing to use storage directory; resolved to manifest directory")
      else .ok storageRoot

def storageInstancesDir (home : Option String) (config : DbtNovaConfig) : Result Path := do
  return (← storageRootDir home config).child "instances".toList

def storageInstanceRootDir (home : Option String) (config : DbtNovaConfig) : Result Path := do
  return (← storageInstancesDir home config).join (pathOf config.storageInstanceId)

def manifestCacheDir (home : Option String) (config : DbtNovaConfig) : Result Path :=
  if !isBlank config.manifestCacheDir then .ok (pathOf config.manifestCacheDir)
  else do return (← storageRootDir home config).child "manifests".toList

def artifactsCacheDir (home : Option String) (config : DbtNovaConfig) : Result Path :=
  if !isBlank config.artifactsCacheDir then .ok (pathOf config.artifactsCacheDir)
  else do return (← storageRootDir home config).child "artifacts".toList

/-- What a successful call has checked. -/
theorem storageRootDir_ok {home : Option String} {config : DbtNovaConfig} {p : Path}
    (h : storageRootDir home config = .ok p) :
    Step.parent ∉ (pathOf config.storageDir).steps ∧
      p = (joinBase home config).join (pathOf config.storageDir) := by
  unfold storageRootDir at h
  split at h
  · cases h
  simp only at h
  split at h
  · cases h
  next hparent =>
    split at h
    · cases h
    · exact ⟨hparent, (Except.ok.inj h).symm⟩

/-! ## The directories a root must spare -/

inductive Neighbour where
  | manifest
  | cache
  | home
  deriving DecidableEq, Repr

/-- A cache directory that is not configured lies in the root by default. -/
def protectedDirs (home : Option String) (config : DbtNovaConfig) : List (Neighbour × Path) :=
  (.manifest, manifestDir config) ::
    ((if isBlank config.manifestCacheDir then []
      else [(.cache, pathOf config.manifestCacheDir)]) ++
      home.toList.map fun text => (.home, pathOf text))

/-- The root is not the root of the file system, and replacing it leaves the
manifest's directory, the configured cache and the home directory in place. -/
def Spares (cwd : List Name) (home : Option String) (config : DbtNovaConfig) (p : Path) : Prop :=
  p.denote cwd ≠ [] ∧ ∀ d ∈ protectedDirs home config, ¬ p.denote cwd <+: d.2.denote cwd

def baseNeighbour (config : DbtNovaConfig) : Neighbour :=
  if isBlank config.manifestUri then .manifest
  else if !isBlank config.manifestCacheDir then .cache
  else .home

/-- An absolute storage directory names something, and not a directory on the way to
a protected one. A relative one names something below its base, unless the base is
the working directory in place of a missing `HOME`, and is not on the way to one of
the other protected directories. -/
def StorageDirSafe (cwd : List Name) (home : Option String) (config : DbtNovaConfig) : Prop :=
  let storageDir := pathOf config.storageDir
  if storageDir.isAbsolute then
    storageDir.names ≠ [] ∧
      ∀ d ∈ protectedDirs home config, ¬ storageDir.names <+: d.2.denote cwd
  else
    (storageDir.names ≠ [] ∨
      baseNeighbour config = .home ∧ home = none ∧ cwd ≠ []) ∧
    ∀ d ∈ protectedDirs home config, d.1 ≠ baseNeighbour config →
      ¬ (joinBase home config).denote cwd ++ storageDir.names <+: d.2.denote cwd

section Base
variable {home : Option String} {config : DbtNovaConfig}

theorem joinBase_mem (h : ¬ (baseNeighbour config = .home ∧ home = none)) :
    (baseNeighbour config, joinBase home config) ∈ protectedDirs home config := by
  unfold baseNeighbour at h ⊢
  unfold joinBase protectedDirs
  cases huri : isBlank config.manifestUri with
  | true => simp
  | false =>
      cases hcache : isBlank config.manifestCacheDir with
      | false => simp
      | true =>
          cases home with
          | none => simp [huri, hcache] at h
          | some text => simp

theorem eq_joinBase_of_mem {d : Path}
    (h : (baseNeighbour config, d) ∈ protectedDirs home config) : d = joinBase home config := by
  unfold baseNeighbour protectedDirs at h
  unfold joinBase
  cases huri : isBlank config.manifestUri with
  | true =>
      rw [huri] at h
      simpa using h
  | false =>
      cases hcache : isBlank config.manifestCacheDir with
      | false =>
          rw [huri, hcache] at h
          simpa using h
      | true =>
          rw [huri, hcache] at h
          cases home with
          | none => simp at h
          | some text => simpa using h

/-- Without `HOME` nothing protects the working directory in its place. -/
theorem not_mem_of_no_home {d : Path} (hbase : baseNeighbour config = .home) (hhome : home = none) :
    (baseNeighbour config, d) ∉ protectedDirs home config := by
  intro hmem
  rw [hbase, hhome] at hmem
  unfold protectedDirs at hmem
  split at hmem
  · simp at hmem
  · simp at hmem

theorem denote_joinBase_of_no_home (cwd : List Name) (hbase : baseNeighbour config = .home)
    (hhome : home = none) : (joinBase home config).denote cwd = cwd := by
  unfold baseNeighbour at hbase
  unfold joinBase
  split at hbase
  · cases hbase
  split at hbase
  · cases hbase
  next huri hcache =>
    rw [if_neg huri, if_neg hcache, hhome]
    rfl

end Base

theorem relative_spares_iff {cwd : List Name} {home : Option String} {config : DbtNovaConfig}
    {names : List Name} :
    ((joinBase home config).denote cwd ++ names ≠ [] ∧
      ∀ d ∈ protectedDirs home config,
        ¬ (joinBase home config).denote cwd ++ names <+: d.2.denote cwd) ↔
    (names ≠ [] ∨ baseNeighbour config = .home ∧ home = none ∧ cwd ≠ []) ∧
      ∀ d ∈ protectedDirs home config, d.1 ≠ baseNeighbour config →
        ¬ (joinBase home config).denote cwd ++ names <+: d.2.denote cwd := by
  constructor
  · intro h
    have hrest : ∀ d ∈ protectedDirs home config, d.1 ≠ baseNeighbour config →
        ¬ (joinBase home config).denote cwd ++ names <+: d.2.denote cwd :=
      fun d hd _ => h.2 d hd
    refine ⟨?_, hrest⟩
    by_cases hnames : names = []
    · right
      rw [hnames, List.append_nil] at h
      by_cases hhome : baseNeighbour config = .home ∧ home = none
      · rw [denote_joinBase_of_no_home cwd hhome.1 hhome.2] at h
        exact ⟨hhome.1, hhome.2, h.1⟩
      · have hself := h.2 (baseNeighbour config, joinBase home config) (joinBase_mem hhome)
        exact absurd (List.prefix_refl ((joinBase home config).denote cwd)) hself
    · exact .inl hnames
  · intro h
    constructor
    · intro hempty
      have hparts := List.append_eq_nil_iff.mp hempty
      cases h.1 with
      | inl hnames => exact hnames hparts.2
      | inr hhome =>
          rw [denote_joinBase_of_no_home cwd hhome.1 hhome.2.1] at hparts
          exact hhome.2.2 hparts.1
    · intro d hd hstart
      by_cases hsame : d.1 = baseNeighbour config
      · have hmem : (baseNeighbour config, d.2) ∈ protectedDirs home config := hsame ▸ hd
        cases h.1 with
        | inl hnames =>
            -- a directory below the base is longer than the base
            rw [eq_joinBase_of_mem hmem] at hstart
            have hlength := hstart.length_le
            rw [List.length_append] at hlength
            have hpos := List.length_pos_iff.mpr hnames
            omega
        | inr hhome => exact not_mem_of_no_home hhome.1 hhome.2.1 hmem
      · exact h.2 d hd hsame hstart

theorem storage_root_spares_iff (cwd : List Name) {home : Option String} {config : DbtNovaConfig}
    {p : Path} (h : storageRootDir home config = .ok p) :
    Spares cwd home config p ↔ StorageDirSafe cwd home config := by
  have hok := storageRootDir_ok h
  unfold Spares StorageDirSafe
  rw [hok.2]
  cases habs : (pathOf config.storageDir).isAbsolute with
  | true =>
      rw [join_of_isAbsolute _ habs, denote_of_no_parent hok.1]
      simp only [habs, if_true, List.nil_append]
  | false =>
      rw [denote_join_names cwd _ habs hok.1]
      simp only [habs, Bool.false_eq_true, if_false]
      exact relative_spares_iff

theorem storage_root_spares_default :
    Spares ["srv".toList, "dbt".toList] (some "/root") {} (pathOf ".dbt-nova") :=
  (storage_root_spares_iff ["srv".toList, "dbt".toList]
    (show storageRootDir (some "/root") {} = .ok (pathOf ".dbt-nova") by decide)).mpr
    (by unfold StorageDirSafe; decide)

/-- The guard knows the root of the file system in one spelling only. -/
theorem doubled_slash_root :
    ¬ ∀ (cwd : List Name) (home : Option String) (config : DbtNovaConfig) (p : Path),
      storageRootDir home config = .ok p → Spares cwd home config p := by
  intro h
  have hroot := h [] none { storageDir := "//" } (pathOf "//") (by decide)
  exact hroot.1 (by decide)

end DbtNova.StorageRoot
