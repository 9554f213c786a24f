import DbtNova.ArchiveLimits
import DbtNova.StateOutcome

/-!
# Extracting an archive into place

`extract_archive_atomically` over a file system any of whose operations may fail. An operation
that fails may have done a part of what it was to do, below the path that it was given; only a
rename does all or nothing. The results that the source ignores are kept in the outcome.
-/
namespace DbtNova.AtomicExtraction
open UnixPath FileTree StorageRoot Materialize ArchiveLimits StateOutcome
open BoundedCollect (saturatingAdd)

def nodeOf (kind : EntryKind) (bytes : Bytes) : Node Bytes :=
  if kind = .file then .file bytes else .dir

/-- The operations on a state that shows a tree, with what each does when it succeeds and what
it leaves alone when it fails. -/
structure FileSystem (W : Type) where
  tree : W → Files
  createDirAll : List Name → EStateM String W Unit
  rename : List Name → List Name → EStateM String W Unit
  removeDirAll : List Name → EStateM String W Unit
  unpack : List Name → EntryKind → Bytes → EStateM String W Unit
  pathExists : W → List Name → Bool
  readDir : W → List Name → Except String (List Name)
  isDirEntry : W → List Name → Except String Bool
  createDirAll_ok : ∀ {p w w'}, createDirAll p w = .ok () w' →
    ∀ q, node (tree w') q = if q <+: p then some .dir else node (tree w) q
  createDirAll_error : ∀ {p w w' e}, createDirAll p w = .error e w' →
    ∀ q, ¬ q <+: p → node (tree w') q = node (tree w) q
  rename_ok : ∀ {source target w w'}, rename source target w = .ok () w' →
    ¬ target <+: source → ∀ q, node (tree w') q =
      if target <+: q then node (tree w) (source ++ q.drop target.length)
      else if source <+: q then none else node (tree w) q
  rename_error : ∀ {source target w w' e}, rename source target w = .error e w' →
    ∀ q, node (tree w') q = node (tree w) q
  removeDirAll_ok : ∀ {p w w'}, removeDirAll p w = .ok () w' →
    ∀ q, node (tree w') q = if p <+: q then none else node (tree w) q
  removeDirAll_error : ∀ {p w w' e}, removeDirAll p w = .error e w' →
    ∀ q, ¬ p <+: q → node (tree w') q = node (tree w) q
  unpack_ok : ∀ {p kind bytes w w'}, unpack p kind bytes w = .ok () w' →
    ∀ q, node (tree w') q = if p = q then some (nodeOf kind bytes) else node (tree w) q
  unpack_error : ∀ {p kind bytes w w' e}, unpack p kind bytes w = .error e w' →
    ∀ q, ¬ p <+: q → node (tree w') q = node (tree w) q
  readDir_ok : ∀ {p w names}, readDir w p = .ok names →
    names.Nodup ∧ ∀ name, name ∈ names ↔ isPresent (tree w) (p ++ [name]) = true
  isDirEntry_ok : ∀ {p w flag}, isDirEntry w p = .ok flag → flag = isDir (tree w) p

namespace FileSystem
variable {W : Type} (fs : FileSystem W)

def io {α : Type} (op : EStateM String W α) : EStateM DbtNovaError W α :=
  EStateM.adaptExcept DbtNovaError.ioError op

/-! ## Unpacking -/

def extractEntry (limits : ArtifactArchiveLimits) (outputRoot : List Name) (progress : Progress)
    (read : Result TarEntry) : EStateM DbtNovaError W Progress := do
  let entry ← lift read
  let entryCount := saturatingAdd progress.entryCount 1
  lift (admitCount limits entryCount)
  let path ← lift entry.path
  lift (validateArchiveEntryPath path)
  lift (admitKind entry path)
  let names := (pathOf path).names
  io (fs.createDirAll (outputRoot ++ names.dropLast))
  let uncompressedBytes ← lift (chargeHeader limits progress.uncompressedBytes entry)
  io (fs.unpack (outputRoot ++ names) entry.kind entry.bytes)
  return ⟨entryCount, uncompressedBytes⟩

def extractTarGz (limits : ArtifactArchiveLimits) (archive : Result (List (Result TarEntry)))
    (outputRoot : List Name) : EStateM DbtNovaError W Progress := do
  let entries ← lift archive
  entries.foldlM (fs.extractEntry limits outputRoot) {}

def ofIo {α : Type} (x : Except String α) : Result α := x.mapError .ioError

def singleDirectoryChild (w : W) (root : List Name) : Result (List Name) :=
  (ofIo (fs.readDir w root)).bind fun names =>
    match names with
    | [name] =>
        (ofIo (fs.isDirEntry w (root ++ [name]))).bind fun isDirectory =>
          if isDirectory then .ok (root ++ [name])
          else .error (.serverError "archive top-level entry must be a directory")
    | names =>
        .error (.serverError
          ("archive must contain exactly one top-level directory entry; found " ++
            toString names.length))

/-! ## The swap -/

/-- The result of the call and those that it ignores: of moving the backup back, and of removing
the staging directory. -/
structure Outcome where
  result : Result Unit
  rollback : Option (Except String Unit) := none
  cleanup : Option (Except String Unit) := none

/-- Moves what stands at the target out of the way. -/
def rotate (target backup : List Name) (w : W) : EStateM.Result String W Bool :=
  if fs.pathExists w target then
    match fs.rename target backup w with
    | .ok _ w => .ok true w
    | .error e w => .error e w
  else .ok false w

/-- The error of a payload that was not moved, after the backup was moved back. -/
def rollBack (rotated : Bool) (target backup : List Name) (error : DbtNovaError) (w : W) :
    Outcome × W :=
  if rotated then
    let tried := attempt (fs.rename backup target) w
    ({ result := .error error, rollback := some tried.1 }, tried.2)
  else ({ result := .error error }, w)

def swapDirectoryAtomically (source target backup : List Name) (display : String) (w : W) :
    Outcome × W :=
  match fs.rotate target backup w with
  | .error e w => ({ result := .error (.ioError e) }, w)
  | .ok rotated w =>
      match fs.rename source target w with
      | .error e w =>
          fs.rollBack rotated target backup
            (.serverError ("failed to materialize archive into " ++ display ++ ": " ++ e)) w
      | .ok _ w =>
          ({ result := .ok () },
            if rotated then (attempt (fs.removeDirAll backup) w).2 else w)

/-! ## The extraction -/

/-- Creates the parent of the target, the staging directory and the directory to extract to. -/
def createStage (parent stage extractedRoot : List Name) : EStateM DbtNovaError W Unit := do
  io (fs.createDirAll parent)
  io (fs.createDirAll stage)
  io (fs.createDirAll extractedRoot)

/-- Extracts the archive and finds its top-level directory. -/
def stagePayload (limits : ArtifactArchiveLimits) (archive : Result (List (Result TarEntry)))
    (extractedRoot : List Name) (validate : W → List Name → Result Unit) :
    EStateM DbtNovaError W (List Name) := do
  let _ ← fs.extractTarGz limits archive extractedRoot
  let w ← get
  let payloadRoot ← lift (fs.singleDirectoryChild w extractedRoot)
  lift (validate w payloadRoot)
  return payloadRoot

def extractStaged (limits : ArtifactArchiveLimits) (archive : Result (List (Result TarEntry)))
    (extractedRoot target backup : List Name) (display : String)
    (validate : W → List Name → Result Unit) (w : W) : Outcome × W :=
  match fs.stagePayload limits archive extractedRoot validate w with
  | .error e w => ({ result := .error e }, w)
  | .ok payloadRoot w => fs.swapDirectoryAtomically payloadRoot target backup display w

def extractArchiveAtomically (cwd : List Name) (suffixes : Suffixes)
    (limits : ArtifactArchiveLimits) (archive : Result (List (Result TarEntry))) (target : Path)
    (validate : W → List Name → Result Unit) (w : W) : Outcome × W :=
  match target.parent? with
  | none =>
      ({ result := .error (.serverError
          ("cannot materialize archive; target has no parent: " ++ target.display)) }, w)
  | some parent =>
      let stage := (stageRoot suffixes parent).denote cwd
      let extractedRoot := ((stageRoot suffixes parent).child "extract-root".toList).denote cwd
      match fs.createStage (parent.denote cwd) stage extractedRoot w with
      | .error e w => ({ result := .error e }, w)
      | .ok _ w =>
          let staged := fs.extractStaged limits archive extractedRoot (target.denote cwd)
            ((backupDir suffixes target).denote cwd) target.display validate w
          let cleanup := attempt (fs.removeDirAll stage) staged.2
          ({ staged.1 with cleanup := some cleanup.1 }, cleanup.2)

end FileSystem

/-! ## Nothing but the stage -/

section Elsewhere
variable {W : Type} {fs : FileSystem W} {dir : List Name} {stage : Name}

/-- Only what leads to the directory and what is staged there may have changed. -/
def Elsewhere (fs : FileSystem W) (dir : List Name) (stage : Name) (w w' : W) : Prop :=
  ∀ q, ¬ q <+: dir → ¬ dir ++ [stage] <+: q → node (fs.tree w') q = node (fs.tree w) q

theorem elsewhere_refl (w : W) : Elsewhere fs dir stage w w := fun _ _ _ => rfl

instance : IsTrans W (Elsewhere fs dir stage) where
  trans _ _ _ h h' q hdir hstage := (h' q hdir hstage).trans (h q hdir hstage)

theorem prefix_stage {rest q : List Name} (h : q <+: dir ++ [stage] ++ rest) :
    q <+: dir ∨ dir ++ [stage] <+: q := by
  cases List.prefix_or_prefix_of_prefix h (List.prefix_append _ rest) with
  | inr hbelow => exact .inr hbelow
  | inl habove =>
      cases List.prefix_concat_iff.mp habove with
      | inl heq => exact .inr (heq ▸ List.prefix_refl q)
      | inr hdir => exact .inl hdir

theorem along_createDirAll {p : List Name} (hp : ∀ q, q <+: p → q <+: dir ∨ dir ++ [stage] <+: q) :
    Along (Elsewhere fs dir stage) (fs.createDirAll p) := by
  intro w q hdir hstage
  have hout : ¬ q <+: p := fun h => (hp q h).elim hdir hstage
  cases hrun : fs.createDirAll p w with
  | ok a w' =>
      rw [endState, fs.createDirAll_ok hrun, if_neg hout]
  | error e w' => exact fs.createDirAll_error hrun q hout

theorem along_unpack (rest : List Name) (kind : EntryKind) (bytes : Bytes) :
    Along (Elsewhere fs dir stage) (fs.unpack (dir ++ [stage] ++ rest) kind bytes) := by
  intro w q hdir hstage
  have hout : ¬ dir ++ [stage] ++ rest <+: q := fun h => hstage ((List.prefix_append _ _).trans h)
  cases hrun : fs.unpack (dir ++ [stage] ++ rest) kind bytes w with
  | ok a w' =>
      have hne : dir ++ [stage] ++ rest ≠ q := fun h => hout (h ▸ List.prefix_refl _)
      rw [endState, fs.unpack_ok hrun, if_neg hne]
  | error e w' => exact fs.unpack_error hrun q hout

theorem along_extractEntry (limits : ArtifactArchiveLimits) (rest : List Name)
    (progress : Progress) (read : Result TarEntry) :
    Along (Elsewhere fs dir stage)
      (fs.extractEntry limits (dir ++ [stage] ++ rest) progress read) := by
  have hlift : ∀ {α : Type} (x : Result α), Along (Elsewhere fs dir stage) (lift x) :=
    fun x => along_lift elsewhere_refl x
  unfold FileSystem.extractEntry
  refine (hlift read).bind fun entry => (hlift _).bind fun _ => (hlift _).bind fun path =>
    (hlift _).bind fun _ => (hlift _).bind fun _ => ?_
  refine Along.bind ?_ fun _ => (hlift _).bind fun _ => Along.bind ?_ fun _ => ?_
  · rw [List.append_assoc]
    exact (along_createDirAll fun _ => prefix_stage).adaptExcept _
  · rw [List.append_assoc]
    exact (along_unpack _ _ _).adaptExcept _
  · exact fun w => elsewhere_refl w

theorem along_stagePayload (limits : ArtifactArchiveLimits)
    (archive : Result (List (Result TarEntry))) (rest : List Name)
    (validate : W → List Name → Result Unit) :
    Along (Elsewhere fs dir stage)
      (fs.stagePayload limits archive (dir ++ [stage] ++ rest) validate) := by
  have hlift : ∀ {α : Type} (x : Result α), Along (Elsewhere fs dir stage) (lift x) :=
    fun x => along_lift elsewhere_refl x
  have hget : Along (Elsewhere fs dir stage) (get : EStateM DbtNovaError W W) :=
    fun w => elsewhere_refl w
  unfold FileSystem.stagePayload FileSystem.extractTarGz
  refine Along.bind ((hlift archive).bind fun entries => ?_) fun _ => hget.bind fun _ =>
    (hlift _).bind fun _ => (hlift _).bind fun _ => fun w => elsewhere_refl w
  exact along_foldlM elsewhere_refl (along_extractEntry limits rest) entries {}

theorem along_createStage (rest : List Name) :
    Along (Elsewhere fs dir stage)
      (fs.createStage dir (dir ++ [stage]) (dir ++ [stage] ++ rest)) := by
  unfold FileSystem.createStage
  refine Along.bind ?_ fun _ => Along.bind ?_ fun _ => ?_
  · exact (along_createDirAll fun _ h => .inl h).adaptExcept _
  · refine (along_createDirAll fun q h => ?_).adaptExcept _
    rw [← List.append_nil (dir ++ [stage])] at h
    exact prefix_stage h
  · exact (along_createDirAll fun _ => prefix_stage).adaptExcept _

end Elsewhere

/-! ## What an archive holds -/

abbrev Contents := List Name → Option (Node Bytes)

/-- The entry at its name, in place of what was there, with directories above it. -/
def putEntry (contents : Contents) (entry : TarEntry) : Contents := fun q =>
  if entry.names = q then some (nodeOf entry.kind entry.bytes)
  else if q <+: entry.names.dropLast then some .dir else contents q

/-- The entries in one directory. -/
def contentsOf (entries : List TarEntry) : Contents :=
  entries.foldl putEntry fun q => if q = [] then some .dir else none

section Staged
variable {W : Type} {fs : FileSystem W} {limits : ArtifactArchiveLimits} {root : List Name}
  {w w' : W}

theorem run_io_ok {α : Type} {op : EStateM String W α} {a : α} :
    FileSystem.io op w = .ok a w' ↔ op w = .ok a w' := run_adaptExcept_ok

/-- What the directory shows. -/
def shown (fs : FileSystem W) (root : List Name) (w : W) : Contents :=
  fun rest => node (fs.tree w) (root ++ rest)

theorem extractEntry_ok {progress next : Progress} {read : Result TarEntry}
    (h : fs.extractEntry limits root progress read w = .ok next w') :
    ∃ entry, read = .ok entry ∧ shown fs root w' = putEntry (shown fs root w) entry := by
  unfold FileSystem.extractEntry at h
  obtain ⟨entry, w₁, hread, h⟩ := run_bind_ok.mp h
  obtain ⟨_, w₂, hcount, h⟩ := run_bind_ok.mp h
  obtain ⟨path, w₃, hpath, h⟩ := run_bind_ok.mp h
  obtain ⟨_, w₄, hsafe, h⟩ := run_bind_ok.mp h
  obtain ⟨_, w₅, hkind, h⟩ := run_bind_ok.mp h
  obtain ⟨_, w₆, hparent, h⟩ := run_bind_ok.mp h
  obtain ⟨bytes, w₇, hcharge, h⟩ := run_bind_ok.mp h
  obtain ⟨_, w₈, hunpack, hdone⟩ := run_bind_ok.mp h
  obtain ⟨rfl, rfl⟩ := run_lift_ok.mp hread
  obtain ⟨-, rfl⟩ := run_lift_ok.mp hcount
  obtain ⟨hname, rfl⟩ := run_lift_ok.mp hpath
  obtain ⟨-, rfl⟩ := run_lift_ok.mp hsafe
  obtain ⟨-, rfl⟩ := run_lift_ok.mp hkind
  obtain ⟨-, rfl⟩ := run_lift_ok.mp hcharge
  obtain ⟨-, rfl⟩ := run_pure_ok.mp hdone
  have hnames : entry.names = (pathOf path).names := by
    simp [TarEntry.names, hname, Except.toOption]
  refine ⟨entry, rfl, ?_⟩
  funext rest
  unfold shown putEntry
  rw [fs.unpack_ok (run_io_ok.mp hunpack), fs.createDirAll_ok (run_io_ok.mp hparent), hnames]
  simp only [List.append_cancel_left_eq, List.prefix_append_right_inj]

theorem foldlM_extractEntry_ok {reads : List (Result TarEntry)} {progress next : Progress}
    (h : reads.foldlM (fs.extractEntry limits root) progress w = .ok next w') :
    ∃ entries : List TarEntry, reads = entries.map .ok ∧
      shown fs root w' = entries.foldl putEntry (shown fs root w) := by
  induction reads generalizing progress w with
  | nil =>
      obtain ⟨-, rfl⟩ := run_pure_ok.mp h
      exact ⟨[], rfl, rfl⟩
  | cons read reads ih =>
      rw [List.foldlM_cons] at h
      obtain ⟨between, w₁, hfirst, hrest⟩ := run_bind_ok.mp h
      obtain ⟨entry, rfl, hput⟩ := extractEntry_ok hfirst
      obtain ⟨entries, rfl, hputs⟩ := ih hrest
      exact ⟨entry :: entries, rfl, by rw [List.foldl_cons, ← hput, hputs]⟩

theorem singleDirectoryChild_shown {payload : List Name}
    (h : fs.singleDirectoryChild w root = .ok payload) :
    ∃ top, payload = root ++ [top] ∧ shown fs root w [top] = some .dir ∧
      ∀ name, shown fs root w [name] ≠ none → name = top := by
  unfold FileSystem.singleDirectoryChild FileSystem.ofIo at h
  cases hnames : fs.readDir w root with
  | error e =>
      rw [hnames] at h
      contradiction
  | ok names =>
      obtain ⟨-, hmem⟩ := fs.readDir_ok hnames
      rw [hnames] at h
      match names, h with
      | [top], h =>
          cases hdir : fs.isDirEntry w (root ++ [top]) with
          | error e =>
              simp only [Except.mapError, Except.bind, hdir] at h
              contradiction
          | ok flag =>
              simp only [Except.mapError, Except.bind, hdir] at h
              have hflag := fs.isDirEntry_ok hdir
              split at h
              next htrue =>
                refine ⟨top, (Except.ok.inj h).symm, ?_, ?_⟩
                · rw [htrue] at hflag
                  unfold isDir at hflag
                  unfold shown
                  split at hflag
                  · assumption
                  · contradiction
                · intro name hname
                  have := (hmem name).mpr (by
                    rw [isPresent, Option.isSome_iff_ne_none]
                    exact hname)
                  rwa [List.mem_singleton] at this
              · contradiction

/-- The staged payload is the archive's one top-level directory. -/
theorem stagePayload_ok {archive : Result (List (Result TarEntry))}
    {validate : W → List Name → Result Unit} {payload : List Name}
    (h : fs.stagePayload limits archive root validate w = .ok payload w') :
    ∃ (entries : List TarEntry) (top : Name), archive = .ok (entries.map .ok) ∧ payload = root ++ [top] ∧
      shown fs root w' = entries.foldl putEntry (shown fs root w) ∧
      shown fs root w' [top] = some .dir ∧
      ∀ name, shown fs root w' [name] ≠ none → name = top := by
  unfold FileSystem.stagePayload FileSystem.extractTarGz at h
  obtain ⟨progress, w₁, hextract, hfound⟩ := run_bind_ok.mp h
  obtain ⟨reads, w₂, hopen, hfold⟩ := run_bind_ok.mp hextract
  obtain ⟨w₃, w₄, hget, hchecked⟩ := run_bind_ok.mp hfound
  obtain ⟨payloadRoot, w₅, hchild, hvalidated⟩ := run_bind_ok.mp hchecked
  obtain ⟨_, w₆, hvalid, hdone⟩ := run_bind_ok.mp hvalidated
  obtain ⟨rfl, rfl⟩ := run_lift_ok.mp hopen
  obtain ⟨entries, rfl, hshown⟩ := foldlM_extractEntry_ok hfold
  obtain ⟨rfl, rfl⟩ := run_get_ok.mp hget
  obtain ⟨hsingle, rfl⟩ := run_lift_ok.mp hchild
  obtain ⟨-, rfl⟩ := run_lift_ok.mp hvalid
  obtain ⟨rfl, rfl⟩ := run_pure_ok.mp hdone
  obtain ⟨top, hpayload, hdir, honly⟩ := singleDirectoryChild_shown hsingle
  exact ⟨entries, top, rfl, hpayload, hshown, hdir, honly⟩

end Staged

/-! ## What the swap leaves -/

section Swap
variable {W : Type} {fs : FileSystem W} {w w' : W} {dir source : List Name}
  {name stage backup : Name} {display : String} {outcome : FileSystem.Outcome}

theorem not_sibling {a b : Name} (h : a ≠ b) (rest : List Name) :
    ¬ dir ++ [a] <+: dir ++ [b] ++ rest := by
  rw [List.append_assoc, List.singleton_append, sibling_prefix_iff]
  exact h

theorem not_sibling' {a b : Name} (h : a ≠ b) : ¬ dir ++ [a] <+: dir ++ [b] :=
  fun hprefix => h (sibling_prefix_iff.mp hprefix)

theorem rotate_cases {target aside : List Name} {rotated : Bool}
    (h : fs.rotate target aside w = .ok rotated w') :
    rotated = true ∧ fs.rename target aside w = .ok () w' ∨ rotated = false ∧ w' = w := by
  unfold FileSystem.rotate at h
  split at h
  · cases hrun : fs.rename target aside w with
    | error e w₁ =>
        rw [hrun] at h
        contradiction
    | ok a w₁ =>
        rw [hrun] at h
        cases h
        exact .inl ⟨rfl, rfl⟩
  · cases h
    exact .inr ⟨rfl, rfl⟩

theorem rotate_error {target aside : List Name} {e : String}
    (h : fs.rotate target aside w = .error e w') (q : List Name) :
    node (fs.tree w') q = node (fs.tree w) q := by
  unfold FileSystem.rotate at h
  split at h
  · cases hrun : fs.rename target aside w with
    | ok a w₁ =>
        rw [hrun] at h
        contradiction
    | error e w₁ =>
        rw [hrun] at h
        cases h
        exact fs.rename_error hrun q
  · contradiction

/-- The backup is moved to where it came from. -/
theorem node_movedBack {w₁ w₂ w₃ : W} {e : String} (hapart : name ≠ backup)
    (haside : fs.rename (dir ++ [name]) (dir ++ [backup]) w = .ok () w₁)
    (hfailed : fs.rename source (dir ++ [name]) w₁ = .error e w₂)
    (hback : fs.rename (dir ++ [backup]) (dir ++ [name]) w₂ = .ok () w₃) (rest : List Name) :
    node (fs.tree w₃) (dir ++ [name] ++ rest) = node (fs.tree w) (dir ++ [name] ++ rest) ∧
      node (fs.tree w₃) (dir ++ [backup] ++ rest) = none := by
  have hmoved := fs.rename_ok haside (not_sibling' (Ne.symm hapart))
  have hreturned := fs.rename_ok hback (not_sibling' hapart)
  constructor
  · rw [hreturned, if_pos (List.prefix_append _ _), List.drop_left, fs.rename_error hfailed,
      hmoved, if_pos (List.prefix_append _ _), List.drop_left]
  · rw [hreturned, if_neg (not_sibling hapart rest), if_pos (List.prefix_append _ _)]

/-- A swap that failed, and was rolled back where that was needed, changed nothing. -/
theorem swap_error {e : DbtNovaError} (hapart : name ≠ backup)
    (hfresh : ∀ rest, node (fs.tree w) (dir ++ [backup] ++ rest) = none)
    (h : fs.swapDirectoryAtomically source (dir ++ [name]) (dir ++ [backup]) display w =
      (outcome, w'))
    (herror : outcome.result = .error e) (hrollback : ∀ e', outcome.rollback ≠ some (.error e'))
    (rest : List Name) :
    node (fs.tree w') (dir ++ [name] ++ rest) = node (fs.tree w) (dir ++ [name] ++ rest) ∧
      node (fs.tree w') (dir ++ [backup] ++ rest) = none := by
  unfold FileSystem.swapDirectoryAtomically at h
  cases hrotate : fs.rotate (dir ++ [name]) (dir ++ [backup]) w with
  | error e₁ w₁ =>
      rw [hrotate] at h
      obtain ⟨-, rfl⟩ := Prod.mk.inj h
      rw [rotate_error hrotate, rotate_error hrotate]
      exact ⟨rfl, hfresh rest⟩
  | ok rotated w₁ =>
      cases hmove : fs.rename source (dir ++ [name]) w₁ with
      | ok a w₂ =>
          simp only [hrotate, hmove] at h
          obtain ⟨rfl, -⟩ := Prod.mk.inj h
          contradiction
      | error e₂ w₂ =>
          simp only [hrotate, hmove, FileSystem.rollBack] at h
          obtain ⟨rfl, haside⟩ | ⟨rfl, rfl⟩ := rotate_cases hrotate
          · obtain ⟨rfl, rfl⟩ := Prod.mk.inj h
            cases hback : fs.rename (dir ++ [backup]) (dir ++ [name]) w₂ with
            | error e₃ w₃ => exact absurd (by simp [attempt, hback]) (hrollback e₃)
            | ok a w₃ =>
                rw [attempt_ok.mpr hback]
                exact node_movedBack hapart haside hmove hback rest
          · obtain ⟨-, rfl⟩ := Prod.mk.inj h
            rw [fs.rename_error hmove, fs.rename_error hmove]
            exact ⟨rfl, hfresh rest⟩

/-- A swap that succeeded put the payload at the target. -/
theorem swap_ok {tail : List Name} (hstage : name ≠ stage) (hbackup : backup ≠ stage)
    (hapart : name ≠ backup)
    (h : fs.swapDirectoryAtomically (dir ++ [stage] ++ tail) (dir ++ [name]) (dir ++ [backup])
      display w = (outcome, w'))
    (hok : outcome.result = .ok ()) (rest : List Name) :
    node (fs.tree w') (dir ++ [name] ++ rest) =
      node (fs.tree w) (dir ++ [stage] ++ tail ++ rest) := by
  unfold FileSystem.swapDirectoryAtomically at h
  cases hrotate : fs.rotate (dir ++ [name]) (dir ++ [backup]) w with
  | error e₁ w₁ =>
      rw [hrotate] at h
      obtain ⟨rfl, -⟩ := Prod.mk.inj h
      contradiction
  | ok rotated w₁ =>
      cases hmove : fs.rename (dir ++ [stage] ++ tail) (dir ++ [name]) w₁ with
      | error e₂ w₂ =>
          simp only [hrotate, hmove, FileSystem.rollBack] at h
          cases rotated <;>
          · obtain ⟨rfl, -⟩ := Prod.mk.inj h
            contradiction
      | ok a w₂ =>
          simp only [hrotate, hmove] at h
          obtain ⟨-, rfl⟩ := Prod.mk.inj h
          have hplaced : node (fs.tree w₂) (dir ++ [name] ++ rest) =
              node (fs.tree w₁) (dir ++ [stage] ++ tail ++ rest) := by
            rw [fs.rename_ok hmove (not_sibling hstage tail), if_pos (List.prefix_append _ _),
              List.drop_left]
          obtain ⟨rfl, haside⟩ | ⟨rfl, rfl⟩ := rotate_cases hrotate
          · have hkept : node (fs.tree w₁) (dir ++ [stage] ++ tail ++ rest) =
                node (fs.tree w) (dir ++ [stage] ++ tail ++ rest) := by
              rw [List.append_assoc, fs.rename_ok haside (not_sibling' (Ne.symm hapart)),
                if_neg (not_sibling hbackup _), if_neg (not_sibling hstage _)]
            rw [if_pos rfl, ← hkept, ← hplaced]
            have hout : ¬ dir ++ [backup] <+: dir ++ [name] ++ rest :=
              not_sibling (Ne.symm hapart) rest
            unfold attempt
            cases hremove : fs.removeDirAll (dir ++ [backup]) w₂ with
            | ok a w₃ => rw [fs.removeDirAll_ok hremove, if_neg hout]
            | error e₃ w₃ => rw [fs.removeDirAll_error hremove _ hout]
          · exact hplaced

end Swap

/-! ## The extraction as a whole -/

def stageName (suffixes : Suffixes) : Name := (".nova-artifacts-stage-" ++ suffixes.stage).toList

def backupName (suffixes : Suffixes) (name : Name) : Name :=
  name ++ (".backup-" ++ suffixes.backup).toList

/-- The temporary names are taken by nothing, not even by each other or by the target. -/
structure FreshNames (cwd : List Name) (suffixes : Suffixes) (target : Path) (files : Files) :
    Prop where
  free : FreshSuffixes cwd suffixes target files
  apart : ∀ name, target.fileName? = some name →
    name ≠ stageName suffixes ∧ backupName suffixes name ≠ stageName suffixes

/-- What an extraction has done to the places it uses. A staging directory that could not be
made or could not be removed is the one thing that an error may leave. -/
structure Atomic {W : Type} (fs : FileSystem W) (archive : Result (List (Result TarEntry)))
    (target stage backup : List Name) (w : W) (outcome : FileSystem.Outcome) (w' : W) : Prop where
  target_kept : ∀ e, outcome.result = .error e → (∀ e', outcome.rollback ≠ some (.error e')) →
    ∀ rest, node (fs.tree w') (target ++ rest) = node (fs.tree w) (target ++ rest)
  backup_gone : ∀ e, outcome.result = .error e → (∀ e', outcome.rollback ≠ some (.error e')) →
    ∀ rest, node (fs.tree w') (backup ++ rest) = none
  stage_gone : outcome.cleanup = some (.ok ()) → ∀ rest, node (fs.tree w') (stage ++ rest) = none
  replaced : outcome.result = .ok () →
    ∃ (entries : List TarEntry) (top : Name), archive = .ok (entries.map .ok) ∧
      contentsOf entries [top] = some .dir ∧
      (∀ name, contentsOf entries [name] ≠ none → name = top) ∧
      ∀ rest, node (fs.tree w') (target ++ rest) = contentsOf entries (top :: rest)

section Atomic
variable {W : Type} {fs : FileSystem W} {limits : ArtifactArchiveLimits}
  {archive : Result (List (Result TarEntry))} {validate : W → List Name → Result Unit}
  {dir : List Name} {name stage backup extract : Name} {display : String} {w w' : W}
  {outcome : FileSystem.Outcome}

theorem exists_parent {target : Path} {name : Name} (h : target.fileName? = some name) :
    ∃ parent, target.parent? = some parent := by
  obtain ⟨anchor, steps⟩ := target
  cases steps with
  | nil => contradiction
  | cons step steps => exact ⟨_, rfl⟩

theorem Elsewhere.sibling {other : Name} (h : Elsewhere fs dir stage w w') (hne : other ≠ stage)
    (rest : List Name) :
    node (fs.tree w') (dir ++ [other] ++ rest) = node (fs.tree w) (dir ++ [other] ++ rest) := by
  refine h _ ?_ (not_sibling (Ne.symm hne) rest)
  intro hprefix
  have hlength := hprefix.length_le
  simp only [List.length_append, List.length_singleton] at hlength
  omega

/-- A new directory to extract to is empty. -/
theorem createStage_shown
    (hfree : ∀ q, dir ++ [stage] <+: q → node (fs.tree w) q = none)
    (h : fs.createStage dir (dir ++ [stage]) (dir ++ [stage] ++ [extract]) w = .ok () w') :
    shown fs (dir ++ [stage] ++ [extract]) w' = fun q => if q = [] then some .dir else none := by
  unfold FileSystem.createStage at h
  obtain ⟨_, w₁, hparent, hrest⟩ := run_bind_ok.mp h
  obtain ⟨_, w₂, hstage, hroot⟩ := run_bind_ok.mp hrest
  funext rest
  unfold shown
  rw [fs.createDirAll_ok (run_io_ok.mp hroot)]
  cases rest with
  | nil => simp
  | cons first rest =>
      have hlong : ∀ p : List Name, p.length ≤ dir.length + 2 →
          ¬ dir ++ [stage] ++ [extract] ++ first :: rest <+: p := by
        intro p hp hprefix
        have hlength := hprefix.length_le
        simp only [List.length_append, List.length_cons, List.length_nil] at hlength
        omega
      rw [if_neg (hlong _ (by simp)), fs.createDirAll_ok (run_io_ok.mp hstage),
        if_neg (hlong _ (by simp)), fs.createDirAll_ok (run_io_ok.mp hparent),
        if_neg (hlong _ (by omega)), if_neg (List.cons_ne_nil _ _)]
      exact hfree _ (by rw [List.append_assoc]; exact List.prefix_append _ _)

theorem extractStaged_atomic (hstage : name ≠ stage) (hbackup : backup ≠ stage)
    (hapart : name ≠ backup)
    (hfree : ∀ rest, node (fs.tree w) (dir ++ [backup] ++ rest) = none)
    (hempty : shown fs (dir ++ [stage] ++ [extract]) w =
      fun q => if q = [] then some .dir else none)
    (h : fs.extractStaged limits archive (dir ++ [stage] ++ [extract]) (dir ++ [name])
      (dir ++ [backup]) display validate w = (outcome, w')) :
    Atomic fs archive (dir ++ [name]) (dir ++ [stage]) (dir ++ [backup]) w
      { outcome with cleanup := none } w' := by
  have halong : Along (Elsewhere fs dir stage)
      (fs.stagePayload limits archive (dir ++ [stage] ++ [extract]) validate) :=
    along_stagePayload limits archive [extract] validate
  unfold FileSystem.extractStaged at h
  cases hpayload : fs.stagePayload limits archive (dir ++ [stage] ++ [extract]) validate w with
  | error e w₁ =>
      rw [hpayload] at h
      obtain ⟨rfl, rfl⟩ := Prod.mk.inj h
      have hsame := halong.error hpayload
      exact
        { target_kept := fun _ _ _ => hsame.sibling hstage
          backup_gone := fun _ _ _ rest => (hsame.sibling hbackup rest).trans (hfree rest)
          stage_gone := fun hnone => by contradiction
          replaced := fun hok => by contradiction }
  | ok payload w₁ =>
      rw [hpayload] at h
      have hsame := halong.ok hpayload
      have hfree₁ := fun rest => (hsame.sibling hbackup rest).trans (hfree rest)
      obtain ⟨entries, top, harchive, rfl, hshown, htop, honly⟩ := stagePayload_ok hpayload
      rw [hempty] at hshown
      refine ⟨?_, ?_, fun hnone => by contradiction, ?_⟩
      · intro e herror hrollback rest
        rw [(swap_error hapart hfree₁ h herror hrollback rest).1]
        exact hsame.sibling hstage rest
      · intro e herror hrollback rest
        exact (swap_error hapart hfree₁ h herror hrollback rest).2
      · intro hok
        rw [hshown] at htop honly
        refine ⟨entries, top, harchive, htop, honly, fun rest => ?_⟩
        rw [List.append_assoc (dir ++ [stage])] at h
        rw [swap_ok hstage hbackup hapart h hok rest]
        have hrest := congrFun hshown (top :: rest)
        rw [shown, List.append_assoc] at hrest
        rw [← List.append_assoc (dir ++ [stage]), List.append_assoc, List.append_assoc,
          List.singleton_append]
        exact hrest

theorem Atomic.of_elsewhere {w₁ : W} (hstage : name ≠ stage) (hsame : Elsewhere fs dir stage w w₁)
    (h : Atomic fs archive (dir ++ [name]) (dir ++ [stage]) (dir ++ [backup]) w₁ outcome w') :
    Atomic fs archive (dir ++ [name]) (dir ++ [stage]) (dir ++ [backup]) w outcome w' :=
  { h with
    target_kept := fun e herror hrollback rest =>
      (h.target_kept e herror hrollback rest).trans (hsame.sibling hstage rest) }

/-- Removing the staging directory touches nothing else, also where it fails. -/
theorem Atomic.cleanup (hstage : name ≠ stage) (hbackup : backup ≠ stage)
    (h : Atomic fs archive (dir ++ [name]) (dir ++ [stage]) (dir ++ [backup]) w
      { outcome with cleanup := none } w') :
    Atomic fs archive (dir ++ [name]) (dir ++ [stage]) (dir ++ [backup]) w
      { outcome with cleanup := some (attempt (fs.removeDirAll (dir ++ [stage])) w').1 }
      (attempt (fs.removeDirAll (dir ++ [stage])) w').2 := by
  have hkept : ∀ {other : Name}, other ≠ stage → ∀ rest,
      node (fs.tree (attempt (fs.removeDirAll (dir ++ [stage])) w').2) (dir ++ [other] ++ rest) =
        node (fs.tree w') (dir ++ [other] ++ rest) := by
    intro other hne rest
    have hout : ¬ dir ++ [stage] <+: dir ++ [other] ++ rest := not_sibling (Ne.symm hne) rest
    unfold attempt
    cases hremove : fs.removeDirAll (dir ++ [stage]) w' with
    | ok a w₁ => rw [fs.removeDirAll_ok hremove, if_neg hout]
    | error e w₁ => rw [fs.removeDirAll_error hremove _ hout]
  refine ⟨?_, ?_, ?_, ?_⟩
  · intro e herror hrollback rest
    rw [hkept hstage]
    exact h.target_kept e herror hrollback rest
  · intro e herror hrollback rest
    rw [hkept hbackup]
    exact h.backup_gone e herror hrollback rest
  · intro hremoved rest
    unfold attempt at hremoved ⊢
    cases hremove : fs.removeDirAll (dir ++ [stage]) w' with
    | ok a w₁ => rw [fs.removeDirAll_ok hremove, if_pos (List.prefix_append _ _)]
    | error e w₁ =>
        simp [hremove] at hremoved
  · intro hok
    obtain ⟨entries, top, harchive, htop, honly, hrest⟩ := h.replaced hok
    exact ⟨entries, top, harchive, htop, honly, fun rest => by rw [hkept hstage, hrest]⟩

/-- An error leaves the target as it was and no backup, unless moving the backup back failed,
and a success puts what the archive has in its one top-level directory in place of the target. -/
theorem extraction_atomic (fs : FileSystem W) (cwd : List Name) (suffixes : Suffixes)
    (limits : ArtifactArchiveLimits) (archive : Result (List (Result TarEntry))) {target : Path}
    (validate : W → List Name → Result Unit) {name : Name} (hname : target.fileName? = some name)
    {parent : Path} (hparent : target.parent? = some parent) (w : W)
    (hfresh : FreshNames cwd suffixes target (fs.tree w)) :
    Atomic fs archive (target.denote cwd) ((stageRoot suffixes parent).denote cwd)
      ((backupDir suffixes target).denote cwd) w
      (fs.extractArchiveAtomically cwd suffixes limits archive target validate w).1
      (fs.extractArchiveAtomically cwd suffixes limits archive target validate w).2 := by
  obtain ⟨hstage, hbackup⟩ := hfresh.apart name hname
  obtain ⟨hfreeStage, hfreeBackup⟩ := hfresh.free parent hparent
  have htarget : target.denote cwd = parent.denote cwd ++ [name] := by
    obtain ⟨other, hother, hdenote⟩ | ⟨hnone, -⟩ := denote_parent cwd hparent
    · rw [hdenote, Option.some.inj (hother.symm.trans hname)]
    · rw [hname] at hnone
      contradiction
  have hstageDenote : (stageRoot suffixes parent).denote cwd =
      parent.denote cwd ++ [stageName suffixes] := denote_child cwd parent _
  have hbackupDenote : (backupDir suffixes target).denote cwd =
      parent.denote cwd ++ [backupName suffixes name] :=
    denote_backupDir cwd suffixes hparent hname
  have hapart : name ≠ backupName suffixes name := backup_name_ne name
  unfold FileSystem.extractArchiveAtomically
  rw [hstageDenote] at hfreeStage
  rw [hbackupDenote] at hfreeBackup
  simp only [hparent, denote_child, hstageDenote, hbackupDenote, htarget]
  have hfree : ∀ {w₁ : W}, Elsewhere fs (parent.denote cwd) (stageName suffixes) w w₁ →
      ∀ rest, node (fs.tree w₁) (parent.denote cwd ++ [backupName suffixes name] ++ rest) = none :=
    fun hsame rest => (hsame.sibling hbackup rest).trans (hfreeBackup _ (List.prefix_append _ _))
  have halong : Along (Elsewhere fs (parent.denote cwd) (stageName suffixes))
      (fs.createStage (parent.denote cwd) (parent.denote cwd ++ [stageName suffixes])
        (parent.denote cwd ++ [stageName suffixes] ++ ["extract-root".toList])) :=
    along_createStage ["extract-root".toList]
  cases hcreate : fs.createStage (parent.denote cwd) (parent.denote cwd ++ [stageName suffixes])
      (parent.denote cwd ++ [stageName suffixes] ++ ["extract-root".toList]) w with
  | error e w₁ =>
      have hsame := halong.error hcreate
      exact
        { target_kept := fun _ _ _ => hsame.sibling hstage
          backup_gone := fun _ _ _ => hfree hsame
          stage_gone := fun hnone => by contradiction
          replaced := fun hok => by contradiction }
  | ok _ w₁ =>
      have hsame := halong.ok hcreate
      have hempty := createStage_shown hfreeStage hcreate
      exact ((extractStaged_atomic hstage hbackup hapart (hfree hsame) hempty rfl).cleanup hstage
        hbackup).of_elsewhere hstage hsame

end Atomic

/-! ## A tree with locked directories -/

def ofTree (op : Files → Except IoError Files) : EStateM String Files Unit := fun files =>
  match op files with
  | .ok files => .ok () files
  | .error e => .error (ioMessage e) files

theorem ofTree_ok {op : Files → Except IoError Files} {files files' : Files}
    (h : ofTree op files = .ok () files') : op files = .ok files' := by
  unfold ofTree at h
  cases hop : op files with
  | ok after =>
      rw [hop] at h
      cases h
      rfl
  | error e =>
      rw [hop] at h
      contradiction

theorem ofTree_error {op : Files → Except IoError Files} {files files' : Files} {e : String}
    (h : ofTree op files = .error e files') : files' = files := by
  unfold ofTree at h
  cases hop : op files with
  | ok after =>
      rw [hop] at h
      contradiction
  | error e =>
      rw [hop] at h
      cases h
      rfl

def unpackNode (p : List Name) (kind : EntryKind) (bytes : Bytes) (files : Files) :
    Except IoError Files :=
  if kind = .file then writeFile files p bytes else createDir files p

theorem node_unpackNode {p : List Name} {kind : EntryKind} {bytes : Bytes} {files files' : Files}
    (h : unpackNode p kind bytes files = .ok files') (q : List Name) :
    node files' q = if p = q then some (nodeOf kind bytes) else node files q := by
  unfold unpackNode at h
  unfold nodeOf
  split at h
  next hkind => rw [node_writeFile h, if_pos hkind]
  next hkind => rw [node_createDir h, if_neg hkind]

/-- Nothing is removed from a directory that holds one that cannot be opened. -/
def removeUnlocked (locked : List Name → Bool) (p : List Name) : EStateM String Files Unit :=
  fun files =>
    if files.any fun entry => decide (p <+: entry.1) && locked entry.1 then
      .error "Permission denied (os error 13)" files
    else .ok () (removeDirAll files p)

/-- A file system that is its tree, some of whose directories cannot be opened. -/
def treeFileSystem (locked : List Name → Bool) : FileSystem Files where
  tree := id
  createDirAll p := ofTree (createDirAll · p)
  rename source target := ofTree (rename · source target)
  removeDirAll := removeUnlocked locked
  unpack p kind bytes := ofTree (unpackNode p kind bytes)
  pathExists := isPresent
  readDir files p := .ok (children files p)
  isDirEntry files p := .ok (isDir files p)
  createDirAll_ok h := node_createDirAll (ofTree_ok h)
  createDirAll_error h _ _ := by rw [ofTree_error h]
  rename_ok h hapart := node_rename (ofTree_ok h) hapart
  rename_error h _ := by rw [ofTree_error h]
  removeDirAll_ok h q := by
    unfold removeUnlocked at h
    split at h
    · contradiction
    · cases h
      exact node_removeDirAll _ _ _
  removeDirAll_error h _ _ := by
    unfold removeUnlocked at h
    split at h
    · cases h
      rfl
    · contradiction
  unpack_ok h := node_unpackNode (ofTree_ok h)
  unpack_error h _ _ := by rw [ofTree_error h]
  readDir_ok h := by
    cases h
    exact ⟨List.nodup_dedup _, fun _ => mem_children⟩
  isDirEntry_ok h := by
    cases h
    rfl

/-! ## An archive with a locked directory -/

def hydrateSuffixes : Suffixes := ⟨"1", "2"⟩

def dataStorage : Path := pathOf "/data/storage"

def lockedDir : TarEntry := { path := .ok "assets/locked", kind := .dir, headerSize := .ok 0 }

def strayFile : TarEntry := { path := .ok "../stray", kind := .file, headerSize := .ok 0 }

/-- The entries are extracted to `/data/storage`, and `locked` has the mode 000. -/
def hydrateLocked (entries : List TarEntry) : FileSystem.Outcome × Files :=
  (treeFileSystem fun q => q.getLast? == some "locked".toList).extractArchiveAtomically []
    hydrateSuffixes ⟨10, 10⟩ (.ok (entries.map .ok)) dataStorage (fun _ _ => .ok ()) []

theorem extraction_atomic_assets :
    Atomic (treeFileSystem fun q => q.getLast? == some "locked".toList)
      (.ok ([assetsDir, assetsFile 3].map .ok)) (dataStorage.denote [])
      ((stageRoot hydrateSuffixes (pathOf "/data")).denote [])
      ((backupDir hydrateSuffixes dataStorage).denote []) []
      (hydrateLocked [assetsDir, assetsFile 3]).1 (hydrateLocked [assetsDir, assetsFile 3]).2 := by
  refine extraction_atomic _ [] hydrateSuffixes ⟨10, 10⟩ _ _ rfl rfl [] ⟨?_, ?_⟩
  · intro parent _
    exact ⟨fun _ _ => rfl, fun _ _ => rfl⟩
  · intro name hname
    obtain rfl := Option.some.inj hname
    decide

/-- An entry is refused and the staging directory stays, since it cannot be removed. An
extraction that succeeds holds no top-level directory of the archive. -/
theorem staging_left_behind :
    (∃ e, (hydrateLocked [assetsDir, lockedDir, strayFile]).1.result = .error e) ∧
      node (hydrateLocked [assetsDir, lockedDir, strayFile]).2
        ((stageRoot hydrateSuffixes (pathOf "/data")).denote []) = some .dir ∧
      (hydrateLocked [assetsDir, assetsFile 3]).1.result = .ok () ∧
      contentsOf [assetsDir, assetsFile 3] ["assets".toList] = some .dir ∧
      node (hydrateLocked [assetsDir, assetsFile 3]).2
        (dataStorage.denote [] ++ ["assets".toList]) = none := by
  refine ⟨⟨_, rfl⟩, ?_, rfl, ?_, ?_⟩
  · decide
  · decide
  · decide

end DbtNova.AtomicExtraction
