import DbtNova.StorageProtocol

/-!
# What the build lock protects

The invariant of the storage protocol: a process that writes holds the build lock
and works on the version of its own request, and a directory with a signature
holds what that signature describes. Every step keeps it as long as a process that
reuses a version without the lock finds it reusable when it reads it again.
-/
namespace DbtNova.StorageProtocol
open ManifestSignature Fingerprint TransitionSystem

section Invariant
variable (ι : Setting)

/-- A process with the build lock works on its own request. -/
structure Holds (s : Storage) (p : ℕ) (sel : Selection) : Prop where
  lock : s.buildLock = some p
  signature : sel.signature = ι.requested p
  versionId : sel.versionId = ι.versionId p

/-- The directory to be filled is the one named by the request, and a store that
is kept was parsed from the same content. -/
structure TargetOk (s : Storage) (p : ℕ) (r : Reuse) : Prop where
  dir : r.dir = ι.versionId p
  store : r.reuseStore = true → (s.versions r.dir).store = some (ι.requested p).contentHash

/-- What holds of a process in each phase: with the lock it fills its own
directory, without the lock it builds nothing. -/
def PhaseOk (s : Storage) (p : ℕ) : Phase → Prop
  | .start | .contending | .busy | .waiting | .serving | .ended => True
  | .selected sel | .persisted sel => sel.locked = true → Holds ι s p sel
  | .reread sel r => sel.locked = true ∧ Holds ι s p sel ∧ TargetOk ι s p r
  | .prepared sel r =>
      (sel.locked = true → Holds ι s p sel ∧ TargetOk ι s p r) ∧
        (sel.locked = false → (ι.config p).storageReadOnly = true ∨ r.needsBuild = false)
  | .opened sel r =>
      (sel.locked = true → Holds ι s p sel ∧ TargetOk ι s p r) ∧
        (sel.locked = false → r.needsBuild = false)
  | .storing sel r => sel.locked = true ∧ Holds ι s p sel ∧ r.dir = ι.versionId p
  | .stored sel r _ | .built sel r _ =>
      (sel.locked = true → Holds ι s p sel ∧ r.dir = ι.versionId p ∧
        (s.versions r.dir).store = some (ι.requested p).contentHash) ∧
        (sel.locked = false → r.needsBuild = false)
  | .signed sel r _ | .published sel r _ =>
      (sel.locked = true → Holds ι s p sel) ∧ (sel.locked = false → r.needsBuild = false)

/-- A signed directory is named by its signature, which some process requested,
and its store was parsed from the content the signature names. -/
structure DirOk (v : String) (dir : VersionDir) (signature : Signature) : Prop where
  named : v = versionIdOf ι.blake3 signature
  asked : ∃ q, signature = ι.requested q
  parsed : ∀ c, dir.store = some c → c = signature.contentHash

def DirsOk (s : Storage) : Prop :=
  ∀ v signature, (s.versions v).signature = some signature →
    DirOk ι v (s.versions v) signature

/-- The build lock was held, and a signature names what was parsed. -/
structure WriteOk (w : Write) : Prop where
  held : w.holder = some w.proc
  describes : ∀ named parsed, w.kind = .signature named parsed → parsed = some named

structure Inv (s : Storage) : Prop where
  phases : ∀ p, PhaseOk ι s p (s.phases p)
  dirs : DirsOk ι s
  writes : ∀ w ∈ s.writes, WriteOk w

/-- Version ids are cut hashes: two requests that share one are for one content. -/
def VersionIdsDistinct : Prop :=
  ∀ p q, ι.versionId p = ι.versionId q →
    (ι.requested p).contentHash = (ι.requested q).contentHash

/-- A process that selected without the lock, and may write, finds its artifacts
again when it reads them the second time. -/
def StillReusable (s : Storage) : Action → Prop
  | .reread p => ∀ sel, s.phases p = .selected sel → sel.locked = false →
      (ι.config p).storageReadOnly = false →
        (loadReusableArtifacts ι s p sel).needsBuild = false
  | _ => True

variable {ι}

theorem Holds.mono {s s' : Storage} {q : ℕ} {sel : Selection} (h : Holds ι s q sel)
    (hlock : s.buildLock = some q → s'.buildLock = some q) : Holds ι s' q sel :=
  ⟨hlock h.lock, h.signature, h.versionId⟩

/-- Other processes do not notice a step that keeps their lock and their store. -/
theorem PhaseOk.mono {s s' : Storage} {q : ℕ} {phase : Phase} (h : PhaseOk ι s q phase)
    (hframe : s.buildLock = some q →
      s'.buildLock = some q ∧ ∀ v, (s'.versions v).store = (s.versions v).store) :
    PhaseOk ι s' q phase := by
  have hholds {sel : Selection} (hh : Holds ι s q sel) : Holds ι s' q sel :=
    hh.mono fun hl => (hframe hl).1
  have hstore {sel : Selection} (hh : Holds ι s q sel) (v : String) :
      (s'.versions v).store = (s.versions v).store := (hframe hh.lock).2 v
  cases phase with
  | start | contending | busy | waiting | serving | ended => trivial
  | selected sel => exact fun hl => hholds (h hl)
  | persisted sel => exact fun hl => hholds (h hl)
  | reread sel r =>
      obtain ⟨hl, hh, ht⟩ := h
      exact ⟨hl, hholds hh, ht.dir, fun hr => by rw [hstore hh, ht.store hr]⟩
  | prepared sel r =>
      refine ⟨fun hl => ?_, h.2⟩
      obtain ⟨hh, ht⟩ := h.1 hl
      exact ⟨hholds hh, ht.dir, fun hr => by rw [hstore hh, ht.store hr]⟩
  | opened sel r =>
      refine ⟨fun hl => ?_, h.2⟩
      obtain ⟨hh, ht⟩ := h.1 hl
      exact ⟨hholds hh, ht.dir, fun hr => by rw [hstore hh, ht.store hr]⟩
  | storing sel r => exact ⟨h.1, hholds h.2.1, h.2.2⟩
  | stored sel r reused =>
      refine ⟨fun hl => ?_, h.2⟩
      obtain ⟨hh, hdir, hst⟩ := h.1 hl
      exact ⟨hholds hh, hdir, by rw [hstore hh, hst]⟩
  | built sel r reused =>
      refine ⟨fun hl => ?_, h.2⟩
      obtain ⟨hh, hdir, hst⟩ := h.1 hl
      exact ⟨hholds hh, hdir, by rw [hstore hh, hst]⟩
  | signed sel r reused => exact ⟨fun hl => hholds (h.1 hl), h.2⟩
  | published sel r reused => exact ⟨fun hl => hholds (h.1 hl), h.2⟩

/-- Signatures and stores are the same in both states. -/
def SameArtifacts (s s' : Storage) : Prop :=
  ∀ v, (s'.versions v).signature = (s.versions v).signature ∧
    (s'.versions v).store = (s.versions v).store

theorem SameArtifacts.refl (s : Storage) : SameArtifacts s s := fun _ => ⟨rfl, rfl⟩

theorem DirsOk.of_same {s s' : Storage} (hdirs : DirsOk ι s) (hsame : SameArtifacts s s') :
    DirsOk ι s' := by
  intro v signature hsig
  rw [(hsame v).1] at hsig
  obtain ⟨hnamed, hasked, hparsed⟩ := hdirs v signature hsig
  exact ⟨hnamed, hasked, fun c hc => hparsed c (by rw [← (hsame v).2, hc])⟩

/-- A step that writes none of the guarded files and takes no other's lock. -/
theorem Inv.move {s s' : Storage} (hinv : Inv ι s) (p : ℕ)
    (hphases : ∀ q, q ≠ p → s'.phases q = s.phases q)
    (hlock : ∀ q, q ≠ p → s.buildLock = some q → s'.buildLock = some q)
    (hsame : SameArtifacts s s') (hwrites : s'.writes = s.writes)
    (hp : PhaseOk ι s' p (s'.phases p)) : Inv ι s' := by
  refine ⟨fun q => ?_, hinv.dirs.of_same hsame, by rw [hwrites]; exact hinv.writes⟩
  by_cases hq : q = p
  · rw [hq]
    exact hp
  · rw [hphases q hq]
    exact (hinv.phases q).mono fun hl => ⟨hlock q hq hl, fun v => (hsame v).2⟩

/-- A step of the process that holds the lock. -/
theorem Inv.lockedMove {s s' : Storage} (hinv : Inv ι s) {p : ℕ} (hl : s.buildLock = some p)
    (hphases : ∀ q, q ≠ p → s'.phases q = s.phases q) (hdirs : DirsOk ι s')
    (hwrites : ∀ w ∈ s'.writes, WriteOk w) (hp : PhaseOk ι s' p (s'.phases p)) : Inv ι s' := by
  refine ⟨fun q => ?_, hdirs, hwrites⟩
  by_cases hq : q = p
  · rw [hq]
    exact hp
  · rw [hphases q hq]
    refine (hinv.phases q).mono fun hlq => ?_
    rw [hl] at hlq
    exact absurd (Option.some.inj hlq).symm hq

theorem empty_inv : Inv ι empty :=
  ⟨fun _ => trivial, fun _ _ h => by simp [empty] at h, fun _ h => by simp [empty] at h⟩

theorem Inv.setPhase {s : Storage} (hinv : Inv ι s) {p : ℕ} {phase : Phase}
    (hp : PhaseOk ι s p phase) : Inv ι (s.setPhase p phase) := by
  refine hinv.move p (fun q hq => by simp [hq]) (fun _ _ hl => hl) (SameArtifacts.refl s) rfl ?_
  rw [Storage.setPhase_phases, Function.update_self]
  exact hp.mono fun hl => ⟨hl, fun _ => rfl⟩

/-! ## Finding the directory of a request -/

theorem requested_format (p : ℕ) :
    effectiveStorageFormatVersion (ι.requested p) = storageFormatVersion := by
  have hversion : (ι.requested p).storageFormatVersion = storageFormatVersion := by
    rw [Setting.requested, Request.signature, requestedSignature]
    cases (ι.request p).sources.catalog <;> rfl
  rw [effectiveStorageFormatVersion, hversion]
  rfl

/-- Requested signatures carry the current format, so they match in one way only. -/
theorem matchesForReuse_of_runtimeRead {q : ℕ} {config : DbtNovaConfig} {expected : Signature}
    (h : manifestSignatureMatchesForRuntimeRead ι.blake3 config (ι.requested q) expected =
      true) : manifestSignatureMatchesForReuse (ι.requested q) expected = true := by
  have hformat : (storageFormatVersion == legacyStorageFormatVersion) = false := by decide
  simpa [manifestSignatureMatchesForRuntimeRead, requested_format, hformat] using h

theorem matches_contentHash {existing expected : Signature}
    (h : manifestSignatureMatchesForReuse existing expected = true) :
    existing.contentHash = expected.contentHash := by
  simp only [manifestSignatureMatchesForReuse, Bool.and_eq_true, beq_iff_eq] at h
  exact h.1.1.1.2

theorem matches_versionId {existing expected : Signature}
    (h : manifestSignatureMatchesForReuse existing expected = true) :
    versionIdOf ι.blake3 existing = versionIdOf ι.blake3 expected := by
  rw [versionIdOf, scopedManifestHash_of_matches ι.blake3 h, ← versionIdOf]

/-- A directory that matches a request is the one named by it, and its store was
parsed from the requested content. -/
theorem matchingSignature_target {s : Storage} {p : ℕ} {v : String} (hdirs : DirsOk ι s)
    (h : (matchingSignature ι s p (ι.requested p) v).isSome = true) :
    v = ι.versionId p ∧
      ((s.versions v).store.isSome = true →
        (s.versions v).store = some (ι.requested p).contentHash) := by
  obtain ⟨existing, hexisting⟩ := Option.isSome_iff_exists.mp h
  rw [matchingSignature, Option.filter_eq_some_iff] at hexisting
  obtain ⟨hsig, hmatch⟩ := hexisting
  obtain ⟨hnamed, ⟨q, rfl⟩, hparsed⟩ := hdirs v existing hsig
  have hreuse := matchesForReuse_of_runtimeRead hmatch
  refine ⟨by rw [hnamed, matches_versionId hreuse, Setting.versionId_requested], fun hstore => ?_⟩
  obtain ⟨c, hc⟩ := Option.isSome_iff_exists.mp hstore
  rw [hc, hparsed c hc, matches_contentHash hreuse]

theorem openReusableArtifacts_target {s : Storage} {p : ℕ} {v : String} (hdirs : DirsOk ι s)
    (h : (matchingSignature ι s p (ι.requested p) v).isSome = true) :
    TargetOk ι s p (openReusableArtifacts ι s p v) := by
  obtain ⟨hdir, hstore⟩ := matchingSignature_target hdirs h
  rw [openReusableArtifacts]
  exact ⟨hdir, hstore⟩

theorem loadReusableArtifacts_target {s : Storage} {p : ℕ} {sel : Selection}
    (hdirs : DirsOk ι s) (hh : Holds ι s p sel) :
    TargetOk ι s p (loadReusableArtifacts ι s p sel) := by
  unfold loadReusableArtifacts
  rw [hh.signature, hh.versionId]
  split
  · rename_i v hv
    obtain ⟨-, hmatch⟩ := Option.filter_eq_some_iff.mp hv
    exact openReusableArtifacts_target hdirs hmatch
  · split
    · rename_i hmatch
      exact openReusableArtifacts_target hdirs hmatch
    · refine ⟨?_, fun h => ?_⟩
      · dsimp only
      · simp at h

/-! ## Every step keeps the invariant -/

theorem selectLockless_inv {s s' : Storage} {p : ℕ} (hinv : Inv ι s)
    (hs : selectLockless ι s p = some s') : Inv ι s' := by
  unfold selectLockless at hs
  split at hs
  · split at hs
    · rename_i sel hsel
      cases hs
      refine hinv.setPhase fun hl => ?_
      -- A version found without the lock is never marked as locked.
      have hunlocked : sel.locked = false := by
        simp only [findLocklessStorageVersion, Option.or_eq_some_iff, Option.bind_eq_some_iff,
          completeMatch, Option.map_eq_some_iff] at hsel
        obtain ⟨v, -, existing, -, rfl⟩ | ⟨-, existing, -, rfl⟩ := hsel <;> rfl
      simp [hunlocked] at hl
    · cases hs
      exact hinv.setPhase trivial
  · cases hs

theorem locking_inv {s : Storage} {p : ℕ} (hinv : Inv ι s) (hfree : s.buildLock = none) :
    Inv ι ({ s with buildLock := some p }.setPhase p (.selected (lockedSelection ι p))) := by
  refine hinv.move p (fun q hq => by simp [hq]) (fun q _ hl => ?_) (SameArtifacts.refl s) rfl ?_
  · simp [hfree] at hl
  · rw [Storage.setPhase_phases, Function.update_self, lockedSelection]
    exact fun _ => { lock := rfl, signature := by dsimp only, versionId := by dsimp only }

theorem tryLock_inv {s s' : Storage} {p : ℕ} (hinv : Inv ι s)
    (hs : tryLock ι s p = some s') : Inv ι s' := by
  unfold tryLock at hs
  split at hs
  · split at hs
    · rename_i hfree
      cases hs
      exact locking_inv hinv hfree
    · cases hs
      exact hinv.setPhase trivial
  · cases hs

theorem serveCurrent_inv {s s' : Storage} {p : ℕ} (hinv : Inv ι s)
    (hs : serveCurrent ι s p = some s') : Inv ι s' := by
  unfold serveCurrent at hs
  split at hs
  · split at hs
    · rename_i sel hsel
      cases hs
      refine hinv.setPhase fun hl => ?_
      have hunlocked : sel.locked = false := by
        simp only [loadCompletePublishedStorageVersion, Option.bind_eq_some_iff,
          Option.map_eq_some_iff] at hsel
        obtain ⟨v, -, existing, -, rfl⟩ := hsel
        rfl
      simp [hunlocked] at hl
    · cases hs
      exact hinv.setPhase trivial
  · cases hs

theorem acquireLock_inv {s s' : Storage} {p : ℕ} (hinv : Inv ι s)
    (hs : acquireLock ι s p = some s') : Inv ι s' := by
  unfold acquireLock at hs
  split at hs
  · rename_i hfree
    cases hs
    exact locking_inv hinv hfree
  · cases hs

theorem reread_inv {s s' : Storage} {p : ℕ} (hinv : Inv ι s)
    (hguard : StillReusable ι s (.reread p)) (hs : reread ι s p = some s') : Inv ι s' := by
  unfold reread at hs
  split at hs
  · rename_i sel hphase
    cases hs
    have hok : PhaseOk ι s p (.selected sel) := hphase ▸ hinv.phases p
    cases hl : sel.locked with
    | true =>
        exact hinv.setPhase
          ⟨hl, hok hl, loadReusableArtifacts_target hinv.dirs (hok hl)⟩
    | false =>
        refine hinv.setPhase ⟨fun h => by simp [hl] at h, fun _ => ?_⟩
        cases hro : (ι.config p).storageReadOnly with
        | true => exact .inl rfl
        | false => exact .inr (hguard sel hphase hl hro)
  · cases hs

theorem prune_inv {s s' : Storage} {p : ℕ} {victims : List String} (hinv : Inv ι s)
    (hs : prune s p victims = some s') : Inv ι s' := by
  unfold prune at hs
  split at hs
  · rename_i sel r hphase
    split at hs
    · rename_i hvictims
      cases hs
      have hok : PhaseOk ι s p (.reread sel r) := hphase ▸ hinv.phases p
      obtain ⟨hl, hh, ht⟩ := hok
      have hkept : ι.versionId p ∉ victims := by
        intro hmem
        have := List.all_eq_true.mp hvictims _ hmem
        simp [prunable, hh.versionId] at this
      refine hinv.lockedMove hh.lock (fun q hq => by simp [pruneStorageVersions, hq]) ?_ hinv.writes
        ?_
      · intro v signature hsig
        simp only [pruneStorageVersions, Storage.setPhase_versions] at hsig ⊢
        split at hsig
        · cases hsig
        · rename_i hv
          rw [if_neg hv]
          exact hinv.dirs v signature hsig
      · simp only [Storage.setPhase_phases, pruneStorageVersions, Function.update_self]
        refine ⟨fun _ => ⟨⟨hh.lock, hh.signature, hh.versionId⟩, ht.dir, fun hr => ?_⟩,
          fun h => by simp [hl] at h⟩
        have hstore := ht.store hr
        rw [ht.dir] at hstore ⊢
        simpa [hkept] using hstore
    · cases hs
  · cases hs

/-- Giving the lock back, or ending without it. -/
theorem unlocking_inv {s : Storage} {p : ℕ} {sel : Selection} {phase : Phase} (hinv : Inv ι s)
    (hh : sel.locked = true → Holds ι s p sel) (hp : ∀ s, PhaseOk ι s p phase) :
    Inv ι ((s.unlock sel).setPhase p phase) := by
  refine hinv.move p (fun q hq => by simp [hq]) (fun q hq hl => ?_) (fun v => by simp) (by simp) ?_
  · rw [Storage.setPhase_buildLock, Storage.unlock]
    split
    · rename_i hlocked
      rw [(hh hlocked).lock] at hl
      exact absurd (Option.some.inj hl).symm hq
    · exact hl
  · rw [Storage.setPhase_phases, Function.update_self]
    exact hp _

theorem takeInUse_inv {s s' : Storage} {p : ℕ} (hinv : Inv ι s)
    (hs : takeInUse ι s p = some s') : Inv ι s' := by
  unfold takeInUse at hs
  split at hs
  · rename_i sel r hphase
    have hok : PhaseOk ι s p (.prepared sel r) := hphase ▸ hinv.phases p
    split at hs
    · cases hs
      exact unlocking_inv hinv (fun hl => (hok.1 hl).1) (fun _ => trivial)
    · rename_i hbuild
      cases hs
      refine hinv.move p (fun q hq => by simp [hq]) (fun _ _ hl => hl) (SameArtifacts.refl s) rfl ?_
      rw [Storage.setPhase_phases, Function.update_self]
      have hopened : PhaseOk ι s p (.opened sel r) := by
        refine ⟨hok.1, fun hl => ?_⟩
        rcases hok.2 hl with hro | hnone
        · simpa [hro] using hbuild
        · exact hnone
      exact hopened.mono fun hl => ⟨hl, fun _ => rfl⟩
  · cases hs

theorem writeOk_append {s : Storage} {p : ℕ} {kind : WriteKind} (hinv : Inv ι s)
    (hl : s.buildLock = some p)
    (hkind : ∀ named parsed, kind = .signature named parsed → parsed = some named) :
    ∀ w ∈ s.writes ++ [⟨p, s.buildLock, kind⟩], WriteOk w := by
  intro w hw
  rw [List.mem_append, List.mem_singleton] at hw
  rcases hw with hold | rfl
  · exact hinv.writes w hold
  · exact ⟨hl, hkind⟩

/-- A new store in the directory of a request, or none while it is written. -/
theorem setStore_dirsOk (hids : VersionIdsDistinct ι) {s : Storage} {p : ℕ} {v : String}
    (hdirs : DirsOk ι s) (hv : v = ι.versionId p) {store : Option String}
    (hstore : ∀ c, store = some c → c = (ι.requested p).contentHash) :
    DirsOk ι (s.setDir v { s.versions v with store := store }) := by
  intro u signature hsig
  simp only [Storage.setDir_versions] at hsig ⊢
  by_cases hu : u = v
  · subst hu
    rw [Function.update_self] at hsig ⊢
    obtain ⟨hnamed, ⟨q, rfl⟩, -⟩ := hdirs u signature hsig
    refine ⟨hnamed, ⟨q, rfl⟩, fun c hc => ?_⟩
    rw [hstore c hc]
    exact hids p q (by rw [← hv, hnamed, Setting.versionId_requested])
  · rw [Function.update_of_ne hu] at hsig ⊢
    exact hdirs u signature hsig

theorem openStore_inv (hids : VersionIdsDistinct ι) {s s' : Storage} {p : ℕ} (hinv : Inv ι s)
    (hs : openStore s p = some s') : Inv ι s' := by
  unfold openStore at hs
  split at hs
  · rename_i sel r hphase
    have hok : PhaseOk ι s p (.opened sel r) := hphase ▸ hinv.phases p
    split at hs
    · rename_i hreuse
      cases hs
      refine hinv.setPhase ⟨fun hl => ?_, hok.2⟩
      obtain ⟨hh, ht⟩ := hok.1 hl
      exact ⟨hh, ht.dir, ht.store hreuse⟩
    · rename_i hreuse
      cases hs
      -- Without the lock nothing would have to be built.
      have hl : sel.locked = true := by
        by_contra hl
        have := hok.2 (by simpa using hl)
        simp [Reuse.needsBuild, hreuse] at this
      obtain ⟨hh, ht⟩ := hok.1 hl
      refine hinv.lockedMove hh.lock (fun q hq => by simp [hq])
        (setStore_dirsOk hids (s := s.log p .entityStore) hinv.dirs ht.dir (by simp))
        (writeOk_append hinv hh.lock (by simp)) ?_
      rw [Storage.setPhase_phases, Function.update_self]
      exact ⟨hl, ⟨hh.lock, hh.signature, hh.versionId⟩, ht.dir⟩
  · cases hs

theorem finishStore_inv (hids : VersionIdsDistinct ι) {s s' : Storage} {p : ℕ} (hinv : Inv ι s)
    (hs : finishStore ι s p = some s') : Inv ι s' := by
  unfold finishStore at hs
  split at hs
  · rename_i sel r hphase
    have hok : PhaseOk ι s p (.storing sel r) := hphase ▸ hinv.phases p
    obtain ⟨hl, hh, hdir⟩ := hok
    cases hs
    refine hinv.lockedMove hh.lock (fun q hq => by simp [hq])
      (setStore_dirsOk hids (s := s.log p .entityStore) hinv.dirs hdir
        (fun c hc => (Option.some.inj hc).symm))
      (writeOk_append hinv hh.lock (by simp)) ?_
    rw [Storage.setPhase_phases, Function.update_self]
    refine ⟨fun _ => ⟨⟨hh.lock, hh.signature, hh.versionId⟩, hdir, ?_⟩, fun h => by simp [hl] at h⟩
    simp
  · cases hs

/-- Search index and index cache are not guarded files. -/
theorem setDir_same (s : Storage) (v : String) (dir : VersionDir)
    (hsig : dir.signature = (s.versions v).signature) (hstore : dir.store = (s.versions v).store) :
    SameArtifacts s (s.setDir v dir) := by
  intro u
  rw [Storage.setDir_versions]
  by_cases hu : u = v
  · subst hu
    rw [Function.update_self]
    exact ⟨hsig, hstore⟩
  · rw [Function.update_of_ne hu]
    exact ⟨rfl, rfl⟩

theorem buildIndex_inv {s s' : Storage} {p : ℕ} (hinv : Inv ι s)
    (hs : buildIndex ι s p = some s') : Inv ι s' := by
  unfold buildIndex at hs
  split at hs
  · rename_i sel r reused hphase
    have hok : PhaseOk ι s p (.stored sel r reused) := hphase ▸ hinv.phases p
    have hbuilt : PhaseOk ι s p (.built sel r reused) := hok
    split at hs
    · cases hs
      exact hinv.setPhase hbuilt
    · cases hs
      have hsame := setDir_same s r.dir
        { s.versions r.dir with tantivy := some (ι.config p).search } rfl rfl
      refine hinv.move p (fun q hq => by simp [hq]) (fun _ _ hl => hl) hsame rfl ?_
      rw [Storage.setPhase_phases, Function.update_self]
      exact hbuilt.mono fun hl => ⟨hl, fun v => (hsame v).2⟩
  · cases hs

theorem writeSignature_inv {s s' : Storage} {p : ℕ} (hinv : Inv ι s)
    (hs : writeSignature s p = some s') : Inv ι s' := by
  unfold writeSignature at hs
  split at hs
  · rename_i sel r reused hphase
    have hok : PhaseOk ι s p (.built sel r reused) := hphase ▸ hinv.phases p
    split at hs
    · rename_i hbuild
      cases hs
      have hl : sel.locked = true := by
        by_contra hl
        have := hok.2 (by simpa using hl)
        simp [hbuild] at this
      obtain ⟨hh, hdir, hstore⟩ := hok.1 hl
      refine hinv.lockedMove hh.lock (fun q hq => by simp [hq]) ?_
        (writeOk_append hinv hh.lock ?_) ?_
      · intro v signature hsig
        simp only [Storage.setPhase_versions, Storage.setDir_versions] at hsig ⊢
        by_cases hv : v = r.dir
        · subst hv
          rw [Function.update_self] at hsig ⊢
          obtain rfl := Option.some.inj hsig
          refine ⟨by rw [hdir, hh.signature, Setting.versionId_requested], ⟨p, hh.signature⟩,
            fun c hc => ?_⟩
          rw [hh.signature]
          exact Option.some.inj (hc.symm.trans hstore)
        · rw [Function.update_of_ne hv] at hsig ⊢
          exact hinv.dirs v signature hsig
      · intro named parsed hkind
        obtain ⟨rfl, rfl⟩ := WriteKind.signature.inj hkind
        rw [hstore, hh.signature]
      · rw [Storage.setPhase_phases, Function.update_self]
        exact ⟨fun _ => ⟨hh.lock, hh.signature, hh.versionId⟩, fun h => by simp [hl] at h⟩
    · cases hs
      exact hinv.setPhase ⟨fun hl => (hok.1 hl).1, hok.2⟩
  · cases hs

theorem writeCurrent_inv {s s' : Storage} {p : ℕ} (hinv : Inv ι s)
    (hs : writeCurrent ι s p = some s') : Inv ι s' := by
  unfold writeCurrent at hs
  split at hs
  · rename_i sel r reused hphase
    have hok : PhaseOk ι s p (.signed sel r reused) := hphase ▸ hinv.phases p
    split at hs
    · rename_i hwrite
      cases hs
      have hl : sel.locked = true := by
        by_contra hl
        have := hok.2 (by simpa using hl)
        simp [this, updateCurrentVersion, hl] at hwrite
      have hh := hok.1 hl
      refine hinv.lockedMove hh.lock (fun q hq => by simp [hq]) hinv.dirs
        (writeOk_append hinv hh.lock (by simp)) ?_
      rw [Storage.setPhase_phases, Function.update_self]
      exact ⟨fun _ => ⟨hh.lock, hh.signature, hh.versionId⟩, fun h => by simp [hl] at h⟩
    · cases hs
      exact hinv.setPhase hok
  · cases hs

theorem writeIndexes_inv {s s' : Storage} {p : ℕ} (hinv : Inv ι s)
    (hs : writeIndexes ι s p = some s') : Inv ι s' := by
  unfold writeIndexes at hs
  split at hs
  · rename_i sel r reused hphase
    have hok : PhaseOk ι s p (.published sel r reused) := hphase ▸ hinv.phases p
    have hpersisted : PhaseOk ι s p (.persisted sel) := hok.1
    split at hs
    · cases hs
      have hsame := setDir_same s r.dir
        { s.versions r.dir with indexes := some sel.signature.contentHash } rfl rfl
      refine hinv.move p (fun q hq => by simp [hq]) (fun _ _ hl => hl) hsame rfl ?_
      rw [Storage.setPhase_phases, Function.update_self]
      exact hpersisted.mono fun hl => ⟨hl, fun v => (hsame v).2⟩
    · cases hs
      exact hinv.setPhase hpersisted
  · cases hs

theorem release_inv {s s' : Storage} {p : ℕ} (hinv : Inv ι s)
    (hs : release s p = some s') : Inv ι s' := by
  unfold release at hs
  split at hs
  · rename_i sel hphase
    have hok : PhaseOk ι s p (.persisted sel) := hphase ▸ hinv.phases p
    cases hs
    exact unlocking_inv hinv hok (fun _ => trivial)
  · cases hs

theorem abort_inv {s : Storage} (p : ℕ) (hinv : Inv ι s) : Inv ι (abort s p) := by
  unfold abort
  refine hinv.move p (fun q hq => by simp [hq]) (fun q hq hl => ?_) (SameArtifacts.refl s) rfl ?_
  · have hne : q ≠ p := hq
    simp [hl, hne]
  · rw [Storage.setPhase_phases, Function.update_self]
    trivial

theorem step_inv (hids : VersionIdsDistinct ι) {s s' : Storage} {a : Action}
    (hguard : StillReusable ι s a) (hinv : Inv ι s) (hs : step ι s a = some s') : Inv ι s' := by
  cases a with
  | selectLockless p => exact selectLockless_inv hinv hs
  | tryLock p => exact tryLock_inv hinv hs
  | serveCurrent p => exact serveCurrent_inv hinv hs
  | acquireLock p => exact acquireLock_inv hinv hs
  | reread p => exact reread_inv hinv hguard hs
  | prune p victims => exact prune_inv hinv hs
  | takeInUse p => exact takeInUse_inv hinv hs
  | openStore p => exact openStore_inv hids hinv hs
  | finishStore p => exact finishStore_inv hids hinv hs
  | buildIndex p => exact buildIndex_inv hinv hs
  | writeSignature p => exact writeSignature_inv hinv hs
  | writeCurrent p => exact writeCurrent_inv hinv hs
  | writeIndexes p => exact writeIndexes_inv hinv hs
  | release p => exact release_inv hinv hs
  | abort p =>
      obtain rfl := Option.some.inj hs
      exact abort_inv p hinv

end Invariant

/-! ## An unlocked build -/

theorem textBytes_ofList (cs : List Char) :
    textBytes (String.ofList cs) = cs.flatMap String.utf8EncodeChar := by
  simp [textBytes, List.utf8Encode]

/-- How the payload of a scoped hash begins. -/
def payloadHead : List Char :=
  ['\x7b', '"', 'c', 'o', 'n', 't', 'e', 'n', 't', '_', 'h', 'a', 's', 'h', '"', ':', '"', 'x']

/-- The version id that the example hash gives to a content of one letter. -/
def spelledId (c : Char) : String := String.ofList (c :: payloadHead.take 11)

theorem versionIdOf_spelled (signature : Signature) (c : Char) (byte : UInt8)
    (hescape : JsonValue.escapeChar c = [c]) (hbyte : String.utf8EncodeChar c = [byte])
    (hchar : Char.ofNat byte.toNat = c)
    (hcontent : signature.contentHash = String.ofList ['x', c])
    (hsearch : signature.searchIndexFingerprint ≠ "") :
    versionIdOf spelledBlake3 signature = spelledId c := by
  have hhead : ∃ rest, (JsonValue.object
      [("content_hash", .string signature.contentHash),
        ("prune_fingerprint", .string signature.pruneFingerprint),
        ("search_index_fingerprint", .string signature.searchIndexFingerprint)]).chars =
      payloadHead ++ c :: rest := by
    have hname : JsonValue.quoteText "content_hash" = payloadHead.tail.take 14 := by decide
    have hx : JsonValue.escapeChar 'x' = ['x'] := by decide
    have hvalue : JsonValue.quoteText signature.contentHash = ['"', 'x', c, '"'] := by
      simp [JsonValue.quoteText, hcontent, hx, hescape]
    simp only [JsonValue.chars, JsonValue.charsOfFields, JsonValue.charsOfField, hname, hvalue]
    exact ⟨_, rfl⟩
  obtain ⟨rest, hhead⟩ := hhead
  have hbytes : payloadHead.flatMap String.utf8EncodeChar =
      payloadHead.map fun c => UInt8.ofNat c.toNat := by decide
  have hspelled : (payloadHead.map fun c => UInt8.ofNat c.toNat).map
      (fun byte => Char.ofNat byte.toNat) = payloadHead := by decide
  simp only [versionIdOf, scopedManifestHash, hsearch, and_false, if_false, Blake3.hashJson,
    JsonValue.toText, hhead, textBytes_ofList, List.flatMap_append, hbytes, List.flatMap_cons,
    hbyte, spelledBlake3, String.toList_ofList, List.map_append, hspelled]
  simp [spelledId, payloadHead, hchar]

/-- A local manifest of one byte, under the default configuration. -/
def localRequest (byte : UInt8) : Request := ⟨{}, localSources [byte] none⟩

theorem localRequest_versionId (c : Char) (byte : UInt8)
    (hescape : JsonValue.escapeChar c = [c]) (hbyte : String.utf8EncodeChar c = [byte])
    (hchar : Char.ofNat byte.toNat = c) :
    spelledId c = versionIdOf spelledBlake3 ((localRequest byte).signature spelledBlake3) := by
  refine (versionIdOf_spelled _ c byte hescape hbyte hchar ?_ ?_).symm
  · rw [Request.signature, requestedSignature_contentHash]
    simp [signedContent, localRequest, localSources, spelledBlake3, hchar]
  · rw [Request.signature, requestedSignature_search]
    exact indexFingerprint_ne_empty _ _

/-- Processes 1 and 2 load manifests `a` and `b`, all others load `c`. -/
def threeManifests : Setting where
  blake3 := spelledBlake3
  tantivyOpens _ _ := true
  request
    | 1 => localRequest 97
    | 2 => localRequest 98
    | _ => localRequest 99
  versionId
    | 1 => spelledId 'a'
    | 2 => spelledId 'b'
    | _ => spelledId 'c'
  versionId_eq := by
    intro p
    split
    · exact localRequest_versionId 'a' 97 (by decide) (by decide) (by decide)
    · exact localRequest_versionId 'b' 98 (by decide) (by decide) (by decide)
    · exact localRequest_versionId 'c' 99 (by decide) (by decide) (by decide)

/-- From the lock to its release. -/
def buildAlone (p : ℕ) : List Action :=
  [.reread p, .prune p [], .takeInUse p, .openStore p, .finishStore p, .buildIndex p,
    .writeSignature p, .writeCurrent p, .writeIndexes p, .release p]

theorem threeManifests_distinct : VersionIdsDistinct threeManifests := by
  have hletter : ∀ p, ∃ c : Char, threeManifests.versionId p = spelledId c ∧
      threeManifests.request p = localRequest (UInt8.ofNat c.toNat) := by
    intro p
    match p with
    | 0 => exact ⟨'c', rfl, rfl⟩
    | 1 => exact ⟨'a', rfl, rfl⟩
    | 2 => exact ⟨'b', rfl, rfl⟩
    | _ + 3 => exact ⟨'c', rfl, rfl⟩
  intro p q h
  obtain ⟨c, hidp, hreqp⟩ := hletter p
  obtain ⟨d, hidq, hreqq⟩ := hletter q
  rw [hidp, hidq] at h
  have hcd := (List.cons.inj (String.ofList_injective h)).1
  rw [Setting.requested, Setting.requested, hreqp, hreqq, hcd]

theorem tryLock_locked :
    (run (step threeManifests) empty [.selectLockless 1, .tryLock 1]).map (fun s => s.phases 1) =
      some (.selected (lockedSelection threeManifests 1)) := rfl

/-- Process 3 is served version `a` while process 2 builds `b`; process 4 prunes
`a` once `b` is current; process 3 then builds, without the lock. -/
def prunedSelection : List Action :=
  [.selectLockless 1, .tryLock 1] ++ buildAlone 1 ++
    [.abort 1, .selectLockless 2, .tryLock 2, .selectLockless 3, .tryLock 3, .serveCurrent 3] ++
    buildAlone 2 ++
    [.selectLockless 4, .tryLock 4, .reread 4, .prune 4 [spelledId 'a'], .reread 3, .takeInUse 3,
      .openStore 3, .finishStore 3, .buildIndex 3, .writeSignature 3]

end DbtNova.StorageProtocol
