import DbtNova.StorageSafety

/-!
# Pruning beside readers

The pruning of the storage protocol taken apart: the process with the build lock
tests one directory after another for being in use and then removes candidates one
by one, while other processes select versions, take their locks and open them. A
process uses a version from the moment it has selected it to its end; in between it
takes the in-use lock. Which candidates are removed depends on ages and sizes that
are not modelled.
-/
namespace DbtNova.StoragePruning
open StorageProtocol TransitionSystem

/-- What a `prune_dirs` call has found so far, and whether it removes already. -/
structure Pruning where
  candidates : List String := []
  removing : Bool := false
  deriving DecidableEq, Repr

structure State where
  storage : Storage
  prunings : ℕ → Pruning

inductive Action where
  | load (a : StorageProtocol.Action)
  | scanDir (p : ℕ) (v : String)
  | removeDir (p : ℕ) (v : String)
  | endPrune (p : ℕ)
  deriving DecidableEq, Repr

def init : State := ⟨empty, fun _ => {}⟩

def loadActor : StorageProtocol.Action → ℕ
  | .selectLockless p | .tryLock p | .serveCurrent p | .acquireLock p | .reread p
  | .prune p _ | .takeInUse p | .openStore p | .finishStore p | .buildIndex p
  | .writeSignature p | .writeCurrent p | .writeIndexes p | .release p | .abort p => p

def isPrune : StorageProtocol.Action → Bool
  | .prune _ _ => true
  | _ => false

/-- A process that ends in the middle of a pruning forgets its candidates. -/
def afterLoad (prunings : ℕ → Pruning) : StorageProtocol.Action → ℕ → Pruning
  | .abort p => Function.update prunings p {}
  | _ => prunings

section Steps
variable (ι : Setting)

/-- The one-step pruning of the protocol is replaced by the three steps below it. -/
def load (s : State) (a : StorageProtocol.Action) : Option State :=
  if isPrune a then none
  else (StorageProtocol.step ι s.storage a).map fun storage =>
    ⟨storage, afterLoad s.prunings a⟩

def scanDir (s : State) (p : ℕ) (v : String) : Option State :=
  match s.storage.phases p with
  | .reread sel r =>
      if (s.prunings p).removing = false ∧ prunable s.storage sel r v = true then
        some { s with
          prunings := Function.update s.prunings p ⟨(s.prunings p).candidates ++ [v], false⟩ }
      else none
  | _ => none

def removeDir (s : State) (p : ℕ) (v : String) : Option State :=
  match s.storage.phases p with
  | .reread _ _ =>
      if v ∈ (s.prunings p).candidates then
        some ⟨pruneStorageVersions s.storage [v],
          Function.update s.prunings p ⟨(s.prunings p).candidates.erase v, true⟩⟩
      else none
  | _ => none

def endPrune (s : State) (p : ℕ) : Option State :=
  match s.storage.phases p with
  | .reread sel r =>
      some ⟨s.storage.setPhase p (.prepared sel r), Function.update s.prunings p {}⟩
  | _ => none

def step (s : State) : Action → Option State
  | .load a => load ι s a
  | .scanDir p v => scanDir s p v
  | .removeDir p v => removeDir s p v
  | .endPrune p => endPrune s p

end Steps

/-! ## Using a version -/

/-- The version a process has chosen and not locked yet. -/
def chosen : Phase → Option String
  | .selected sel => some sel.versionId
  | .reread _ r | .prepared _ r => some r.dir
  | _ => none

/-- A process uses what it has chosen, and then what it has locked. -/
def Uses (s : Storage) (q : ℕ) (v : String) : Prop :=
  chosen (s.phases q) = some v ∨ (q, v) ∈ s.inUse

/-- No directory that may be removed now is used by another process. -/
def RemovalsSpare (s : State) : Prop :=
  ∀ p v, (removeDir s p v).isSome = true → ∀ q, q ≠ p → ¬ Uses s.storage q v

/-- The version that a step makes its process use without the build lock. -/
def chooses (ι : Setting) (s : Storage) : StorageProtocol.Action → Option String
  | .selectLockless p => (findLocklessStorageVersion ι s p).map Selection.versionId
  | .serveCurrent p => (loadCompletePublishedStorageVersion ι s p).map Selection.versionId
  | .reread p =>
      match s.phases p with
      | .selected sel => if sel.locked then none else some (loadReusableArtifacts ι s p sel).dir
      | _ => none
  | _ => none

/-- No process chooses, without the build lock, a version that another has already
found free, and none is found free while another process has chosen it and has not
locked it. -/
def Timely (ι : Setting) (s : State) : Action → Prop
  | .load a => ∀ v, chooses ι s.storage a = some v →
      ∀ p, p ≠ loadActor a → v ∉ (s.prunings p).candidates
  | .scanDir p v => ∀ q, q ≠ p → chosen (s.storage.phases q) ≠ some v
  | _ => True

/-! ## What a loading step changes -/

/-- A process in this phase holds the build lock. -/
def locked : Phase → Bool
  | .reread _ _ => true
  | .selected sel | .prepared sel _ | .opened sel _ | .storing sel _ | .stored sel _ _
  | .built sel _ _ | .signed sel _ _ | .published sel _ _ | .persisted sel => sel.locked
  | _ => false

def LocksHeld (s : Storage) : Prop :=
  ∀ p, locked (s.phases p) = true → s.buildLock = some p

/-- A step of `p`: the other processes keep their phases and the lock, and what `p`
uses afterwards it used before, has just chosen, or uses under the build lock. -/
structure Moved (p : ℕ) (choice : Option String) (s s' : Storage) : Prop where
  others : ∀ q, q ≠ p → s'.phases q = s.phases q
  lock : ∀ q, q ≠ p → s.buildLock = some q → s'.buildLock = some q
  own : locked (s'.phases p) = true → s'.buildLock = some p
  picked : ∀ v, chosen (s'.phases p) = some v →
    chosen (s.phases p) = some v ∨ choice = some v ∨ s'.buildLock = some p
  took : ∀ use ∈ s'.inUse, use ∈ s.inUse ∨ use.1 = p ∧ chosen (s.phases p) = some use.2
  choice_chosen : ∀ v, choice = some v → chosen (s'.phases p) = some v

section Moves
variable {ι : Setting} {s s' : Storage} {p : ℕ} {phase : Phase}

/-- The common case: files change, and the process goes on in a phase in which it has
chosen nothing. -/
theorem Moved.goOn (hlocks : LocksHeld s) (hphases : s'.phases = Function.update s.phases p phase)
    (hlock : s'.buildLock = s.buildLock) (hinUse : s'.inUse = s.inUse)
    (hlocked : locked phase = true → locked (s.phases p) = true) (hchosen : chosen phase = none) :
    Moved p none s s' where
  others q hq := by rw [hphases, Function.update_of_ne hq]
  lock q _ hl := hlock.trans hl
  own hl := by
    rw [hphases, Function.update_self] at hl
    exact hlock.trans (hlocks p (hlocked hl))
  picked v hv := by
    rw [hphases, Function.update_self, hchosen] at hv
    cases hv
  took use huse := .inl (hinUse ▸ huse)
  choice_chosen v hv := by cases hv

/-- A process that finds a version without the lock. -/
theorem Moved.choose {sel : Selection} (hunlocked : sel.locked = false) :
    Moved p (some sel.versionId) s (s.setPhase p (.selected sel)) where
  others q hq := by rw [Storage.setPhase_phases, Function.update_of_ne hq]
  lock q _ hl := hl
  own hl := by
    rw [Storage.setPhase_phases, Function.update_self, locked, hunlocked] at hl
    cases hl
  picked v hv := by
    rw [Storage.setPhase_phases, Function.update_self] at hv
    exact .inr (.inl hv)
  took use huse := .inl huse
  choice_chosen v hv := by
    rw [Storage.setPhase_phases, Function.update_self]
    exact hv

/-- A process that gets the build lock. -/
theorem Moved.acquire {sel : Selection} (hfree : s.buildLock = none) :
    Moved p none s ({ s with buildLock := some p }.setPhase p (.selected sel)) where
  others q hq := by rw [Storage.setPhase_phases, Function.update_of_ne hq]
  lock q _ hl := by
    rw [hfree] at hl
    cases hl
  own _ := rfl
  picked _ _ := .inr (.inr rfl)
  took use huse := .inl huse
  choice_chosen v hv := by cases hv

/-- A process that gives the build lock back, if it has it, and chooses no more. -/
theorem Moved.unlock {sel : Selection} (hheld : sel.locked = true → s.buildLock = some p)
    (hlocked : locked phase = false) (hchosen : chosen phase = none) :
    Moved p none s ((s.unlock sel).setPhase p phase) where
  others q hq := by
    rw [Storage.setPhase_phases, Function.update_of_ne hq, Storage.unlock_phases]
  lock q hq hl := by
    rw [Storage.setPhase_buildLock, Storage.unlock]
    split
    next hsel =>
      rw [hheld hsel] at hl
      exact absurd (Option.some.inj hl).symm hq
    · exact hl
  own hl := by
    rw [Storage.setPhase_phases, Function.update_self, hlocked] at hl
    cases hl
  picked v hv := by
    rw [Storage.setPhase_phases, Function.update_self, hchosen] at hv
    cases hv
  took use huse := by
    left
    unfold Storage.unlock at huse
    split at huse
    · exact huse
    · exact huse
  choice_chosen v hv := by cases hv

theorem findLockless_unlocked {sel : Selection}
    (h : findLocklessStorageVersion ι s p = some sel) : sel.locked = false := by
  unfold findLocklessStorageVersion completeMatch at h
  rw [Option.or_eq_some_iff, Option.bind_eq_some_iff] at h
  cases h with
  | inl hcurrent =>
      obtain ⟨v, -, hv⟩ := hcurrent
      obtain ⟨existing, -, hsel⟩ := Option.map_eq_some_iff.mp hv
      rw [← hsel]
  | inr hown =>
      obtain ⟨existing, -, hsel⟩ := Option.map_eq_some_iff.mp hown.2
      rw [← hsel]

theorem loadPublished_unlocked {sel : Selection}
    (h : loadCompletePublishedStorageVersion ι s p = some sel) : sel.locked = false := by
  unfold loadCompletePublishedStorageVersion at h
  obtain ⟨v, -, hv⟩ := Option.bind_eq_some_iff.mp h
  obtain ⟨existing, -, hsel⟩ := Option.map_eq_some_iff.mp hv
  rw [← hsel]

theorem selectLockless_moved (hlocks : LocksHeld s) (h : selectLockless ι s p = some s') :
    Moved p (chooses ι s (.selectLockless p)) s s' := by
  unfold selectLockless at h
  simp only [chooses]
  split at h
  · split at h
    next sel hsel =>
      rw [← Option.some.inj h, hsel]
      exact Moved.choose (findLockless_unlocked hsel)
    next hnone =>
      rw [← Option.some.inj h, hnone]
      exact Moved.goOn hlocks rfl rfl rfl (fun hl => by cases hl) rfl
  · cases h

theorem serveCurrent_moved (hlocks : LocksHeld s) (h : serveCurrent ι s p = some s') :
    Moved p (chooses ι s (.serveCurrent p)) s s' := by
  unfold serveCurrent at h
  simp only [chooses]
  split at h
  · split at h
    next sel hsel =>
      rw [← Option.some.inj h, hsel]
      exact Moved.choose (loadPublished_unlocked hsel)
    next hnone =>
      rw [← Option.some.inj h, hnone]
      exact Moved.goOn hlocks rfl rfl rfl (fun hl => by cases hl) rfl
  · cases h

theorem tryLock_moved (hlocks : LocksHeld s) (h : tryLock ι s p = some s') :
    Moved p none s s' := by
  unfold tryLock at h
  split at h
  · split at h
    next hfree =>
      rw [← Option.some.inj h]
      exact Moved.acquire hfree
    · rw [← Option.some.inj h]
      exact Moved.goOn hlocks rfl rfl rfl (fun hl => by cases hl) rfl
  · cases h

theorem acquireLock_moved (h : acquireLock ι s p = some s') : Moved p none s s' := by
  unfold acquireLock at h
  split at h
  next hfree =>
    rw [← Option.some.inj h]
    exact Moved.acquire hfree
  · cases h

theorem reread_moved (hlocks : LocksHeld s) (h : reread ι s p = some s') :
    Moved p (chooses ι s (.reread p)) s s' := by
  unfold reread at h
  split at h
  next sel hphase =>
    have hchosen : chooses ι s (.reread p) =
        if sel.locked then none else some (loadReusableArtifacts ι s p sel).dir := by
      simp only [chooses, hphase]
    rw [← Option.some.inj h, hchosen]
    have hheld : sel.locked = true → s.buildLock = some p := by
      intro hl
      exact hlocks p (by rw [hphase]; exact hl)
    generalize loadReusableArtifacts ι s p sel = r
    cases hl : sel.locked with
    | true =>
        simp only [if_true]
        exact {
          others := fun q hq => by rw [Storage.setPhase_phases, Function.update_of_ne hq]
          lock := fun q _ hq => hq
          own := fun _ => hheld hl
          picked := fun _ _ => .inr (.inr (hheld hl))
          took := fun use huse => .inl huse
          choice_chosen := fun v hv => by cases hv }
    | false =>
        simp only [Bool.false_eq_true, if_false]
        exact {
          others := fun q hq => by rw [Storage.setPhase_phases, Function.update_of_ne hq]
          lock := fun q _ hq => hq
          own := fun hown => by
            rw [Storage.setPhase_phases, Function.update_self, locked, hl] at hown
            cases hown
          picked := fun v hv => by
            rw [Storage.setPhase_phases, Function.update_self] at hv
            exact .inr (.inl hv)
          took := fun use huse => .inl huse
          choice_chosen := fun v hv => by
            rw [Storage.setPhase_phases, Function.update_self]
            exact hv }
  · cases h

theorem takeInUse_moved (hlocks : LocksHeld s) (h : takeInUse ι s p = some s') :
    Moved p none s s' := by
  unfold takeInUse at h
  split at h
  next sel r hphase =>
    have hheld : sel.locked = true → s.buildLock = some p := by
      intro hl
      exact hlocks p (by rw [hphase]; exact hl)
    split at h
    · rw [← Option.some.inj h]
      exact Moved.unlock hheld rfl rfl
    · rw [← Option.some.inj h]
      exact {
        others := fun q hq => by rw [Storage.setPhase_phases, Function.update_of_ne hq]
        lock := fun q _ hq => hq
        own := fun hown => by
          rw [Storage.setPhase_phases, Function.update_self] at hown
          exact hheld hown
        picked := fun v hv => by
          rw [Storage.setPhase_phases, Function.update_self] at hv
          cases hv
        took := fun use huse => by
          cases List.mem_cons.mp huse with
          | inl hnew =>
              right
              rw [hnew, hphase]
              exact ⟨rfl, rfl⟩
          | inr hold => exact .inl hold
        choice_chosen := fun v hv => by cases hv }
  · cases h

theorem openStore_moved (hlocks : LocksHeld s) (h : openStore s p = some s') :
    Moved p none s s' := by
  unfold openStore at h
  split at h
  next sel r hphase =>
    have hlocked : locked (s.phases p) = sel.locked := by
      rw [hphase]
      rfl
    split at h
    · rw [← Option.some.inj h]
      exact Moved.goOn hlocks rfl rfl rfl (fun hl => hlocked.trans hl) rfl
    · rw [← Option.some.inj h]
      exact Moved.goOn hlocks rfl rfl rfl (fun hl => hlocked.trans hl) rfl
  · cases h

theorem finishStore_moved (hlocks : LocksHeld s) (h : finishStore ι s p = some s') :
    Moved p none s s' := by
  unfold finishStore at h
  split at h
  next sel r hphase =>
    have hlocked : locked (s.phases p) = sel.locked := by
      rw [hphase]
      rfl
    rw [← Option.some.inj h]
    exact Moved.goOn hlocks rfl rfl rfl (fun hl => hlocked.trans hl) rfl
  · cases h

theorem buildIndex_moved (hlocks : LocksHeld s) (h : buildIndex ι s p = some s') :
    Moved p none s s' := by
  unfold buildIndex at h
  split at h
  next sel r reused hphase =>
    have hlocked : locked (s.phases p) = sel.locked := by
      rw [hphase]
      rfl
    split at h
    · rw [← Option.some.inj h]
      exact Moved.goOn hlocks rfl rfl rfl (fun hl => hlocked.trans hl) rfl
    · rw [← Option.some.inj h]
      exact Moved.goOn hlocks rfl rfl rfl (fun hl => hlocked.trans hl) rfl
  · cases h

theorem writeSignature_moved (hlocks : LocksHeld s) (h : writeSignature s p = some s') :
    Moved p none s s' := by
  unfold writeSignature at h
  split at h
  next sel r reused hphase =>
    have hlocked : locked (s.phases p) = sel.locked := by
      rw [hphase]
      rfl
    split at h
    · rw [← Option.some.inj h]
      exact Moved.goOn hlocks rfl rfl rfl (fun hl => hlocked.trans hl) rfl
    · rw [← Option.some.inj h]
      exact Moved.goOn hlocks rfl rfl rfl (fun hl => hlocked.trans hl) rfl
  · cases h

theorem writeCurrent_moved (hlocks : LocksHeld s) (h : writeCurrent ι s p = some s') :
    Moved p none s s' := by
  unfold writeCurrent at h
  split at h
  next sel r reused hphase =>
    have hlocked : locked (s.phases p) = sel.locked := by
      rw [hphase]
      rfl
    split at h
    · rw [← Option.some.inj h]
      exact Moved.goOn hlocks rfl rfl rfl (fun hl => hlocked.trans hl) rfl
    · rw [← Option.some.inj h]
      exact Moved.goOn hlocks rfl rfl rfl (fun hl => hlocked.trans hl) rfl
  · cases h

theorem writeIndexes_moved (hlocks : LocksHeld s) (h : writeIndexes ι s p = some s') :
    Moved p none s s' := by
  unfold writeIndexes at h
  split at h
  next sel r reused hphase =>
    have hlocked : locked (s.phases p) = sel.locked := by
      rw [hphase]
      rfl
    split at h
    · rw [← Option.some.inj h]
      exact Moved.goOn hlocks rfl rfl rfl (fun hl => hlocked.trans hl) rfl
    · rw [← Option.some.inj h]
      exact Moved.goOn hlocks rfl rfl rfl (fun hl => hlocked.trans hl) rfl
  · cases h

theorem release_moved (hlocks : LocksHeld s) (h : release s p = some s') :
    Moved p none s s' := by
  unfold release at h
  split at h
  next sel hphase =>
    rw [← Option.some.inj h]
    refine Moved.unlock ?_ rfl rfl
    intro hl
    exact hlocks p (by rw [hphase]; exact hl)
  · cases h

theorem abort_moved (s : Storage) (p : ℕ) : Moved p none s (abort s p) where
  others q hq := by
    rw [abort, Storage.setPhase_phases, Function.update_of_ne hq]
  lock q hq hl := by
    change (if s.buildLock = some p then none else s.buildLock) = some q
    rw [hl, if_neg]
    intro heq
    exact hq (Option.some.inj heq)
  own hl := by
    rw [abort, Storage.setPhase_phases, Function.update_self] at hl
    cases hl
  picked v hv := by
    rw [abort, Storage.setPhase_phases, Function.update_self] at hv
    cases hv
  took use huse := .inl (List.mem_filter.mp huse).1
  choice_chosen v hv := by cases hv

/-- One lemma for every loading step. -/
theorem step_moved (hlocks : LocksHeld s) {a : StorageProtocol.Action} (ha : isPrune a = false)
    (h : StorageProtocol.step ι s a = some s') : Moved (loadActor a) (chooses ι s a) s s' := by
  cases a with
  | selectLockless p => exact selectLockless_moved hlocks h
  | tryLock p => exact tryLock_moved hlocks h
  | serveCurrent p => exact serveCurrent_moved hlocks h
  | acquireLock p => exact acquireLock_moved h
  | reread p => exact reread_moved hlocks h
  | prune p victims => cases ha
  | takeInUse p => exact takeInUse_moved hlocks h
  | openStore p => exact openStore_moved hlocks h
  | finishStore p => exact finishStore_moved hlocks h
  | buildIndex p => exact buildIndex_moved hlocks h
  | writeSignature p => exact writeSignature_moved hlocks h
  | writeCurrent p => exact writeCurrent_moved hlocks h
  | writeIndexes p => exact writeIndexes_moved hlocks h
  | release p => exact release_moved hlocks h
  | abort p =>
      rw [← Option.some.inj h]
      exact abort_moved s p

theorem Moved.locksHeld {choice : Option String} (h : Moved p choice s s') (hlocks : LocksHeld s) :
    LocksHeld s' := by
  intro q hq
  by_cases hqp : q = p
  · subst hqp
    exact h.own hq
  · rw [h.others q hqp] at hq
    exact h.lock q hqp (hlocks q hq)

/-- What is used after a step. -/
theorem Moved.uses {choice : Option String} (h : Moved p choice s s') {q : ℕ} {v : String}
    (huse : Uses s' q v) :
    Uses s q v ∨ q = p ∧ (choice = some v ∨ s'.buildLock = some q) := by
  by_cases hqp : q = p
  · subst hqp
    cases huse with
    | inl hchosen =>
        cases h.picked v hchosen with
        | inl hold => exact .inl (.inl hold)
        | inr hnew => exact .inr ⟨rfl, hnew⟩
    | inr hin =>
        cases h.took (q, v) hin with
        | inl hold => exact .inl (.inr hold)
        | inr htook => exact .inl (.inl htook.2)
  · left
    cases huse with
    | inl hchosen =>
        rw [h.others q hqp] at hchosen
        exact .inl hchosen
    | inr hin =>
        cases h.took (q, v) hin with
        | inl hold => exact .inr hold
        | inr htook => exact absurd htook.1 hqp

end Moves

/-! ## Removals and readers -/

/-- A process with candidates is pruning, and holds the build lock. -/
structure Inv (s : State) : Prop where
  locks : LocksHeld s.storage
  pruning : ∀ p v, v ∈ (s.prunings p).candidates → ∃ sel r, s.storage.phases p = .reread sel r

/-- No candidate of one process is used by another. -/
def Safe (s : State) : Prop :=
  ∀ p v, v ∈ (s.prunings p).candidates → ∀ q, q ≠ p → ¬ Uses s.storage q v

section Pruning
variable {ι : Setting} {s t : State}

theorem Inv.buildLock (hinv : Inv s) {p : ℕ} {v : String} (h : v ∈ (s.prunings p).candidates) :
    s.storage.buildLock = some p := by
  obtain ⟨sel, r, hphase⟩ := hinv.pruning p v h
  exact hinv.locks p (by rw [hphase]; rfl)

theorem removalsSpare_iff_safe (hinv : Inv s) : RemovalsSpare s ↔ Safe s := by
  constructor
  · intro h p v hv
    obtain ⟨sel, r, hphase⟩ := hinv.pruning p v hv
    refine h p v ?_
    unfold removeDir
    rw [hphase]
    simp only [if_pos hv, Option.isSome_some]
  · intro h p v hremove
    unfold removeDir at hremove
    split at hremove
    · split at hremove
      next hv => exact h p v hv
      · cases hremove
    · cases hremove

theorem mem_update_candidates {prunings : ℕ → Pruning} {p q : ℕ} {pruning : Pruning} {v : String}
    (h : v ∈ (Function.update prunings p pruning q).candidates) :
    q = p ∧ v ∈ pruning.candidates ∨ q ≠ p ∧ v ∈ (prunings q).candidates := by
  by_cases hq : q = p
  · subst hq
    rw [Function.update_self] at h
    exact .inl ⟨rfl, h⟩
  · rw [Function.update_of_ne hq] at h
    exact .inr ⟨hq, h⟩

/-- A process that is pruning takes no loading step but its end. -/
theorem reread_stuck {st st' : Storage} {a : StorageProtocol.Action} (ha : isPrune a = false)
    (h : StorageProtocol.step ι st a = some st') {sel : Selection} {r : Reuse}
    (hphase : st.phases (loadActor a) = .reread sel r) : ∃ p, a = .abort p := by
  cases a with
  | prune p victims => cases ha
  | abort p => exact ⟨p, rfl⟩
  | _ p =>
      simp only [loadActor] at hphase
      simp [StorageProtocol.step, selectLockless, tryLock, serveCurrent, acquireLock,
        StorageProtocol.reread, takeInUse, openStore, finishStore, buildIndex, writeSignature,
        writeCurrent, writeIndexes, release, hphase] at h

theorem afterLoad_other {prunings : ℕ → Pruning} {a : StorageProtocol.Action} {q : ℕ}
    (hq : q ≠ loadActor a) : afterLoad prunings a q = prunings q := by
  unfold afterLoad
  split
  · exact Function.update_of_ne hq _ _
  · rfl

theorem load_prunings {a : StorageProtocol.Action} (h : load ι s a = some t) :
    t.prunings = afterLoad s.prunings a := by
  unfold load at h
  split at h
  · cases h
  · obtain ⟨storage, -, ht⟩ := Option.map_eq_some_iff.mp h
    rw [← ht]

/-- What a loading step does to the whole state. -/
theorem load_cases {a : StorageProtocol.Action} (hinv : Inv s) (h : load ι s a = some t) :
    Moved (loadActor a) (chooses ι s.storage a) s.storage t.storage ∧
      ∀ q v, v ∈ (t.prunings q).candidates →
        v ∈ (s.prunings q).candidates ∧ t.storage.phases q = s.storage.phases q := by
  unfold load at h
  split at h
  · cases h
  next hprune =>
    have ha : isPrune a = false := by simpa using hprune
    obtain ⟨storage, hstep, ht⟩ := Option.map_eq_some_iff.mp h
    have hmoved := step_moved hinv.locks ha hstep
    rw [← ht]
    refine ⟨hmoved, ?_⟩
    intro q v hv
    by_cases habort : a = .abort q
    · rw [habort] at hv
      change v ∈ (Function.update s.prunings q {} q).candidates at hv
      rw [Function.update_self] at hv
      cases hv
    · have hkept : v ∈ (s.prunings q).candidates := by
        unfold afterLoad at hv
        split at hv
        next p =>
          cases mem_update_candidates hv with
          | inl hnone => cases hnone.2
          | inr hother => exact hother.2
        · exact hv
      refine ⟨hkept, hmoved.others q ?_⟩
      intro hq
      obtain ⟨sel, r, hphase⟩ := hinv.pruning q v hkept
      rw [hq] at hphase
      obtain ⟨p, hp⟩ := reread_stuck ha hstep hphase
      rw [hp, loadActor] at hq
      exact habort (hq ▸ hp)

theorem step_inv {a : Action} (hinv : Inv s) (h : step ι s a = some t) : Inv t := by
  cases a with
  | load a =>
      obtain ⟨hmoved, hkept⟩ := load_cases hinv h
      refine ⟨hmoved.locksHeld hinv.locks, ?_⟩
      intro q v hv
      obtain ⟨hold, hphase⟩ := hkept q v hv
      rw [hphase]
      exact hinv.pruning q v hold
  | scanDir p v =>
      change scanDir s p v = some t at h
      unfold scanDir at h
      split at h
      next sel r hphase =>
        split at h
        · rw [← Option.some.inj h]
          refine ⟨hinv.locks, ?_⟩
          intro q w hw
          cases mem_update_candidates hw with
          | inl hp => exact ⟨sel, r, hp.1 ▸ hphase⟩
          | inr hother => exact hinv.pruning q w hother.2
        · cases h
      · cases h
  | removeDir p v =>
      change removeDir s p v = some t at h
      unfold removeDir at h
      split at h
      next sel r hphase =>
        split at h
        · rw [← Option.some.inj h]
          refine ⟨hinv.locks, ?_⟩
          intro q w hw
          cases mem_update_candidates hw with
          | inl hp => exact ⟨sel, r, hp.1 ▸ hphase⟩
          | inr hother => exact hinv.pruning q w hother.2
        · cases h
      · cases h
  | endPrune p =>
      change endPrune s p = some t at h
      unfold endPrune at h
      split at h
      next sel r hphase =>
        rw [← Option.some.inj h]
        have hheld : s.storage.buildLock = some p := hinv.locks p (by rw [hphase]; rfl)
        constructor
        · intro q hq
          by_cases hqp : q = p
          · rw [hqp]
            exact hheld
          · rw [Storage.setPhase_phases, Function.update_of_ne hqp] at hq
            exact hinv.locks q hq
        · intro q w hw
          cases mem_update_candidates hw with
          | inl hp => cases hp.2
          | inr hother =>
              rw [Storage.setPhase_phases, Function.update_of_ne hother.1]
              exact hinv.pruning q w hother.2
      · cases h

theorem init_inv : Inv init := by
  constructor
  · intro p hp
    cases hp
  · intro p v hv
    cases hv

/-- The step is timely exactly if the removals that may follow it spare the readers. -/
theorem step_safe_iff {a : Action} (hinv : Inv s) (hsafe : Safe s) (h : step ι s a = some t) :
    Safe t ↔ Timely ι s a := by
  have hinv' := step_inv hinv h
  cases a with
  | load a =>
      obtain ⟨hmoved, hkept⟩ := load_cases hinv h
      constructor
      · intro ht v hchoice p hp hv
        have hv' : v ∈ (t.prunings p).candidates := by
          rw [load_prunings h, afterLoad_other hp]
          exact hv
        exact ht p v hv' (loadActor a) hp.symm (.inl (hmoved.choice_chosen v hchoice))
      · intro htimely p v hv q hq huse
        obtain ⟨hold, -⟩ := hkept p v hv
        cases hmoved.uses huse with
        | inl hused => exact hsafe p v hold q hq hused
        | inr hnew =>
            cases hnew.2 with
            | inl hchoice => exact htimely v hchoice p (hnew.1 ▸ hq.symm) hold
            | inr hlock => exact hq (Option.some.inj (hlock.symm.trans (hinv'.buildLock hv)))
  | scanDir p v =>
      change scanDir s p v = some t at h
      unfold scanDir at h
      split at h
      next sel r hphase =>
        split at h
        next hcond =>
          rw [← Option.some.inj h]
          constructor
          · intro ht q hq hchosen
            refine ht p v ?_ q hq (.inl hchosen)
            simp
          · intro htimely q w hw u hu huse
            cases mem_update_candidates hw with
            | inr hother => exact hsafe q w hother.2 u hu huse
            | inl hp =>
                cases List.mem_append.mp hp.2 with
                | inl hold => exact hsafe p w hold u (hp.1 ▸ hu) huse
                | inr hnew =>
                    rw [List.mem_singleton.mp hnew] at huse
                    cases huse with
                    | inl hchosen => exact htimely u (hp.1 ▸ hu) hchosen
                    | inr hin =>
                        -- the test for being in use would have seen the lock
                        have hfree := (Bool.and_eq_true_iff.mp hcond.2).2
                        have hne := List.all_eq_true.mp hfree (u, v) hin
                        simp at hne
        · cases h
      · cases h
  | removeDir p v =>
      change removeDir s p v = some t at h
      unfold removeDir at h
      split at h
      · split at h
        · rw [← Option.some.inj h]
          constructor
          · intro _
            trivial
          · intro _ q w hw u hu huse
            cases mem_update_candidates hw with
            | inl hp => exact hsafe p w (List.mem_of_mem_erase hp.2) u (hp.1 ▸ hu) huse
            | inr hother => exact hsafe q w hother.2 u hu huse
        · cases h
      · cases h
  | endPrune p =>
      change endPrune s p = some t at h
      unfold endPrune at h
      split at h
      next sel r hphase =>
        rw [← Option.some.inj h]
        constructor
        · intro _
          trivial
        · intro _ q w hw u hu huse
          cases mem_update_candidates hw with
          | inl hp => cases hp.2
          | inr hother =>
              refine hsafe q w hother.2 u hu ?_
              cases huse with
              | inr hin => exact .inr hin
              | inl hchosen =>
                  left
                  rw [Storage.setPhase_phases] at hchosen
                  by_cases hup : u = p
                  · rw [hup, Function.update_self] at hchosen
                    rw [hup, hphase]
                    exact hchosen
                  · rw [Function.update_of_ne hup] at hchosen
                    exact hchosen
      · cases h

end Pruning

/-! ## Runs without readers -/

section Runs
variable {ι : Setting} {s t : State}

def actor : Action → ℕ
  | .load a => loadActor a
  | .scanDir p _ | .removeDir p _ | .endPrune p => p

theorem step_others {a : Action} (hinv : Inv s) (h : step ι s a = some t) {q : ℕ}
    (hq : q ≠ actor a) : t.storage.phases q = s.storage.phases q := by
  cases a with
  | load a => exact (load_cases hinv h).1.others q hq
  | scanDir p v =>
      change scanDir s p v = some t at h
      unfold scanDir at h
      split at h
      · split at h
        · rw [← Option.some.inj h]
        · cases h
      · cases h
  | removeDir p v =>
      change removeDir s p v = some t at h
      unfold removeDir at h
      split at h
      · split at h
        · rw [← Option.some.inj h]
          rfl
        · cases h
      · cases h
  | endPrune p =>
      change endPrune s p = some t at h
      unfold endPrune at h
      split at h
      · rw [← Option.some.inj h]
        exact Function.update_of_ne hq _ _
      · cases h

theorem run_others {as : List Action} (hinv : Inv s) (hrun : run (step ι) s as = some t) {q : ℕ}
    (hq : ∀ a ∈ as, q ≠ actor a) : t.storage.phases q = s.storage.phases q := by
  induction as generalizing s with
  | nil => rw [Option.some.inj hrun]
  | cons a as ih =>
      obtain ⟨u, hstep, hrest⟩ := run_cons.mp hrun
      rw [ih (step_inv hinv hstep) hrest fun b hb => hq b (List.mem_cons_of_mem a hb)]
      exact step_others hinv hstep (hq a List.mem_cons_self)

def scans : Action → Bool
  | .scanDir _ _ => true
  | _ => false

/-- Before anything is scanned every step is timely. -/
theorem unscanned_step {a : Action} (hclean : ∀ p, s.prunings p = {}) (ha : scans a = false)
    (h : step ι s a = some t) : Timely ι s a ∧ ∀ p, t.prunings p = {} := by
  cases a with
  | load a =>
      constructor
      · intro v _ p _ hv
        rw [hclean p] at hv
        cases hv
      · intro p
        rw [load_prunings h]
        unfold afterLoad
        split
        next q =>
          by_cases hp : p = q
          · rw [hp, Function.update_self]
          · rw [Function.update_of_ne hp]
            exact hclean p
        · exact hclean p
  | scanDir p v => cases ha
  | removeDir p v =>
      change removeDir s p v = some t at h
      unfold removeDir at h
      split at h
      · split at h
        next hv =>
          rw [hclean p] at hv
          cases hv
        · cases h
      · cases h
  | endPrune p =>
      change endPrune s p = some t at h
      unfold endPrune at h
      split at h
      · rw [← Option.some.inj h]
        refine ⟨trivial, ?_⟩
        intro q
        by_cases hq : q = p
        · rw [hq]
          exact Function.update_self _ _ _
        · change Function.update s.prunings p {} q = {}
          rw [Function.update_of_ne hq]
          exact hclean q
      · cases h

theorem unscanned_guarded {as bs : List Action} (hclean : ∀ p, s.prunings p = {})
    (has : ∀ a ∈ as, scans a = false)
    (hbs : ∀ t, run (step ι) s as = some t → Guarded (step ι) (Timely ι) t bs)
    {u : State} (hrun : run (step ι) s (as ++ bs) = some u) :
    Guarded (step ι) (Timely ι) s (as ++ bs) := by
  induction as generalizing s with
  | nil => exact hbs s rfl
  | cons a as ih =>
      obtain ⟨t, hstep, hrest⟩ := run_cons.mp hrun
      obtain ⟨htimely, hclean'⟩ := unscanned_step hclean (has a List.mem_cons_self) hstep
      refine guarded_cons htimely hstep (ih hclean' ?_ ?_ hrest)
      · intro b hb
        exact has b (List.mem_cons_of_mem a hb)
      · intro v hv
        exact hbs v (run_cons.mpr ⟨t, hstep, hv⟩)

end Runs

/-! ## The one-step pruning -/

section OneStep
variable (ι : Setting) (prunings : ℕ → Pruning) {st : Storage} {p : ℕ} {sel : Selection} {r : Reuse}

theorem scan_run (hphase : st.phases p = .reread sel r) {victims : List String}
    (found : List String)
    (hvictims : ∀ v ∈ victims, prunable st sel r v = true) :
    run (step ι) ⟨st, Function.update prunings p ⟨found, false⟩⟩ (victims.map (.scanDir p)) =
      some ⟨st, Function.update prunings p ⟨found ++ victims, false⟩⟩ := by
  induction victims generalizing found with
  | nil => rw [List.append_nil]; rfl
  | cons v rest ih =>
      have hscan : step ι ⟨st, Function.update prunings p ⟨found, false⟩⟩ (.scanDir p v) =
          some ⟨st, Function.update prunings p ⟨found ++ [v], false⟩⟩ := by
        change scanDir _ p v = _
        unfold scanDir
        simp only [hphase, Function.update_self, Function.update_idem]
        rw [if_pos ⟨trivial, hvictims v List.mem_cons_self⟩]
      rw [List.map_cons]
      refine run_cons.mpr ⟨_, hscan, ?_⟩
      rw [ih _ (fun w hw => hvictims w (List.mem_cons_of_mem v hw)), List.append_assoc]
      rfl

theorem remove_run (victims : List String) (st : Storage) (pruning : Pruning)
    (hphase : st.phases p = .reread sel r) (hvictims : pruning.candidates = victims) :
    ∃ pruning', run (step ι) ⟨st, Function.update prunings p pruning⟩
        (victims.map (.removeDir p)) =
      some ⟨pruneStorageVersions st victims, Function.update prunings p pruning'⟩ := by
  induction victims generalizing st pruning with
  | nil => exact ⟨pruning, by simp [pruneStorageVersions]⟩
  | cons v rest ih =>
      have hremove : step ι ⟨st, Function.update prunings p pruning⟩ (.removeDir p v) =
          some ⟨pruneStorageVersions st [v], Function.update prunings p ⟨rest, true⟩⟩ := by
        change removeDir _ p v = _
        unfold removeDir
        simp only [hphase, Function.update_self, Function.update_idem, hvictims,
          List.mem_cons_self, if_true, List.erase_cons_head]
      obtain ⟨pruning', hrest⟩ := ih (pruneStorageVersions st [v]) ⟨rest, true⟩ hphase rfl
      refine ⟨pruning', ?_⟩
      rw [List.map_cons]
      refine run_cons.mpr ⟨_, hremove, hrest.trans ?_⟩
      have hversions : pruneStorageVersions (pruneStorageVersions st [v]) rest =
          pruneStorageVersions st (v :: rest) := by
        unfold pruneStorageVersions
        congr 1
        funext w
        by_cases hw : w ∈ rest
        · simp [hw]
        · simp [hw]
      rw [hversions]

/-- A pruning that nothing interrupts is the one step of the protocol. -/
theorem prune_run {s : State} {st : Storage} {p : ℕ} {victims : List String}
    (hclean : s.prunings p = {}) (h : StorageProtocol.prune s.storage p victims = some st) :
    run (step ι) s (victims.map (.scanDir p) ++ victims.map (.removeDir p) ++ [.endPrune p]) =
      some ⟨st, s.prunings⟩ := by
  unfold StorageProtocol.prune at h
  split at h
  next sel r hphase =>
    split at h
    next hvictims =>
      rw [← Option.some.inj h]
      have hsame := Function.update_eq_self p s.prunings
      rw [hclean] at hsame
      have hscan := scan_run ι s.prunings hphase [] fun v hv => List.all_eq_true.mp hvictims v hv
      rw [List.nil_append, hsame] at hscan
      obtain ⟨pruning', hremove⟩ :=
        remove_run ι s.prunings victims s.storage ⟨victims, false⟩ hphase rfl
      refine run_append.mpr ⟨_, run_append.mpr ⟨_, hscan, hremove⟩, ?_⟩
      refine run_cons.mpr ⟨_, ?_, rfl⟩
      change endPrune _ p = _
      unfold endPrune
      simp only [pruneStorageVersions, hphase, Function.update_idem]
      rw [hsame]
    · cases h
  · cases h

end OneStep

/-- From the lock to its release, without a scan. -/
def buildAlone (p : ℕ) : List Action :=
  [.load (.reread p), .endPrune p, .load (.takeInUse p), .load (.openStore p),
    .load (.finishStore p), .load (.buildIndex p), .load (.writeSignature p),
    .load (.writeCurrent p), .load (.writeIndexes p), .load (.release p)]

/-- Processes 1 and 2 have built `a` and `b`, process 1 has ended, and process 4 has
the build lock and reads again. -/
def twoVersions : List Action :=
  [.load (.selectLockless 1), .load (.tryLock 1)] ++ buildAlone 1 ++
    [.load (.abort 1), .load (.selectLockless 2), .load (.tryLock 2)] ++ buildAlone 2 ++
    [.load (.selectLockless 4), .load (.tryLock 4), .load (.reread 4)]

/-- Process 3 is served version `a` while process 2 builds `b`; process 4 then finds
`a` free, since process 3 has not locked it yet. -/
def servedThenScanned : List Action :=
  [.load (.selectLockless 1), .load (.tryLock 1)] ++ buildAlone 1 ++
    [.load (.abort 1), .load (.selectLockless 2), .load (.tryLock 2), .load (.selectLockless 3),
      .load (.tryLock 3), .load (.serveCurrent 3)] ++ buildAlone 2 ++
    [.load (.selectLockless 4), .load (.tryLock 4), .load (.reread 4),
      .scanDir 4 (spelledId 'a')]

end DbtNova.StoragePruning
