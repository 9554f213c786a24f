import DbtNova.Config
import DbtNova.TransitionSystem

/-!
# The handle to the loaded manifest

Three kinds of tasks share one state and one configuration: the initial load,
reload requests, and the refresh loop. Every read and every write of a lock is
one step; between steps any other task may run. A claim and the spawn of its
build are one step, since no await point stands between them. A reload writes
the configuration while it holds the state lock, so its publication is one step
too. A panic inside a build reaches the publishing task as an error.

The time stamps and the refresh statistics are left out: nothing reads them
back. `claims` is a history variable that no step looks at.
-/
namespace DbtNova.ManifestHandle
open TransitionSystem

/-- A loaded index: the configuration its build was given, and its identity. -/
structure ManifestSearch where
  builtFrom : DbtNovaConfig
  manifestHash : String
  deriving DecidableEq, Repr

inductive ManifestSearchState where
  | loading
  | ready (searcher : ManifestSearch)
  | refreshing (active : ManifestSearch)
  | failed (message : String)
  deriving DecidableEq, Repr

/-- A reload request and the machine it runs on. -/
structure Edit where
  params : ReloadManifestParams
  world : World

/-- A reload between its read of the configuration and its claim of the state. -/
inductive ReloadCall where
  | read (edit : Edit) (previous : DbtNovaConfig)
  | prepared (edit : Edit) (previous next : DbtNovaConfig)

/-- Builds in flight. `ticket` is the position of the claim in the history. -/
inductive Build where
  | initial (config : DbtNovaConfig)
  | reload (next : DbtNovaConfig) (active : Option ManifestSearch) (ticket : ℕ)
  | refresh (snapshot : DbtNovaConfig)

/-- Where the refresh loop stands in its current round. -/
inductive RefreshStage where
  | idle
  | sleeping
  | snapshotted (config : DbtNovaConfig)
  | captured (config : DbtNovaConfig) (activeHash : String)
  | changed (config : DbtNovaConfig)

structure Claim where
  edit : Edit
  succeeded : Bool

structure Handle where
  state : ManifestSearchState
  config : DbtNovaConfig
  reloads : List ReloadCall
  builds : List Build
  stage : RefreshStage
  claims : List Claim

inductive BuildOutcome where
  | loaded (manifestHash : String)
  | failed (message : String)
  deriving DecidableEq, Repr

inductive Action where
  | reloadRead (edit : Edit)
  | reloadPrepare (call : ℕ)
  | reloadClaim (call : ℕ)
  | publish (build : ℕ) (outcome : BuildOutcome)
  | refreshArm
  | refreshSnapshot
  | refreshCapture
  | refreshResolve (hash : Option String)
  | refreshClaim

def spawn (config : DbtNovaConfig) : Handle :=
  ⟨.loading, config, [], [.initial config], .idle, []⟩

def Handle.get (h : Handle) : Result ManifestSearch :=
  match h.state with
  | .ready searcher => .ok searcher
  | .refreshing active => .ok active
  | .loading => .error .indexBuildInProgress
  | .failed err => .error (.serverError ("Manifest initialization failed: " ++ err))

/-- The refresh loop's view of the active index. -/
def Handle.activeHash (h : Handle) : String :=
  match h.state with
  | .ready searcher => searcher.manifestHash
  | .refreshing active => active.manifestHash
  | .failed _ | .loading => ""

def reloadRead (h : Handle) (edit : Edit) : Handle :=
  { h with reloads := h.reloads ++ [.read edit h.config] }

/-- Computing the next configuration; an error ends the call. -/
def reloadPrepare (h : Handle) (call : ℕ) : Option Handle :=
  match h.reloads[call]? with
  | some (.read edit previous) =>
      match reloadConfig edit.world edit.params previous with
      | .ok next => some { h with reloads := h.reloads.set call (.prepared edit previous next) }
      | .error _ => some { h with reloads := h.reloads.eraseIdx call }
  | _ => none

/-- Taking the state for a reload, or ending with `IndexBuildInProgress`. -/
def reloadClaim (h : Handle) (call : ℕ) : Option Handle :=
  match h.reloads[call]? with
  | some (.prepared edit _ next) =>
      let rest := h.reloads.eraseIdx call
      match h.state with
      | .refreshing _ | .loading => some { h with reloads := rest }
      | .ready current => some { h with
          state := .refreshing current
          reloads := rest
          builds := h.builds ++ [.reload next (some current) h.claims.length]
          claims := h.claims ++ [⟨edit, false⟩] }
      | .failed _ => some { h with
          state := .loading
          reloads := rest
          builds := h.builds ++ [.reload next none h.claims.length]
          claims := h.claims ++ [⟨edit, false⟩] }
  | _ => none

def markSucceeded (claims : List Claim) (ticket : ℕ) : List Claim :=
  claims.modify ticket fun c => { c with succeeded := true }

/-- The end of a build: each kind of task has its own publication. -/
def publishBuild (h : Handle) : Build → BuildOutcome → Handle
  | .initial config, .loaded hash => { h with state := .ready ⟨config, hash⟩ }
  | .initial _, .failed message => { h with state := .failed message }
  | .reload next _ ticket, .loaded hash =>
      { h with
        config := next, state := .ready ⟨next, hash⟩
        claims := markSucceeded h.claims ticket }
  | .reload _ (some active) _, .failed _ => { h with state := .ready active }
  | .reload _ none _, .failed message => { h with state := .failed message }
  | .refresh snapshot, .loaded hash => { h with state := .ready ⟨snapshot, hash⟩ }
  | .refresh _, .failed message =>
      match h.state with
      | .refreshing active => { h with state := .ready active }
      | .loading => { h with state := .failed message }
      | .ready _ | .failed _ => h

def publish (h : Handle) (build : ℕ) (outcome : BuildOutcome) : Option Handle :=
  h.builds[build]?.map fun b =>
    publishBuild { h with builds := h.builds.eraseIdx build } b outcome

/-- The loop's first read: a round is started only with a refresh interval on a
writable storage. -/
def refreshArm (h : Handle) : Option Handle :=
  match h.stage with
  | .idle =>
      if h.config.manifestRefreshSecs = 0 ∨ h.config.storageReadOnly then some h
      else some { h with stage := .sleeping }
  | _ => none

def refreshSnapshot (h : Handle) : Option Handle :=
  match h.stage with
  | .sleeping => some { h with stage := .snapshotted h.config }
  | _ => none

def refreshCapture (h : Handle) : Option Handle :=
  match h.stage with
  | .snapshotted config => some { h with stage := .captured config h.activeHash }
  | _ => none

/-- Resolution and hashing; `none` stands for each of their failures. -/
def refreshResolve (h : Handle) (hash : Option String) : Option Handle :=
  match h.stage with
  | .captured config activeHash =>
      match hash with
      | none => some { h with stage := .idle }
      | some refreshHash =>
          if refreshHash = activeHash then some { h with stage := .idle }
          else some { h with stage := .changed config }
  | _ => none

def refreshClaim (h : Handle) : Option Handle :=
  match h.stage with
  | .changed config =>
      match h.state with
      | .refreshing _ | .loading => some { h with stage := .idle }
      | .ready current => some { h with
          state := .refreshing current, builds := h.builds ++ [.refresh config], stage := .idle }
      | .failed _ => some { h with
          state := .loading, builds := h.builds ++ [.refresh config], stage := .idle }
  | _ => none

def step (h : Handle) : Action → Option Handle
  | .reloadRead edit => some (reloadRead h edit)
  | .reloadPrepare call => reloadPrepare h call
  | .reloadClaim call => reloadClaim h call
  | .publish build outcome => publish h build outcome
  | .refreshArm => refreshArm h
  | .refreshSnapshot => refreshSnapshot h
  | .refreshCapture => refreshCapture h
  | .refreshResolve hash => refreshResolve h hash
  | .refreshClaim => refreshClaim h

/-! ## What a step can do -/

/-- Only a state without a build in flight can be claimed. -/
def ManifestSearchState.free : ManifestSearchState → Bool
  | .ready _ | .failed _ => true
  | .loading | .refreshing _ => false

/-- The state after a claim: a loaded index keeps being served. -/
def ManifestSearchState.claimed : ManifestSearchState → ManifestSearchState
  | .ready s | .refreshing s => .refreshing s
  | .failed _ | .loading => .loading

def ManifestSearchState.current : ManifestSearchState → Option ManifestSearch
  | .ready s | .refreshing s => some s
  | .failed _ | .loading => none

/-- A prepared call is either an old one or carries the result of its edit. -/
def CallsFrom (h h' : Handle) : Prop :=
  ∀ edit previous next, ReloadCall.prepared edit previous next ∈ h'.reloads →
    .prepared edit previous next ∈ h.reloads ∨
      reloadConfig edit.world edit.params previous = .ok next

theorem callsFrom_of_subset {h h' : Handle} (hsub : h'.reloads ⊆ h.reloads) :
    CallsFrom h h' := fun _ _ _ hmem => .inl (hsub hmem)

/-- The four effects of a step on the shared data. -/
inductive Effect (h h' : Handle) : Action → Prop
  | quiet {a : Action} (hcalls : CallsFrom h h') (hstate : h'.state = h.state)
      (hconfig : h'.config = h.config) (hbuilds : h'.builds = h.builds)
      (hclaims : h'.claims = h.claims) : Effect h h' a
  | reloadClaimed (call : ℕ) (edit : Edit) (previous next : DbtNovaConfig)
      (hcall : h.reloads[call]? = some (.prepared edit previous next))
      (hcalls : CallsFrom h h') (hfree : h.state.free = true)
      (hstate : h'.state = h.state.claimed) (hconfig : h'.config = h.config)
      (hbuilds : h'.builds = h.builds ++ [.reload next h.state.current h.claims.length])
      (hclaims : h'.claims = h.claims ++ [⟨edit, false⟩]) :
      Effect h h' (.reloadClaim call)
  | refreshClaimed (config : DbtNovaConfig) (hstage : h.stage = .changed config)
      (hcalls : CallsFrom h h')
      (hfree : h.state.free = true) (hstate : h'.state = h.state.claimed)
      (hconfig : h'.config = h.config) (hbuilds : h'.builds = h.builds ++ [.refresh config])
      (hclaims : h'.claims = h.claims) : Effect h h' .refreshClaim
  | published (build : ℕ) (b : Build) (outcome : BuildOutcome)
      (hbuild : h.builds[build]? = some b)
      (heq : h' = publishBuild { h with builds := h.builds.eraseIdx build } b outcome) :
      Effect h h' (.publish build outcome)

/-- A step of the refresh loop that only moves its stage. -/
theorem Effect.stage (h : Handle) (stage : RefreshStage) (a : Action) :
    Effect h { h with stage := stage } a :=
  .quiet (callsFrom_of_subset (List.Subset.refl _)) rfl rfl rfl rfl

theorem reloadRead_effect (h : Handle) (edit : Edit) :
    Effect h (reloadRead h edit) (.reloadRead edit) := by
  refine .quiet ?_ rfl rfl rfl rfl
  intro e previous next hmem
  simp only [reloadRead, List.mem_append, List.mem_singleton, reduceCtorEq, or_false] at hmem
  exact .inl hmem

theorem reloadPrepare_effect {h h' : Handle} {call : ℕ}
    (hs : reloadPrepare h call = some h') : Effect h h' (.reloadPrepare call) := by
  unfold reloadPrepare at hs
  split at hs
  · rename_i edit previous hcall
    split at hs
    · rename_i next hnext
      cases hs
      refine .quiet ?_ rfl rfl rfl rfl
      intro e p n hmem
      rcases List.mem_or_eq_of_mem_set hmem with hmem | heq
      · exact .inl hmem
      · cases heq
        exact .inr hnext
    · cases hs
      exact .quiet (callsFrom_of_subset (List.eraseIdx_subset)) rfl rfl rfl rfl
  · cases hs

theorem reloadClaim_effect {h h' : Handle} {call : ℕ}
    (hs : reloadClaim h call = some h') : Effect h h' (.reloadClaim call) := by
  unfold reloadClaim at hs
  split at hs
  · rename_i edit previous next hcall
    have hcalls (state : ManifestSearchState) (builds : List Build) (claims : List Claim) :
        CallsFrom h ⟨state, h.config, h.reloads.eraseIdx call, builds, h.stage, claims⟩ :=
      callsFrom_of_subset (List.eraseIdx_subset)
    cases hstate : h.state with
    | loading | refreshing active =>
        simp only [hstate, Option.some.injEq] at hs
        subst hs
        exact .quiet (hcalls _ _ _) (by simp [hstate]) rfl rfl rfl
    | ready current =>
        simp only [hstate, Option.some.injEq] at hs
        subst hs
        exact .reloadClaimed call edit previous next hcall (hcalls _ _ _) (by rw [hstate]; rfl)
          (by rw [hstate]; rfl) rfl (by rw [hstate]; rfl) rfl
    | failed message =>
        simp only [hstate, Option.some.injEq] at hs
        subst hs
        exact .reloadClaimed call edit previous next hcall (hcalls _ _ _) (by rw [hstate]; rfl)
          (by rw [hstate]; rfl) rfl (by rw [hstate]; rfl) rfl
  · cases hs

theorem refreshClaim_effect {h h' : Handle} (hs : refreshClaim h = some h') :
    Effect h h' .refreshClaim := by
  unfold refreshClaim at hs
  split at hs
  · rename_i config hstage
    have hcalls (state : ManifestSearchState) (builds : List Build) :
        CallsFrom h ⟨state, h.config, h.reloads, builds, .idle, h.claims⟩ :=
      callsFrom_of_subset (List.Subset.refl _)
    cases hstate : h.state with
    | loading | refreshing active =>
        simp only [hstate, Option.some.injEq] at hs
        subst hs
        exact .quiet (hcalls _ _) (by simp [hstate]) rfl rfl rfl
    | ready current =>
        simp only [hstate, Option.some.injEq] at hs
        subst hs
        exact .refreshClaimed config hstage (hcalls _ _) (by rw [hstate]; rfl)
          (by rw [hstate]; rfl) rfl rfl rfl
    | failed message =>
        simp only [hstate, Option.some.injEq] at hs
        subst hs
        exact .refreshClaimed config hstage (hcalls _ _) (by rw [hstate]; rfl)
          (by rw [hstate]; rfl) rfl rfl rfl
  · cases hs

theorem refreshArm_effect {h h' : Handle} (hs : refreshArm h = some h') :
    Effect h h' .refreshArm := by
  unfold refreshArm at hs
  split at hs
  · split_ifs at hs
    all_goals
      cases hs
      exact .stage h _ _
  · cases hs

theorem refreshResolve_effect {h h' : Handle} {hash : Option String}
    (hs : refreshResolve h hash = some h') : Effect h h' (.refreshResolve hash) := by
  unfold refreshResolve at hs
  split at hs
  · split at hs
    · cases hs
      exact .stage h _ _
    · split_ifs at hs
      all_goals
        cases hs
        exact .stage h _ _
  · cases hs

theorem step_effect {h h' : Handle} {a : Action} (hs : step h a = some h') :
    Effect h h' a := by
  cases a with
  | reloadRead edit =>
      cases hs
      exact reloadRead_effect h edit
  | reloadPrepare call => exact reloadPrepare_effect hs
  | reloadClaim call => exact reloadClaim_effect hs
  | publish build outcome =>
      simp only [step, publish, Option.map_eq_some_iff] at hs
      obtain ⟨b, hb, rfl⟩ := hs
      exact .published build b outcome hb rfl
  | refreshArm => exact refreshArm_effect hs
  | refreshSnapshot =>
      simp only [step, refreshSnapshot] at hs
      split at hs
      · cases hs
        exact .stage h _ _
      · cases hs
  | refreshCapture =>
      simp only [step, refreshCapture] at hs
      split at hs
      · cases hs
        exact .stage h _ _
      · cases hs
  | refreshResolve hash => exact refreshResolve_effect hs
  | refreshClaim => exact refreshClaim_effect hs

/-! ## One build at a time -/

/-- Which builds can be in flight in which state. -/
inductive Exclusive : ManifestSearchState → List Build → Prop
  | ready (s : ManifestSearch) : Exclusive (.ready s) []
  | failed (message : String) : Exclusive (.failed message) []
  | initial (config : DbtNovaConfig) : Exclusive .loading [.initial config]
  | reload (next : DbtNovaConfig) (s : ManifestSearch) (ticket : ℕ) :
      Exclusive (.refreshing s) [.reload next (some s) ticket]
  | reloadRetry (next : DbtNovaConfig) (ticket : ℕ) :
      Exclusive .loading [.reload next none ticket]
  | refresh (config : DbtNovaConfig) (s : ManifestSearch) :
      Exclusive (.refreshing s) [.refresh config]
  | refreshRetry (config : DbtNovaConfig) : Exclusive .loading [.refresh config]

/-- In an exclusive state a published build was the only one. -/
theorem Exclusive.getElem {state : ManifestSearchState} {builds : List Build}
    (he : Exclusive state builds) {i : ℕ} {b : Build} (hb : builds[i]? = some b) :
    builds = [b] ∧ builds.eraseIdx i = [] := by
  cases he
  all_goals
    cases i with
    | zero => simp_all
    | succ i => simp at hb

theorem Exclusive.builds_of_free {state : ManifestSearchState} {builds : List Build}
    (he : Exclusive state builds) (hfree : state.free = true) : builds = [] := by
  cases he
  all_goals first
    | rfl
    | simp [ManifestSearchState.free] at hfree

theorem publishBuild_exclusive {h : Handle} {b : Build} (he : Exclusive h.state [b])
    (outcome : BuildOutcome) :
    Exclusive (publishBuild { h with builds := [] } b outcome).state
      (publishBuild { h with builds := [] } b outcome).builds := by
  obtain ⟨state, config, reloads, builds, stage, claims⟩ := h
  cases he <;> cases outcome <;> simp only [publishBuild]
  all_goals constructor

theorem step_exclusive {h h' : Handle} {a : Action} (he : Exclusive h.state h.builds)
    (hs : step h a = some h') : Exclusive h'.state h'.builds := by
  cases step_effect hs with
  | quiet hcalls hstate hconfig hbuilds hclaims => rwa [hstate, hbuilds]
  | reloadClaimed call edit previous next hcall hcalls hfree hstate hconfig hbuilds hclaims =>
      rw [hstate, hbuilds, he.builds_of_free hfree]
      cases hst : h.state with
      | ready s => exact .reload next s _
      | failed message => exact .reloadRetry next _
      | loading | refreshing s => simp [hst, ManifestSearchState.free] at hfree
  | refreshClaimed config hstage hcalls hfree hstate hconfig hbuilds hclaims =>
      rw [hstate, hbuilds, he.builds_of_free hfree]
      cases hst : h.state with
      | ready s => exact .refresh config s
      | failed message => exact .refreshRetry config
      | loading | refreshing s => simp [hst, ManifestSearchState.free] at hfree
  | published build b outcome hbuild heq =>
      obtain ⟨hone, hnone⟩ := he.getElem hbuild
      rw [heq, hnone]
      exact publishBuild_exclusive (hone ▸ he) outcome

theorem spawn_exclusive (config : DbtNovaConfig) :
    Exclusive (spawn config).state (spawn config).builds := .initial config

theorem run_exclusive {config : DbtNovaConfig} {h : Handle} {as : List Action}
    (hrun : run step (spawn config) as = some h) : Exclusive h.state h.builds :=
  run_invariant (fun h => Exclusive h.state h.builds) (fun _ _ _ => step_exclusive)
    (spawn_exclusive config) hrun

/-! ## Availability -/

def ManifestSearchState.busy : ManifestSearchState → Bool
  | .loading | .refreshing _ => true
  | .ready _ | .failed _ => false

theorem Exclusive.busy_iff {state : ManifestSearchState} {builds : List Build}
    (he : Exclusive state builds) :
    (state.busy = true ↔ builds.length = 1) ∧ builds.length ≤ 1 := by
  cases he
  all_goals simp [ManifestSearchState.busy]

/-- Whether an action publishes a newly loaded index. -/
def Action.loads : Action → Bool
  | .publish _ (.loaded _) => true
  | _ => false

theorem get_eq_ok {h : Handle} {s : ManifestSearch} :
    h.get = .ok s ↔ h.state.current = some s := by
  unfold Handle.get
  cases h.state <;> simp [ManifestSearchState.current]

/-- Every step keeps an index in service, and the same one unless it loads. -/
theorem step_current {h h' : Handle} {a : Action} (he : Exclusive h.state h.builds)
    (hs : step h a = some h') {s : ManifestSearch} (hcur : h.state.current = some s) :
    ∃ s', h'.state.current = some s' ∧ (a.loads = false → s' = s) := by
  cases step_effect hs with
  | quiet hcalls hstate hconfig hbuilds hclaims => exact ⟨s, by rw [hstate, hcur], fun _ => rfl⟩
  | reloadClaimed call edit previous next hcall hcalls hfree hstate hconfig hbuilds hclaims =>
      refine ⟨s, ?_, fun _ => rfl⟩
      rw [hstate, ← hcur]
      cases h.state <;> rfl
  | refreshClaimed config hstage hcalls hfree hstate hconfig hbuilds hclaims =>
      refine ⟨s, ?_, fun _ => rfl⟩
      rw [hstate, ← hcur]
      cases h.state <;> rfl
  | published build b outcome hbuild heq =>
      obtain ⟨hone, hnone⟩ := he.getElem hbuild
      rw [hone] at he
      rw [heq, hnone]
      obtain ⟨state, config, reloads, builds, stage, claims⟩ := h
      -- Only the builds that were claimed over a served index are left.
      cases he <;> simp only [ManifestSearchState.current, reduceCtorEq, Option.some.injEq] at hcur
      all_goals
        cases outcome with
        | loaded hash =>
            exact ⟨_, rfl, by simp [Action.loads]⟩
        | failed message => exact ⟨s, by simp [publishBuild, ManifestSearchState.current, hcur],
            fun _ => rfl⟩

theorem run_current {h h' : Handle} {as : List Action} (he : Exclusive h.state h.builds)
    (hrun : run step h as = some h') (hcur : h.state.current.isSome = true) :
    h'.state.current.isSome = true := by
  refine (run_invariant
    (fun h => Exclusive h.state h.builds ∧ h.state.current.isSome = true)
    ?_ ⟨he, hcur⟩ hrun).2
  intro h a h' hinv hs
  obtain ⟨s, hs'⟩ := Option.isSome_iff_exists.mp hinv.2
  obtain ⟨s', hcur', -⟩ := step_current hinv.1 hs hs'
  exact ⟨step_exclusive hinv.1 hs, by simp [hcur']⟩

/-- A failed build over a served index puts exactly that index back. -/
theorem publish_failed_restores {h h' : Handle} {build : ℕ} {message : String}
    (he : Exclusive h.state h.builds)
    (hs : step h (.publish build (.failed message)) = some h') {s : ManifestSearch}
    (hcur : h.state.current = some s) : h'.state = .ready s := by
  simp only [step, publish, Option.map_eq_some_iff] at hs
  obtain ⟨b, hb, rfl⟩ := hs
  obtain ⟨hone, hnone⟩ := he.getElem hb
  rw [hone] at he
  rw [hnone]
  obtain ⟨state, config, reloads, builds, stage, claims⟩ := h
  cases he <;> simp only [ManifestSearchState.current, reduceCtorEq, Option.some.injEq] at hcur
  all_goals simp [publishBuild, hcur]

/-- Loading and Refreshing mean exactly one build in flight; once an index was
ready it is served for good, and a failed build restores it. -/
theorem handle_availability (config : DbtNovaConfig) (as : List Action) (h : Handle)
    (hrun : run step (spawn config) as = some h) :
    (h.state.busy = true ↔ h.builds.length = 1) ∧ h.builds.length ≤ 1 ∧
      (∀ s, h.state = .ready s → ∀ bs h', run step h bs = some h' → ∃ s', h'.get = .ok s') ∧
      (∀ s a h', h.get = .ok s → step h a = some h' → a.loads = false → h'.get = .ok s) ∧
      (∀ s build message h', h.get = .ok s →
        step h (.publish build (.failed message)) = some h' → h'.state = .ready s) := by
  have he := run_exclusive hrun
  refine ⟨he.busy_iff.1, he.busy_iff.2, ?_, ?_, ?_⟩
  · intro s hs bs h' hbs
    have hcur := run_current he hbs (by simp [hs, ManifestSearchState.current])
    obtain ⟨s', hs'⟩ := Option.isSome_iff_exists.mp hcur
    exact ⟨s', get_eq_ok.mpr hs'⟩
  · intro s a h' hget hstep hloads
    obtain ⟨s', hcur, hsame⟩ := step_current he hstep (get_eq_ok.mp hget)
    rw [get_eq_ok, hcur, hsame hloads]
  · intro s build message h' hget hstep
    exact publish_failed_restores he hstep (get_eq_ok.mp hget)

/-- A machine without a bootstrap contract. -/
def plainWorld : World := ⟨fun _ => none, id, .ok⟩

def sourceA : DbtNovaConfig := { manifestUri := "file:///a/manifest.json" }

/-- One refresh round that finds a changed manifest and publishes it. -/
def refreshRound : List Action :=
  [.publish 0 (.loaded "a1"), .refreshArm, .refreshSnapshot, .refreshCapture,
    .refreshResolve (some "a2"), .refreshClaim, .publish 0 (.loaded "a2")]

/-- With a refresh in flight: one build, and its failure restores the index. -/
theorem refreshRound_available :
    ∃ h, run step (spawn sourceA) (refreshRound.take 6) = some h ∧ h.builds.length = 1 ∧
      h.state.busy = true ∧
      ∀ h', step h (.publish 0 (.failed "gone")) = some h' →
        h'.state = .ready ⟨sourceA, "a1"⟩ := by
  refine ⟨⟨.refreshing ⟨sourceA, "a1"⟩, sourceA, [], [.refresh sourceA], .idle, []⟩, rfl, rfl,
    ?_, ?_⟩
  · exact (handle_availability sourceA (refreshRound.take 6) _ rfl).1.mpr rfl
  · intro h' hstep
    exact (handle_availability sourceA (refreshRound.take 6) _ rfl).2.2.2.2 _ 0 "gone" h' rfl hstep

/-! ## Whether the served index belongs to the stored configuration -/

/-- The refresh loop claims the state only while the configuration it has
snapshotted is still the stored one. -/
def FreshSnapshot (h : Handle) : Action → Prop
  | .refreshClaim => ∀ config, h.stage = .changed config → h.state.free = true →
      config = h.config
  | _ => True

/-- The configuration a build would publish without changing the stored one. -/
def Build.source : Build → Option DbtNovaConfig
  | .initial config | .refresh config => some config
  | .reload _ _ _ => none

/-- Served and pending indexes come from the stored configuration. -/
structure Coherent (h : Handle) : Prop where
  exclusive : Exclusive h.state h.builds
  served : ∀ s, h.state.current = some s → s.builtFrom = h.config
  pending : ∀ b ∈ h.builds, ∀ config, b.source = some config → config = h.config

theorem spawn_coherent (config : DbtNovaConfig) : Coherent (spawn config) where
  exclusive := spawn_exclusive config
  served := by simp [spawn, ManifestSearchState.current]
  pending := by simp [spawn, Build.source]

theorem current_claimed (state : ManifestSearchState) :
    state.claimed.current = state.current := by
  cases state <;> rfl

theorem publishBuild_coherent {h : Handle} {b : Build} (hone : h.builds = [b])
    (hc : Coherent h) (outcome : BuildOutcome) :
    Coherent (publishBuild { h with builds := [] } b outcome) := by
  obtain ⟨he, hserved, hpending⟩ := hc
  have he' := publishBuild_exclusive (hone ▸ he) outcome
  rw [hone] at he
  simp only [hone, List.mem_singleton, forall_eq] at hpending
  obtain ⟨state, config, reloads, builds, stage, claims⟩ := h
  refine ⟨he', ?_, ?_⟩
  · intro s
    cases he <;> cases outcome <;>
      simp_all [publishBuild, ManifestSearchState.current, Build.source, eq_comm]
  · have hbuilds : (publishBuild ⟨state, config, reloads, [], stage, claims⟩ b outcome).builds =
        [] := by
      cases he <;> cases outcome <;> rfl
    simp [hbuilds]

theorem step_coherent {h h' : Handle} {a : Action} (hfresh : FreshSnapshot h a)
    (hc : Coherent h) (hs : step h a = some h') : Coherent h' := by
  have he' := step_exclusive hc.exclusive hs
  cases step_effect hs with
  | quiet hcalls hstate hconfig hbuilds hclaims =>
      refine ⟨he', ?_, ?_⟩
      · rw [hstate, hconfig]
        exact hc.served
      · rw [hbuilds, hconfig]
        exact hc.pending
  | reloadClaimed call edit previous next hcall hcalls hfree hstate hconfig hbuilds hclaims =>
      refine ⟨he', ?_, ?_⟩
      · rw [hstate, hconfig, current_claimed]
        exact hc.served
      · rw [hbuilds, hconfig, hc.exclusive.builds_of_free hfree]
        simp [Build.source]
  | refreshClaimed config hstage hcalls hfree hstate hconfig hbuilds hclaims =>
      refine ⟨he', ?_, ?_⟩
      · rw [hstate, hconfig, current_claimed]
        exact hc.served
      · rw [hbuilds, hconfig, hc.exclusive.builds_of_free hfree]
        simpa [Build.source] using hfresh config hstage hfree
  | published build b outcome hbuild heq =>
      obtain ⟨hone, hnone⟩ := hc.exclusive.getElem hbuild
      rw [heq, hnone]
      exact publishBuild_coherent hone hc outcome

/-- In every run whose refresh claims are fresh, an idle handle serves an index
built from the stored configuration. -/
theorem served_from_stored_config (config : DbtNovaConfig) (as : List Action) (h : Handle)
    (hfresh : Guarded step FreshSnapshot (spawn config) as)
    (hrun : run step (spawn config) as = some h) (s : ManifestSearch)
    (hready : h.state = .ready s) (_hidle : h.builds = []) : s.builtFrom = h.config := by
  have hc := hfresh.invariant Coherent (fun _ _ _ => step_coherent) (spawn_coherent config) hrun
  exact hc.served s (by simp [hready, ManifestSearchState.current])

theorem refreshRound_fresh : Guarded step FreshSnapshot (spawn sourceA) refreshRound := by
  refine guarded_cons trivial rfl (guarded_cons trivial rfl (guarded_cons trivial rfl
    (guarded_cons trivial rfl (guarded_cons trivial rfl (guarded_cons ?_ rfl
      (guarded_cons trivial rfl trivial))))))
  intro config hstage _
  cases hstage
  rfl

theorem refreshRound_served :
    (⟨sourceA, "a2"⟩ : ManifestSearch).builtFrom = sourceA :=
  served_from_stored_config sourceA refreshRound
    ⟨.ready ⟨sourceA, "a2"⟩, sourceA, [], [], .idle, []⟩ refreshRound_fresh rfl _ rfl rfl

/-- A reload of source B is accepted and published while a refresh of source A
is under way; the refresh then replaces it. -/
theorem refresh_replaces_reload :
    ∃ h s, run step (spawn sourceA)
        [.publish 0 (.loaded "a1"), .refreshArm, .refreshSnapshot, .refreshCapture,
          .reloadRead ⟨{ manifestUri := some "file:///b/manifest.json" }, plainWorld⟩,
          .reloadPrepare 0, .reloadClaim 0, .publish 0 (.loaded "b1"),
          .refreshResolve (some "a2"), .refreshClaim, .publish 0 (.loaded "a2")] = some h ∧
      h.state = .ready s ∧ h.builds = [] ∧
      s.builtFrom.manifestUri = "file:///a/manifest.json" ∧
      h.config.manifestUri = "file:///b/manifest.json" ∧ s.builtFrom ≠ h.config := by
  refine ⟨_, _, rfl, rfl, rfl, rfl, by decide, by decide⟩

/-! ## Whether reload settings accumulate -/

def applyEdit (config : DbtNovaConfig) (edit : Edit) : DbtNovaConfig :=
  match reloadConfig edit.world edit.params config with
  | .ok next => next
  | .error _ => config

/-- The edits of the claims whose build succeeded, in claim order. -/
def succeededEdits (claims : List Claim) : List Edit :=
  (claims.filter Claim.succeeded).map Claim.edit

def applyEdits (config : DbtNovaConfig) (claims : List Claim) : DbtNovaConfig :=
  (succeededEdits claims).foldl applyEdit config

/-- A reload claims the state only while the configuration it read is still the
stored one. -/
def FreshRead (h : Handle) : Action → Prop
  | .reloadClaim call => ∀ edit previous next,
      h.reloads[call]? = some (.prepared edit previous next) → h.state.free = true →
        previous = h.config
  | _ => True

theorem applyEdits_snoc_failed (config : DbtNovaConfig) (claims : List Claim) (edit : Edit) :
    applyEdits config (claims ++ [⟨edit, false⟩]) = applyEdits config claims := by
  simp [applyEdits, succeededEdits]

theorem applyEdits_snoc_succeeded (config : DbtNovaConfig) (claims : List Claim)
    (edit : Edit) :
    applyEdits config (claims ++ [⟨edit, true⟩]) =
      applyEdit (applyEdits config claims) edit := by
  simp [applyEdits, succeededEdits]

theorem markSucceeded_snoc (claims : List Claim) (edit : Edit) :
    markSucceeded (claims ++ [⟨edit, false⟩]) claims.length = claims ++ [⟨edit, true⟩] := by
  induction claims with
  | nil => rfl
  | cons c claims ih => simpa [markSucceeded] using ih

/-- Prepared calls carry the result of their own edit. -/
def PreparedOk (h : Handle) : Prop :=
  ∀ edit previous next, ReloadCall.prepared edit previous next ∈ h.reloads →
    reloadConfig edit.world edit.params previous = .ok next

theorem CallsFrom.preparedOk {h h' : Handle} (hcalls : CallsFrom h h') (hp : PreparedOk h) :
    PreparedOk h' := by
  intro edit previous next hmem
  rcases hcalls edit previous next hmem with hold | hnew
  · exact hp edit previous next hold
  · exact hnew

@[simp] theorem publishBuild_reloads (h : Handle) (b : Build) (outcome : BuildOutcome) :
    (publishBuild h b outcome).reloads = h.reloads := by
  unfold publishBuild
  split
  all_goals first
    | rfl
    | (split <;> rfl)

/-- The stored configuration is the accumulated one, and a reload in flight is
about to apply the last claim to it. -/
structure Accumulated (config : DbtNovaConfig) (h : Handle) : Prop where
  exclusive : Exclusive h.state h.builds
  prepared : PreparedOk h
  stored : h.config = applyEdits config h.claims
  pending : ∀ next active ticket, .reload next active ticket ∈ h.builds →
    ∃ claims edit, h.claims = claims ++ [⟨edit, false⟩] ∧ ticket = claims.length ∧
      reloadConfig edit.world edit.params h.config = .ok next

theorem spawn_accumulated (config : DbtNovaConfig) : Accumulated config (spawn config) where
  exclusive := spawn_exclusive config
  prepared := by simp [PreparedOk, spawn]
  stored := rfl
  pending := by simp [spawn]

theorem publishBuild_builds (h : Handle) (b : Build) (outcome : BuildOutcome) :
    (publishBuild h b outcome).builds = h.builds := by
  unfold publishBuild
  split
  all_goals first
    | rfl
    | (split <;> rfl)

/-- Only a loaded reload touches the configuration and the history. -/
theorem publishBuild_stored (h : Handle) (b : Build) (outcome : BuildOutcome)
    (hother : ∀ next active ticket hash, b = .reload next active ticket →
      outcome ≠ .loaded hash) :
    (publishBuild h b outcome).config = h.config ∧
      (publishBuild h b outcome).claims = h.claims := by
  unfold publishBuild
  split
  case h_3 => exact absurd rfl (hother _ _ _ _ rfl)
  all_goals first
    | exact ⟨rfl, rfl⟩
    | (split <;> exact ⟨rfl, rfl⟩)

theorem publishBuild_accumulated {config : DbtNovaConfig} {h : Handle} {b : Build}
    (hone : h.builds = [b]) (hacc : Accumulated config h) (outcome : BuildOutcome) :
    Accumulated config (publishBuild { h with builds := [] } b outcome) := by
  refine ⟨publishBuild_exclusive (hone ▸ hacc.exclusive) outcome, ?_, ?_, ?_⟩
  · intro edit previous next hmem
    exact hacc.prepared edit previous next (by simpa using hmem)
  · by_cases hload : ∃ next active ticket hash,
        b = .reload next active ticket ∧ outcome = .loaded hash
    · obtain ⟨next, active, ticket, hash, rfl, rfl⟩ := hload
      obtain ⟨claims, edit, hclaims, rfl, hnext⟩ :=
        hacc.pending next active ticket (by simp [hone])
      have hstored := hacc.stored
      rw [hclaims, applyEdits_snoc_failed] at hstored
      simp only [publishBuild, hclaims, markSucceeded_snoc, applyEdits_snoc_succeeded]
      rw [← hstored, applyEdit, hnext]
    · have hsame := publishBuild_stored { h with builds := [] } b outcome
        (fun next active ticket hash hb ho => hload ⟨next, active, ticket, hash, hb, ho⟩)
      rw [hsame.1, hsame.2]
      exact hacc.stored
  · simp [publishBuild_builds]

theorem step_accumulated {config : DbtNovaConfig} {h h' : Handle} {a : Action}
    (hfresh : FreshRead h a) (hacc : Accumulated config h) (hs : step h a = some h') :
    Accumulated config h' := by
  have he' := step_exclusive hacc.exclusive hs
  cases step_effect hs with
  | quiet hcalls hstate hconfig hbuilds hclaims =>
      refine ⟨he', hcalls.preparedOk hacc.prepared, ?_, ?_⟩
      · rw [hconfig, hclaims]
        exact hacc.stored
      · rw [hbuilds, hclaims, hconfig]
        exact hacc.pending
  | reloadClaimed call edit previous next hcall hcalls hfree hstate hconfig hbuilds hclaims =>
      refine ⟨he', hcalls.preparedOk hacc.prepared, ?_, ?_⟩
      · rw [hconfig, hclaims, applyEdits_snoc_failed]
        exact hacc.stored
      · -- The claim is fresh, so the prepared result is the edit of the stored config.
        have hprev := hfresh edit previous next hcall hfree
        have hnext := hacc.prepared edit previous next (List.mem_of_getElem? hcall)
        rw [hprev] at hnext
        rw [hbuilds, hacc.exclusive.builds_of_free hfree, hclaims, hconfig]
        intro n active ticket hmem
        simp only [List.nil_append, List.mem_singleton, Build.reload.injEq] at hmem
        obtain ⟨rfl, -, rfl⟩ := hmem
        exact ⟨h.claims, edit, rfl, rfl, hnext⟩
  | refreshClaimed config' hstage hcalls hfree hstate hconfig hbuilds hclaims =>
      refine ⟨he', hcalls.preparedOk hacc.prepared, ?_, ?_⟩
      · rw [hconfig, hclaims]
        exact hacc.stored
      · rw [hbuilds, hacc.exclusive.builds_of_free hfree]
        simp
  | published build b outcome hbuild heq =>
      obtain ⟨hone, hnone⟩ := hacc.exclusive.getElem hbuild
      rw [heq, hnone]
      exact publishBuild_accumulated hone hacc outcome

/-- In every run whose reload claims are fresh, the configuration stored when no
build is in flight is the one the successful reloads accumulate. -/
theorem reload_settings_accumulate (config : DbtNovaConfig) (as : List Action) (h : Handle)
    (hfresh : Guarded step FreshRead (spawn config) as)
    (hrun : run step (spawn config) as = some h) (_hidle : h.builds = []) :
    h.config = applyEdits config h.claims :=
  (hfresh.invariant (Accumulated config) (fun _ _ _ => step_accumulated)
    (spawn_accumulated config) hrun).stored

def setRefresh : Edit := ⟨{ refreshSecs := some 60 }, plainWorld⟩
def setInstance : Edit := ⟨{ storageInstanceId := some "prod" }, plainWorld⟩

theorem reload_refresh_accumulates :
    ({ sourceA with manifestRefreshSecs := 60 } : DbtNovaConfig) =
      applyEdits sourceA [⟨setRefresh, true⟩] := by
  refine reload_settings_accumulate sourceA
    [.publish 0 (.loaded "a1"), .reloadRead setRefresh, .reloadPrepare 0, .reloadClaim 0,
      .publish 0 (.loaded "a1")]
    ⟨.ready ⟨{ sourceA with manifestRefreshSecs := 60 }, "a1"⟩,
      { sourceA with manifestRefreshSecs := 60 }, [], [], .idle, [⟨setRefresh, true⟩]⟩
    ?_ rfl rfl
  refine guarded_cons trivial rfl (guarded_cons trivial rfl (guarded_cons trivial rfl
    (guarded_cons ?_ rfl (guarded_cons trivial rfl trivial))))
  intro edit previous next hcall _
  cases hcall
  rfl

/-- Two overlapping reloads: the second one publishes what it read before the
first one was published. -/
theorem overlapping_reload_lost :
    ∃ h, run step (spawn sourceA)
        [.publish 0 (.loaded "a1"), .reloadRead setRefresh, .reloadRead setInstance,
          .reloadPrepare 0, .reloadPrepare 1, .reloadClaim 0, .publish 0 (.loaded "a1"),
          .reloadClaim 0, .publish 0 (.loaded "a1")] = some h ∧
      h.builds = [] ∧ succeededEdits h.claims = [setRefresh, setInstance] ∧
      h.config.manifestRefreshSecs = 300 ∧
      (applyEdits sourceA h.claims).manifestRefreshSecs = 60 ∧
      h.config ≠ applyEdits sourceA h.claims := by
  refine ⟨_, rfl, rfl, rfl, rfl, rfl, by decide⟩

end DbtNova.ManifestHandle
