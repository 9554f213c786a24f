import DbtNova.Error
import DbtNova.TransitionSystem

/-!
# The DuckDB connection pool

An execution waits for a semaphore permit, and its blocking closure then takes an
idle connection or opens a new one, runs, returns the connection and ends, which
drops the permit. Every access to the pool's mutex or semaphore is one step, and
between steps any other execution may run. The runtime unwinds a panic of the
closure: the permit and the connection are dropped where the closure stands. The
future that awaits a closure may be dropped at any time; a closure that has
started, or is queued, is not stopped by that.

`created` never passes `maxSize`, so its saturating arithmetic is that of `ℕ`.
-/
namespace DbtNova.DuckDbPool
open TransitionSystem

abbrev Connection := ℕ

structure DuckDbPoolState where
  idle : List Connection
  created : ℕ
  deriving DecidableEq, Repr

def DuckDbPoolState.new : DuckDbPoolState := ⟨[], 0⟩

def duckdbRuntimeError (message : String) : DbtNovaError :=
  .serverError ("DuckDB error: " ++ message)

/-- The part of `checkout_connection` under the lock: `none` stands for a place
reserved for a connection that has still to be opened. -/
def checkoutConnection (maxSize : ℕ) (state : DuckDbPoolState) :
    Result (Option Connection × DuckDbPoolState) :=
  match state.idle.getLast? with
  | some connection => .ok (some connection, { state with idle := state.idle.dropLast })
  | none =>
      if maxSize ≤ state.created then
        .error (duckdbRuntimeError "DuckDB connection pool exhausted unexpectedly")
      else
        .ok (none, { state with created := state.created + 1 })

/-- The place is given back when `open_connection` fails. -/
def DuckDbPoolState.openFailed (state : DuckDbPoolState) : DuckDbPoolState :=
  { state with created := state.created - 1 }

def returnConnection (maxSize : ℕ) (state : DuckDbPoolState) (connection : Connection) :
    DuckDbPoolState :=
  if state.idle.length < maxSize then
    { state with idle := state.idle ++ [connection] }
  else
    { state with created := state.created - 1 }

inductive Outcome where
  | returned
  | failed (error : DbtNovaError)
  | joinFailure
  deriving DecidableEq, Repr

/-- Where one execution stands. From `queued` to `closing` its closure owns the
permit. -/
inductive Phase where
  | waiting
  | queued
  | opening
  | running (connection : Connection)
  | closing (outcome : Outcome)
  | ended (outcome : Outcome)
  | cancelled
  deriving DecidableEq, Repr

def Phase.holdsPermit : Phase → Bool
  | .queued | .opening | .running _ | .closing _ => true
  | .waiting | .ended _ | .cancelled => false

/-- The closure owns a connection, or the place of one it is opening. -/
def Phase.checkedOut : Phase → Bool
  | .opening | .running _ => true
  | .waiting | .queued | .closing _ | .ended _ | .cancelled => false

structure DuckDbConnectionPool where
  maxSize : ℕ
  slots : ℕ
  state : DuckDbPoolState
  tasks : List Phase
  deriving DecidableEq, Repr

def DuckDbConnectionPool.new (maxSize : ℕ) : DuckDbConnectionPool :=
  ⟨max maxSize 1, max maxSize 1, .new, []⟩

def DuckDbConnectionPool.held (pool : DuckDbConnectionPool) : ℕ :=
  pool.tasks.countP Phase.holdsPermit

def DuckDbConnectionPool.checkedOut (pool : DuckDbConnectionPool) : ℕ :=
  pool.tasks.countP Phase.checkedOut

def DuckDbConnectionPool.setPhase (pool : DuckDbConnectionPool) (task : ℕ) (phase : Phase) :
    DuckDbConnectionPool :=
  { pool with tasks := pool.tasks.set task phase }

inductive Action where
  | request
  | acquireSlot (task : ℕ)
  | checkout (task : ℕ)
  | opened (task : ℕ) (connection : Connection)
  | openFailed (task : ℕ) (error : DbtNovaError)
  | finish (task : ℕ) (outcome : Outcome)
  | release (task : ℕ)
  | panic (task : ℕ)
  | cancel (task : ℕ)
  deriving DecidableEq, Repr

/-- One access to the pool; `none` where the execution does not stand there. -/
def step (pool : DuckDbConnectionPool) : Action → Option DuckDbConnectionPool
  | .request => some { pool with tasks := pool.tasks ++ [.waiting] }
  | .acquireSlot task =>
      if pool.tasks[task]? = some .waiting ∧ 0 < pool.slots then
        some { pool.setPhase task .queued with slots := pool.slots - 1 }
      else none
  | .checkout task =>
      if pool.tasks[task]? = some .queued then
        match checkoutConnection pool.maxSize pool.state with
        | .ok (some connection, state) =>
            some { pool.setPhase task (.running connection) with state }
        | .ok (none, state) => some { pool.setPhase task .opening with state }
        | .error error => some (pool.setPhase task (.closing (.failed error)))
      else none
  | .opened task connection =>
      if pool.tasks[task]? = some .opening then
        some (pool.setPhase task (.running connection))
      else none
  | .openFailed task error =>
      if pool.tasks[task]? = some .opening then
        some { pool.setPhase task (.closing (.failed error)) with state := pool.state.openFailed }
      else none
  | .finish task outcome =>
      match pool.tasks[task]? with
      | some (.running connection) =>
          some { pool.setPhase task (.closing outcome) with
            state := returnConnection pool.maxSize pool.state connection }
      | _ => none
  | .release task =>
      match pool.tasks[task]? with
      | some (.closing outcome) =>
          some { pool.setPhase task (.ended outcome) with slots := pool.slots + 1 }
      | _ => none
  | .panic task =>
      match pool.tasks[task]? with
      | some phase =>
          if phase.holdsPermit then
            some { pool.setPhase task (.ended .joinFailure) with slots := pool.slots + 1 }
          else none
      | none => none
  | .cancel task =>
      match pool.tasks[task]? with
      | some .waiting => some (pool.setPhase task .cancelled)
      | some _ => some pool
      | none => none

section Counts
variable {pool : DuckDbConnectionPool} {task : ℕ} {old : Phase}

theorem held_setPhase (h : pool.tasks[task]? = some old) (new : Phase) :
    (pool.setPhase task new).held + (if old.holdsPermit then 1 else 0) =
      pool.held + (if new.holdsPermit then 1 else 0) :=
  countP_set_add h

theorem checkedOut_setPhase (h : pool.tasks[task]? = some old) (new : Phase) :
    (pool.setPhase task new).checkedOut + (if old.checkedOut then 1 else 0) =
      pool.checkedOut + (if new.checkedOut then 1 else 0) :=
  countP_set_add h

theorem checkedOut_le_held : pool.checkedOut ≤ pool.held := by
  apply List.countP_mono_left
  intro phase _ hphase
  cases phase <;> first | rfl | exact hphase

/-- A queued closure holds a permit and no connection. -/
theorem checkedOut_lt_held (h : pool.tasks[task]? = some .queued) :
    pool.checkedOut < pool.held := by
  have hheld := held_setPhase h .opening
  have hout := checkedOut_setPhase h .opening
  have hle : (pool.setPhase task .opening).checkedOut ≤ (pool.setPhase task .opening).held :=
    checkedOut_le_held
  simp only [Phase.holdsPermit, Phase.checkedOut, if_true, Bool.false_eq_true, if_false]
    at hheld hout
  omega

end Counts

/-- What every run keeps: permits are conserved, and the counter covers the
connections that exist. -/
structure Sound (pool : DuckDbConnectionPool) : Prop where
  permits : pool.slots + pool.held = pool.maxSize
  covered : pool.state.idle.length + pool.checkedOut ≤ pool.state.created
  bounded : pool.state.created ≤ pool.maxSize

/-- Places counted in `created` whose connection is gone. -/
def DuckDbConnectionPool.lost (pool : DuckDbConnectionPool) : ℕ :=
  pool.state.created - (pool.state.idle.length + pool.checkedOut)

/-- The closure unwinds while it opens or uses a connection. -/
def panicsWithConnection (pool : DuckDbConnectionPool) : Action → Bool
  | .panic task => (pool.tasks[task]?).any Phase.checkedOut
  | _ => false

/-- A step keeps the account, and loses a place exactly when a closure panics
with its connection. -/
def Balanced (pool next : DuckDbConnectionPool) (lost : Bool) : Prop :=
  Sound next ∧ next.lost = pool.lost + (if lost then 1 else 0)

/-- One closure moves from `old` to `new`: what it must do to the permits, the
counter and the idle list. -/
theorem balanced_move {pool : DuckDbConnectionPool} {task slots : ℕ} {old new : Phase}
    {state : DuckDbPoolState} {lost : Bool} (hs : Sound pool) (h : pool.tasks[task]? = some old)
    (hslots : slots + (if new.holdsPermit then 1 else 0) =
      pool.slots + (if old.holdsPermit then 1 else 0))
    (hcreated : state.created + pool.state.idle.length + (if old.checkedOut then 1 else 0) =
      pool.state.created + state.idle.length + (if new.checkedOut then 1 else 0) +
        (if lost then 1 else 0))
    (hbounded : state.created ≤ pool.maxSize) :
    Balanced pool { pool.setPhase task new with slots, state } lost := by
  have hheld := held_setPhase h new
  have hout := checkedOut_setPhase h new
  have hpermits := hs.permits
  have hcovered := hs.covered
  have hcovered' : state.idle.length + (pool.setPhase task new).checkedOut ≤ state.created := by
    omega
  refine ⟨⟨?_, hcovered', hbounded⟩, ?_⟩
  · change slots + (pool.setPhase task new).held = pool.maxSize
    omega
  · change state.created - (state.idle.length + (pool.setPhase task new).checkedOut) =
      pool.state.created - (pool.state.idle.length + pool.checkedOut) + _
    omega

theorem checkout_balanced {pool : DuckDbConnectionPool} {task : ℕ} (hs : Sound pool)
    (h : pool.tasks[task]? = some .queued) {next : DuckDbConnectionPool}
    (hstep : step pool (.checkout task) = some next) : Balanced pool next false := by
  simp only [step, h, if_true] at hstep
  unfold checkoutConnection at hstep
  have hbounded := hs.bounded
  cases hidle : pool.state.idle.getLast? with
  | some connection =>
      rw [hidle] at hstep
      simp only [Option.some.injEq] at hstep
      subst next
      have hpos : pool.state.idle ≠ [] := by
        intro hnil
        rw [hnil] at hidle
        exact absurd hidle (by simp)
      have hlen := List.length_pos_iff.mpr hpos
      apply balanced_move hs h
      · rfl
      · simp only [Phase.checkedOut, List.length_dropLast, if_true, Bool.false_eq_true, if_false]
        omega
      · exact hbounded
  | none =>
      rw [hidle] at hstep
      by_cases hfull : pool.maxSize ≤ pool.state.created
      · simp only [hfull, if_true, Option.some.injEq] at hstep
        subst next
        exact balanced_move hs h rfl rfl hbounded
      · simp only [hfull, if_false, Option.some.injEq] at hstep
        subst next
        apply balanced_move hs h
        · rfl
        · simp only [Phase.checkedOut, if_true, Bool.false_eq_true, if_false]
          omega
        · change pool.state.created + 1 ≤ pool.maxSize
          omega

theorem openFailed_balanced {pool : DuckDbConnectionPool} {task : ℕ} (hs : Sound pool)
    (h : pool.tasks[task]? = some .opening) (error : DbtNovaError) :
    Balanced pool { pool.setPhase task (.closing (.failed error)) with
      state := pool.state.openFailed } false := by
  have hout := checkedOut_setPhase h (.closing (.failed error))
  have hcovered := hs.covered
  have hbounded := hs.bounded
  simp only [Phase.checkedOut, if_true, Bool.false_eq_true, if_false] at hout
  apply balanced_move hs h
  · rfl
  · simp only [DuckDbPoolState.openFailed, Phase.checkedOut, if_true, Bool.false_eq_true, if_false]
    omega
  · change pool.state.created - 1 ≤ pool.maxSize
    omega

/-- The idle list has room for a connection that is checked out, so the branch
that gives up the place is not taken. -/
theorem finish_balanced {pool : DuckDbConnectionPool} {task : ℕ} {connection : Connection}
    (hs : Sound pool) (h : pool.tasks[task]? = some (.running connection)) (outcome : Outcome) :
    Balanced pool { pool.setPhase task (.closing outcome) with
      state := returnConnection pool.maxSize pool.state connection } false := by
  have hout := checkedOut_setPhase h (.closing outcome)
  have hcovered := hs.covered
  have hbounded := hs.bounded
  simp only [Phase.checkedOut, if_true, Bool.false_eq_true, if_false] at hout
  have hroom : pool.state.idle.length < pool.maxSize := by omega
  simp only [returnConnection, hroom, if_true]
  apply balanced_move hs h
  · rfl
  · simp only [Phase.checkedOut, List.length_append, List.length_singleton, if_true,
      Bool.false_eq_true, if_false]
    omega
  · exact hbounded

theorem panic_balanced {pool : DuckDbConnectionPool} {task : ℕ} {phase : Phase}
    (hs : Sound pool) (h : pool.tasks[task]? = some phase) (hheld : phase.holdsPermit = true) :
    Balanced pool { pool.setPhase task (.ended .joinFailure) with slots := pool.slots + 1 }
      phase.checkedOut := by
  apply balanced_move hs h
  · rw [hheld]
    rfl
  · rfl
  · exact hs.bounded

theorem request_balanced {pool : DuckDbConnectionPool} (hs : Sound pool) :
    Balanced pool { pool with tasks := pool.tasks ++ [.waiting] } false := by
  have hheld : (pool.tasks ++ [Phase.waiting]).countP Phase.holdsPermit = pool.held := by
    rw [List.countP_append]
    rfl
  have hout : (pool.tasks ++ [Phase.waiting]).countP Phase.checkedOut = pool.checkedOut := by
    rw [List.countP_append]
    rfl
  refine ⟨⟨?_, ?_, hs.bounded⟩, ?_⟩
  · exact (congrArg (pool.slots + ·) hheld).trans hs.permits
  · exact Nat.le_trans (Nat.le_of_eq (congrArg (pool.state.idle.length + ·) hout)) hs.covered
  · unfold DuckDbConnectionPool.lost
    rw [DuckDbConnectionPool.checkedOut, hout]
    rfl

theorem step_balanced {pool next : DuckDbConnectionPool} {a : Action} (hs : Sound pool)
    (hstep : step pool a = some next) : Balanced pool next (panicsWithConnection pool a) := by
  cases a with
  | request =>
      simp only [step, Option.some.injEq] at hstep
      subst next
      exact request_balanced hs
  | acquireSlot task =>
      simp only [step, Option.ite_none_right_eq_some, Option.some.injEq] at hstep
      obtain ⟨⟨h, hfree⟩, rfl⟩ := hstep
      apply balanced_move hs h
      · simp only [Phase.holdsPermit, if_true, Bool.false_eq_true, if_false]
        omega
      · rfl
      · exact hs.bounded
  | checkout task =>
      by_cases h : pool.tasks[task]? = some .queued
      · exact checkout_balanced hs h hstep
      · simp only [step, h, if_false, reduceCtorEq] at hstep
  | opened task connection =>
      simp only [step, Option.ite_none_right_eq_some, Option.some.injEq] at hstep
      obtain ⟨h, rfl⟩ := hstep
      exact balanced_move hs h rfl rfl hs.bounded
  | openFailed task error =>
      simp only [step, Option.ite_none_right_eq_some, Option.some.injEq] at hstep
      obtain ⟨h, rfl⟩ := hstep
      exact openFailed_balanced hs h error
  | finish task outcome =>
      simp only [step] at hstep
      split at hstep
      · next connection h =>
          simp only [Option.some.injEq] at hstep
          subst next
          exact finish_balanced hs h outcome
      · cases hstep
  | release task =>
      simp only [step] at hstep
      split at hstep
      · next outcome h =>
          simp only [Option.some.injEq] at hstep
          subst next
          exact balanced_move hs h rfl rfl hs.bounded
      · cases hstep
  | panic task =>
      simp only [step] at hstep
      split at hstep
      · next phase h =>
          simp only [Option.ite_none_right_eq_some, Option.some.injEq] at hstep
          obtain ⟨hheld, rfl⟩ := hstep
          simp only [panicsWithConnection, h, Option.any_some]
          exact panic_balanced hs h hheld
      · cases hstep
  | cancel task =>
      simp only [step] at hstep
      split at hstep
      · next h =>
          simp only [Option.some.injEq] at hstep
          subst next
          exact balanced_move hs h rfl rfl hs.bounded
      · simp only [Option.some.injEq] at hstep
        subst next
        exact ⟨hs, rfl⟩
      · cases hstep

theorem sound_new (maxSize : ℕ) : Sound (.new maxSize) :=
  ⟨rfl, Nat.le_refl _, Nat.zero_le _⟩

/-- Runs in which no closure panics while it opens or uses a connection. -/
abbrev KeepsConnections (pool : DuckDbConnectionPool) (as : List Action) : Prop :=
  Guarded step (fun pool a => panicsWithConnection pool a = false) pool as

/-- A run loses nothing exactly when none of its panics does. -/
theorem run_lost {pool last : DuckDbConnectionPool} {as : List Action} (hs : Sound pool)
    (hrun : run step pool as = some last) :
    Sound last ∧ (last.lost = pool.lost ↔ KeepsConnections pool as) ∧ pool.lost ≤ last.lost := by
  induction as generalizing pool with
  | nil =>
      obtain rfl := Option.some.inj hrun
      exact ⟨hs, ⟨fun _ => trivial, fun _ => rfl⟩, Nat.le_refl _⟩
  | cons a as ih =>
      obtain ⟨next, hstep, hnext⟩ := run_cons.mp hrun
      obtain ⟨hsound, hlost⟩ := step_balanced hs hstep
      obtain ⟨hlast, hiff, hle⟩ := ih hsound hnext
      refine ⟨hlast, ?_, by omega⟩
      cases hp : panicsWithConnection pool a with
      | true =>
          rw [hp, if_pos rfl] at hlost
          constructor
          · intro heq
            omega
          · intro hkeeps
            exact absurd hkeeps.1 (by simp [hp])
      | false =>
          have heq : next.lost = pool.lost := by simpa [hp] using hlost
          rw [← heq, hiff]
          constructor
          · intro hkeeps
            exact guarded_cons hp hstep hkeeps
          · intro hkeeps
            exact hkeeps.2 next hstep

/-- The contract of the pool: the counter is the connections that exist, permits
are neither lost nor made, and a closure that reaches `checkout_connection` with
its permit is not told that the pool is exhausted. -/
structure Conserved (pool : DuckDbConnectionPool) : Prop where
  created_eq : pool.state.created = pool.state.idle.length + pool.checkedOut
  created_le : pool.state.created ≤ pool.maxSize
  permits : pool.slots + pool.held = pool.maxSize
  obtains : ∀ task : ℕ, pool.tasks[task]? = some .queued →
    ∃ place, checkoutConnection pool.maxSize pool.state = .ok place

theorem checkoutConnection_ok {pool : DuckDbConnectionPool} {task : ℕ} (hs : Sound pool)
    (hlost : pool.lost = 0) (h : pool.tasks[task]? = some .queued) :
    ∃ place, checkoutConnection pool.maxSize pool.state = .ok place := by
  unfold checkoutConnection
  cases hidle : pool.state.idle.getLast? with
  | some connection => exact ⟨_, rfl⟩
  | none =>
      have hnil : pool.state.idle.length = 0 := by
        rw [List.getLast?_eq_none_iff.mp hidle]
        rfl
      have hlt := checkedOut_lt_held h
      have hpermits := hs.permits
      unfold DuckDbConnectionPool.lost at hlost
      have hroom : ¬ pool.maxSize ≤ pool.state.created := by omega
      simp only [hroom, if_false]
      exact ⟨_, rfl⟩

theorem conserved_iff {pool : DuckDbConnectionPool} (hs : Sound pool) :
    Conserved pool ↔ pool.lost = 0 := by
  constructor
  · intro hc
    have heq := hc.created_eq
    unfold DuckDbConnectionPool.lost
    omega
  · intro hlost
    have hcovered := hs.covered
    refine ⟨?_, hs.bounded, hs.permits, fun task => checkoutConnection_ok hs hlost⟩
    unfold DuckDbConnectionPool.lost at hlost
    omega

/-- Every state that a pool reaches is conserved exactly when, on the way there,
no closure panicked between the checkout and the return of its connection. -/
theorem pool_conserved_iff (maxSize : ℕ) {as : List Action} {pool : DuckDbConnectionPool}
    (hrun : run step (.new maxSize) as = some pool) :
    Conserved pool ↔ KeepsConnections (.new maxSize) as := by
  obtain ⟨hsound, hiff, _⟩ := run_lost (sound_new maxSize) hrun
  rw [conserved_iff hsound]
  exact hiff

/-- One execution fails to open, one is cancelled while it waits, and one runs on
after its future was dropped. -/
def quietRun : List Action :=
  [.request, .request, .request, .acquireSlot 0, .cancel 1, .checkout 0,
    .openFailed 0 (duckdbRuntimeError "locked"), .release 0, .acquireSlot 2, .checkout 2,
    .opened 2 7, .cancel 2, .finish 2 .returned, .release 2]

def quietRunEnd : DuckDbConnectionPool :=
  ⟨1, 1, ⟨[7], 1⟩,
    [.ended (.failed (duckdbRuntimeError "locked")), .cancelled, .ended .returned]⟩

theorem quietRun_conserved :
    run step (.new 1) quietRun = some quietRunEnd ∧ Conserved quietRunEnd := by
  have hrun : run step (.new 1) quietRun = some quietRunEnd := by decide
  refine ⟨hrun, (pool_conserved_iff 1 hrun).mpr ?_⟩
  exact guarded_of_forall (by simp [quietRun, panicsWithConnection]) _

/-- A query that panics, and then a second execution that gets the permit. -/
def panickedRun : List Action :=
  [.request, .acquireSlot 0, .checkout 0, .opened 0 7, .panic 0, .request, .acquireSlot 1]

/-- The second execution holds the only permit and finds the pool exhausted. -/
theorem panicked_pool_exhausted :
    ¬ ∀ (maxSize : ℕ) (as : List Action) (pool : DuckDbConnectionPool),
      run step (.new maxSize) as = some pool → Conserved pool := by
  intro h
  have hrun : run step (.new 1) panickedRun =
      some ⟨1, 0, ⟨[], 1⟩, [.ended .joinFailure, .queued]⟩ := by decide
  obtain ⟨place, hplace⟩ := (h 1 panickedRun _ hrun).obtains 1 rfl
  have hexhausted : checkoutConnection 1 ⟨[], 1⟩ =
    .error (duckdbRuntimeError "DuckDB connection pool exhausted unexpectedly") := rfl
  rw [hexhausted] at hplace
  cases hplace

end DbtNova.DuckDbPool
