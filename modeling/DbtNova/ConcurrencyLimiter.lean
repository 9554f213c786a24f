import DbtNova.Error
import DbtNova.TransitionSystem

/-!
# The concurrency limiter

A request first tries to take a slot. When there is none it tries to take a place in the
queue, waits with that place for a slot, and may time out or be dropped meanwhile. Each
access to one of the two semaphores is one step, and between steps any other request may run.
A slot that is given back may be taken by any waiting request or by a new one. The semaphores
are never closed.

The place in the queue is not given back when the wait is over: it is part of the permit, and
is given back after the slot when the permit is dropped.
-/
namespace DbtNova.ConcurrencyLimiter
open TransitionSystem

structure ConcurrencyLabels where
  timeoutPrefix : String
  queueFull : String
  limitExceeded : String
  semaphoreClosed : String

def searchConcurrencyLabels : ConcurrencyLabels where
  timeoutPrefix := "Search timed out while waiting for an execution slot after"
  queueFull := "Search queue is full; retry later"
  limitExceeded := "Search concurrency limit exceeded"
  semaphoreClosed := "Search concurrency semaphore closed"

def sqlConcurrencyLabels : ConcurrencyLabels where
  timeoutPrefix := "SQL execution timed out while waiting for an execution slot after"
  queueFull := "SQL execution queue is full; retry later"
  limitExceeded := "SQL concurrency limit exceeded"
  semaphoreClosed := "SQL concurrency semaphore closed"

structure Limiter where
  maxSlots : ℕ
  maxQueue : ℕ
  labels : ConcurrencyLabels
  positive : 0 < maxSlots

/-- No limiter without a slot: requests are then not limited. -/
def Limiter.new (maxConcurrent maxQueue : ℕ) (labels : ConcurrencyLabels) : Option Limiter :=
  if h : 0 < maxConcurrent then some ⟨maxConcurrent, maxQueue, labels, h⟩ else none

inductive Rejection where
  | queueFull
  | limitExceeded
  | timedOut
  deriving DecidableEq, Repr

/-- The error that a request gets; `timeout` is in milliseconds. -/
def Limiter.error (limiter : Limiter) (timeout : ℕ) : Rejection → DbtNovaError
  | .queueFull => .serverError limiter.labels.queueFull
  | .limitExceeded => .serverError limiter.labels.limitExceeded
  | .timedOut => .serverError s!"{limiter.labels.timeoutPrefix} {timeout}ms"

/-- Where a request stands. A permit that came through the queue keeps its place there. -/
inductive Phase where
  | arriving
  | slotsBusy
  | waiting
  | executing (queue : Bool)
  | releasing
  | failed (reason : Rejection)
  | finished
  deriving DecidableEq, Repr

namespace Phase

def isWaiting : Phase → Bool
  | .waiting => true
  | _ => false

def isExecuting : Phase → Bool
  | .executing _ => true
  | _ => false

/-- The request waits no more, and has its place in the queue still. -/
def carriesQueue : Phase → Bool
  | .executing queue => queue
  | .releasing => true
  | _ => false

def holdsQueue (phase : Phase) : Bool := phase.isWaiting || phase.carriesQueue

end Phase

/-- The permits that are left in the two semaphores, and the requests. -/
structure State where
  slots : ℕ
  queue : Option ℕ
  requests : List Phase
  deriving DecidableEq, Repr

def start (limiter : Limiter) (requests : ℕ) : State where
  slots := limiter.maxSlots
  queue := if 0 < limiter.maxQueue then some limiter.maxQueue else none
  requests := List.replicate requests .arriving

namespace State

def executing (s : State) : ℕ := s.requests.countP Phase.isExecuting

def waiting (s : State) : ℕ := s.requests.countP Phase.isWaiting

def carrying (s : State) : ℕ := s.requests.countP Phase.carriesQueue

def holdingQueue (s : State) : ℕ := s.requests.countP Phase.holdsQueue

def queuePermits (s : State) : ℕ := s.queue.getD 0

end State

structure Snapshot where
  enabled : Bool
  maxConcurrent : ℕ
  availableSlots : ℕ
  inFlight : ℕ
  saturated : Bool
  maxQueue : ℕ
  availableQueue : ℕ
  queued : ℕ
  queueSaturated : Bool
  deriving DecidableEq, Repr

def snapshot (limiter : Limiter) (s : State) : Snapshot :=
  let saturated := s.slots = 0
  { enabled := true
    maxConcurrent := limiter.maxSlots
    availableSlots := s.slots
    inFlight := limiter.maxSlots - s.slots
    saturated := saturated
    maxQueue := limiter.maxQueue
    availableQueue := s.queuePermits
    queued := limiter.maxQueue - s.queuePermits
    queueSaturated := decide (0 < limiter.maxQueue) && saturated && s.queuePermits = 0 }

/-! ## The steps -/

def tryAcquire (available : ℕ) : Option ℕ := if available = 0 then none else some (available - 1)

inductive Action where
  | trySlot (i : ℕ)
  | tryQueue (i : ℕ)
  | grant (i : ℕ)
  | timeout (i : ℕ)
  | cancel (i : ℕ)
  | dropSlot (i : ℕ)
  | dropQueue (i : ℕ)
  deriving DecidableEq, Repr

/-- A waiting request takes a slot. -/
def Action.isGrant : Action → Bool
  | .grant _ => true
  | _ => false

/-- A time-out needs a limit on the waiting time, which the caller may leave out. -/
def step (timeout : Option ℕ) (s : State) : Action → Option State
  | .trySlot i =>
      if s.requests[i]? = some .arriving then
        match tryAcquire s.slots with
        | some slots => some ⟨slots, s.queue, s.requests.set i (.executing false)⟩
        | none => some ⟨s.slots, s.queue, s.requests.set i .slotsBusy⟩
      else none
  | .tryQueue i =>
      if s.requests[i]? = some .slotsBusy then
        match s.queue with
        | none => some ⟨s.slots, s.queue, s.requests.set i (.failed .limitExceeded)⟩
        | some available =>
            match tryAcquire available with
            | some queue => some ⟨s.slots, some queue, s.requests.set i .waiting⟩
            | none => some ⟨s.slots, s.queue, s.requests.set i (.failed .queueFull)⟩
      else none
  | .grant i =>
      if s.requests[i]? = some .waiting then
        (tryAcquire s.slots).map fun slots =>
          ⟨slots, s.queue, s.requests.set i (.executing true)⟩
      else none
  | .timeout i =>
      if s.requests[i]? = some .waiting ∧ timeout.isSome then
        some ⟨s.slots, s.queue.map (· + 1), s.requests.set i (.failed .timedOut)⟩
      else none
  | .cancel i =>
      if s.requests[i]? = some .waiting then
        some ⟨s.slots, s.queue.map (· + 1), s.requests.set i .finished⟩
      else none
  | .dropSlot i =>
      match s.requests[i]? with
      | some (.executing queue) =>
          some ⟨s.slots + 1, s.queue, s.requests.set i (if queue then .releasing else .finished)⟩
      | _ => none
  | .dropQueue i =>
      if s.requests[i]? = some .releasing then
        some ⟨s.slots, s.queue.map (· + 1), s.requests.set i .finished⟩
      else none

/-- The step makes a request fail because the queue is full. -/
def RejectsFull (timeout : Option ℕ) (s : State) (action : Action) : Prop :=
  ∃ (i : ℕ) (t : State), step timeout s action = some t ∧ t.requests[i]? = some (Phase.failed .queueFull) ∧
    s.requests[i]? ≠ some (Phase.failed .queueFull)

/-! ## What a step does -/

/-- One request moves, and permits go back and forth between it and the semaphores. -/
structure Moves (s t : State) (action : Action) (i : ℕ) (before after : Phase) : Prop where
  here : s.requests[i]? = some before
  requests : t.requests = s.requests.set i after
  slots : t.slots + after.isExecuting.toNat = s.slots + before.isExecuting.toNat
  queueSome : t.queue.isSome = s.queue.isSome
  queue : s.queue.isSome → t.queuePermits + after.holdsQueue.toNat =
    s.queuePermits + before.holdsQueue.toNat
  noQueue : s.queue = none → after.holdsQueue → before.holdsQueue
  carries : before.carriesQueue = false → after.carriesQueue = action.isGrant
  rejects : after = .failed .queueFull → s.queuePermits = 0 ∧ s.queue.isSome

theorem tryAcquire_eq_some {available rest : ℕ} (h : tryAcquire available = some rest) :
    rest + 1 = available := by
  unfold tryAcquire at h
  split at h
  · contradiction
  · have := Option.some.inj h
    omega

theorem tryAcquire_eq_none {available : ℕ} (h : tryAcquire available = none) : available = 0 := by
  unfold tryAcquire at h
  split at h
  · assumption
  · contradiction

section Step
variable {timeout : Option ℕ} {s t : State} {action : Action}

theorem step_moves (h : step timeout s action = some t) :
    ∃ i before after, Moves s t action i before after := by
  cases action with
  | trySlot i =>
      rw [step] at h
      split at h
      · rename_i hhere
        split at h
        · rename_i slots hslots
          have hcount := tryAcquire_eq_some hslots
          cases h
          exact ⟨i, .arriving, .executing false, hhere, rfl, hcount, rfl, fun _ => rfl,
            fun _ h => h, fun _ => rfl, fun h => by contradiction⟩
        · cases h
          exact ⟨i, .arriving, .slotsBusy, hhere, rfl, rfl, rfl, fun _ => rfl, fun _ h => h,
            fun _ => rfl, fun h => by contradiction⟩
      · contradiction
  | tryQueue i =>
      rw [step] at h
      split at h
      · rename_i hhere
        split at h
        · cases h
          exact ⟨i, .slotsBusy, .failed .limitExceeded, hhere, rfl, rfl, rfl, fun _ => rfl,
            fun _ h => h, fun _ => rfl, fun h => by contradiction⟩
        · rename_i available hqueue
          split at h
          · rename_i queue hrest
            have hcount := tryAcquire_eq_some hrest
            cases h
            exact ⟨i, .slotsBusy, .waiting, hhere, rfl, rfl, by rw [hqueue]; rfl,
              fun _ => by simp only [State.queuePermits, hqueue]; exact hcount,
              fun hnone => by simp [hnone] at hqueue, fun _ => rfl, fun h => by contradiction⟩
          · rename_i hnone
            have hcount := tryAcquire_eq_none hnone
            cases h
            exact ⟨i, .slotsBusy, .failed .queueFull, hhere, rfl, rfl, rfl, fun _ => rfl,
              fun _ h => h, fun _ => rfl,
              fun _ => ⟨by simpa [State.queuePermits, hqueue] using hcount, by rw [hqueue]; rfl⟩⟩
      · contradiction
  | grant i =>
      rw [step] at h
      split at h
      · rename_i hhere
        obtain ⟨slots, hslots, ht⟩ := Option.map_eq_some_iff.mp h
        have hcount := tryAcquire_eq_some hslots
        subst ht
        exact ⟨i, .waiting, .executing true, hhere, rfl, hcount, rfl, fun _ => rfl, fun _ h => h,
          fun _ => rfl, fun h => by contradiction⟩
      · contradiction
  | timeout i =>
      rw [step] at h
      split at h
      · rename_i hhere
        cases h
        exact ⟨i, .waiting, .failed .timedOut, hhere.1, rfl, rfl, by simp, fun hsome => by
          obtain ⟨n, hn⟩ := Option.isSome_iff_exists.mp hsome
          simp [State.queuePermits, hn, Phase.holdsQueue, Phase.isWaiting, Phase.carriesQueue],
          fun _ h => by contradiction, fun _ => rfl, fun h => by contradiction⟩
      · contradiction
  | cancel i =>
      rw [step] at h
      split at h
      · rename_i hhere
        cases h
        exact ⟨i, .waiting, .finished, hhere, rfl, rfl, by simp, fun hsome => by
          obtain ⟨n, hn⟩ := Option.isSome_iff_exists.mp hsome
          simp [State.queuePermits, hn, Phase.holdsQueue, Phase.isWaiting, Phase.carriesQueue],
          fun _ h => by contradiction, fun _ => rfl, fun h => by contradiction⟩
      · contradiction
  | dropSlot i =>
      rw [step] at h
      split at h
      · rename_i queue hhere
        cases h
        cases queue with
        | true =>
            exact ⟨i, .executing true, .releasing, hhere, rfl, rfl, rfl, fun _ => rfl,
              fun _ h => h, fun h => by contradiction, fun h => by contradiction⟩
        | false =>
            exact ⟨i, .executing false, .finished, hhere, rfl, rfl, rfl, fun _ => rfl,
              fun _ h => h, fun _ => rfl, fun h => by contradiction⟩
      · contradiction
  | dropQueue i =>
      rw [step] at h
      split at h
      · rename_i hhere
        cases h
        exact ⟨i, .releasing, .finished, hhere, rfl, rfl, by simp, fun hsome => by
          obtain ⟨n, hn⟩ := Option.isSome_iff_exists.mp hsome
          simp [State.queuePermits, hn, Phase.holdsQueue, Phase.isWaiting, Phase.carriesQueue],
          fun _ h => by contradiction, fun _ => rfl, fun h => by contradiction⟩
      · contradiction

end Step

/-! ## The accounts -/

/-- Every permit is in its semaphore or with a request. -/
structure Accounted (limiter : Limiter) (s : State) : Prop where
  slots : s.slots + s.executing = limiter.maxSlots
  queue : s.queue.isSome → s.queuePermits + s.holdingQueue = limiter.maxQueue
  noQueue : s.queue = none → limiter.maxQueue = 0 ∧ s.holdingQueue = 0

section Accounts
variable {limiter : Limiter} {timeout : Option ℕ} {s t u : State} {action : Action}

theorem holdingQueue_eq (s : State) : s.holdingQueue = s.waiting + s.carrying := by
  unfold State.holdingQueue State.waiting State.carrying
  induction s.requests with
  | nil => rfl
  | cons phase phases ih =>
      simp only [List.countP_cons, ih]
      cases phase with
      | executing queue => cases queue <;> simp [Phase.holdsQueue, Phase.isWaiting,
          Phase.carriesQueue, Nat.add_assoc]
      | _ => simp [Phase.holdsQueue, Phase.isWaiting, Phase.carriesQueue] <;> omega

/-- A head count changes with the one request that moves. -/
theorem Moves.countP {i : ℕ} {before after : Phase} (h : Moves s t action i before after)
    (p : Phase → Bool) :
    t.requests.countP p + (p before).toNat = s.requests.countP p + (p after).toNat := by
  have hcount := countP_set_add (p := p) (b := after) h.here
  rw [← h.requests] at hcount
  cases hbefore : p before <;> cases hafter : p after <;> simp [hbefore, hafter] at hcount ⊢ <;>
    omega

theorem accounted_start (limiter : Limiter) (requests : ℕ) :
    Accounted limiter (start limiter requests) := by
  have hnone : ∀ p : Phase → Bool, p .arriving = false →
      (start limiter requests).requests.countP p = 0 := by
    intro p hp
    rw [List.countP_eq_zero]
    intro phase hphase
    rw [List.eq_of_mem_replicate hphase, hp]
    exact Bool.false_ne_true
  have hholding : (start limiter requests).holdingQueue = 0 := hnone _ rfl
  refine ⟨?_, ?_, ?_⟩
  · unfold State.executing
    rw [hnone _ rfl]
    rfl
  · rw [hholding]
    unfold start State.queuePermits
    by_cases hqueue : 0 < limiter.maxQueue
    · simp [hqueue]
    · simp [hqueue]
  · rw [hholding]
    unfold start
    by_cases hqueue : 0 < limiter.maxQueue
    · simp [hqueue]
    · simp [hqueue]
      omega

theorem accounted_step (h : Accounted limiter s) (hstep : step timeout s action = some t) :
    Accounted limiter t := by
  obtain ⟨i, before, after, hmoves⟩ := step_moves hstep
  have hexecuting := hmoves.countP Phase.isExecuting
  have hholding := hmoves.countP Phase.holdsQueue
  have hslots := hmoves.slots
  have hqueue := hmoves.queueSome
  refine ⟨?_, ?_, ?_⟩
  · have hbefore := h.slots
    unfold State.executing at hbefore ⊢
    omega
  · intro hsome
    have hpermits := hmoves.queue (hqueue ▸ hsome)
    have hbefore := h.queue (hqueue ▸ hsome)
    unfold State.holdingQueue at hbefore ⊢
    omega
  · intro hnone
    have hold : s.queue = none := by
      rw [hnone] at hqueue
      exact Option.isSome_eq_false_iff.mp hqueue.symm |> Option.isNone_iff_eq_none.mp
    obtain ⟨hmax, hzero⟩ := h.noQueue hold
    refine ⟨hmax, ?_⟩
    have hfree : before.holdsQueue = false := by
      cases hbefore : before.holdsQueue with
      | false => rfl
      | true =>
          have hpos : 0 < s.requests.countP Phase.holdsQueue :=
            List.countP_pos_iff.mpr ⟨before, List.mem_of_getElem? hmoves.here, hbefore⟩
          unfold State.holdingQueue at hzero
          omega
    have hafter : after.holdsQueue = false := by
      cases hafter : after.holdsQueue with
      | false => rfl
      | true => exact absurd (hmoves.noQueue hold hafter) (by simp [hfree])
    unfold State.holdingQueue at hzero ⊢
    simp only [hfree, hafter, Bool.toNat_false] at hholding
    omega

/-! ## What the snapshot counts -/

theorem queued_eq (h : Accounted limiter s) : (snapshot limiter s).queued = s.holdingQueue := by
  change limiter.maxQueue - s.queuePermits = s.holdingQueue
  cases hqueue : s.queue with
  | none =>
      obtain ⟨hmax, hzero⟩ := h.noQueue hqueue
      omega
  | some available =>
      have hsum := h.queue (by rw [hqueue]; rfl)
      omega

theorem queued_eq_waiting_iff (h : Accounted limiter s) :
    (snapshot limiter s).queued = s.waiting ↔ s.carrying = 0 := by
  rw [queued_eq h, holdingQueue_eq]
  omega

theorem executing_le (h : Accounted limiter s) : s.executing ≤ limiter.maxSlots := by
  have := h.slots
  omega

theorem waiting_le (h : Accounted limiter s) : s.waiting ≤ limiter.maxQueue := by
  have hsum := holdingQueue_eq s
  cases hqueue : s.queue with
  | none =>
      have := h.noQueue hqueue
      omega
  | some available =>
      have := h.queue (by rw [hqueue]; rfl)
      omega

/-- A request finds the queue full when the places are with waiting requests and with those
that wait no more. -/
theorem holdingQueue_of_rejectsFull (h : Accounted limiter s)
    (hrejects : RejectsFull timeout s action) : s.holdingQueue = limiter.maxQueue := by
  obtain ⟨i, t, hstep, hafter, hbefore⟩ := hrejects
  obtain ⟨j, before, after, hmoves⟩ := step_moves hstep
  have hhere := hmoves.here
  rw [hmoves.requests, List.getElem?_set] at hafter
  split at hafter
  · rename_i heq
    subst heq
    split at hafter
    · obtain ⟨hzero, hsome⟩ := hmoves.rejects (Option.some.inj hafter)
      have hsum := h.queue hsome
      omega
    · contradiction
  · contradiction

/-- Nobody carries a place in the queue after a step, when nobody did before it, unless the
step gives a slot to a waiting request. -/
theorem carrying_step (hcarrying : s.carrying = 0) (hstep : step timeout s action = some t) :
    t.carrying = 0 ↔ action.isGrant = false := by
  obtain ⟨i, before, after, hmoves⟩ := step_moves hstep
  have hcount := hmoves.countP Phase.carriesQueue
  unfold State.carrying at hcarrying ⊢
  have hfree : before.carriesQueue = false := by
    cases hbefore : before.carriesQueue with
    | false => rfl
    | true =>
        have hpos : 0 < s.requests.countP Phase.carriesQueue :=
          List.countP_pos_iff.mpr ⟨before, List.mem_of_getElem? hmoves.here, hbefore⟩
        omega
  have hafter := hmoves.carries hfree
  rw [hfree, hafter, hcarrying, Bool.toNat_false] at hcount
  cases hgrant : action.isGrant with
  | false => simpa [hgrant] using hcount
  | true =>
      rw [hgrant, Bool.toNat_true] at hcount
      refine iff_of_false ?_ (by decide)
      omega

end Accounts

/-- In every run at most `max_concurrent` requests execute, at most `max_queue` wait, and a
request finds the queue full only when its places are all taken, by waiting requests or by
those that wait no more. The snapshot counts the waiting requests, and the queue is full only
of them, exactly in the runs in which no waiting request gets a slot. -/
theorem limiter_accounts_iff (limiter : Limiter) (timeout : Option ℕ) (requests : ℕ)
    (actions : List Action) (u : State)
    (hrun : run (step timeout) (start limiter requests) actions = some u) :
    Always (step timeout) (fun s => s.executing ≤ limiter.maxSlots ∧ s.waiting ≤ limiter.maxQueue)
      (start limiter requests) actions ∧
    Guarded (step timeout)
      (fun s action => RejectsFull timeout s action → s.waiting + s.carrying = limiter.maxQueue)
      (start limiter requests) actions ∧
    (Always (step timeout) (fun s => (snapshot limiter s).queued = s.waiting)
        (start limiter requests) actions ∧
      Guarded (step timeout)
        (fun s action => RejectsFull timeout s action → s.waiting = limiter.maxQueue)
        (start limiter requests) actions ↔
      Guarded (step timeout) (fun _ action => action.isGrant = false)
        (start limiter requests) actions) := by
  have hstart := accounted_start limiter requests
  have hcarrying : (start limiter requests).carrying = 0 := by
    have hholding := holdingQueue_eq (start limiter requests)
    have hqueued := queued_eq hstart
    have hnone : (snapshot limiter (start limiter requests)).queued = 0 := by
      unfold snapshot start State.queuePermits
      by_cases hqueue : 0 < limiter.maxQueue
      · simp [hqueue]
      · have hzero : limiter.maxQueue = 0 := by omega
        simp [hzero]
    omega
  have htrivial : Guarded (step timeout) (fun _ _ => True) (start limiter requests) actions :=
    guarded_of_forall (fun _ _ _ => trivial) _
  have hqueued : Always (step timeout) (fun s => (snapshot limiter s).queued = s.waiting)
        (start limiter requests) actions ↔
      Guarded (step timeout) (fun _ action => action.isGrant = false)
        (start limiter requests) actions := by
    refine always_iff_guarded (Accounted limiter) _ (fun s a t => accounted_step) ?_ hstart
      ((queued_eq_waiting_iff hstart).mpr hcarrying) hrun
    intro s a t hinv hprop hstep
    rw [queued_eq_waiting_iff (accounted_step hinv hstep)]
    exact carrying_step ((queued_eq_waiting_iff hinv).mp hprop) hstep
  refine ⟨?_, ?_, ?_⟩
  · refine (always_iff_guarded (Accounted limiter) _ (fun s a t => accounted_step) ?_ hstart
      ⟨executing_le hstart, waiting_le hstart⟩ hrun).mpr htrivial
    intro s a t hinv _ hstep
    have hnext := accounted_step hinv hstep
    exact iff_of_true ⟨executing_le hnext, waiting_le hnext⟩ trivial
  · refine htrivial.imp (Accounted limiter) (fun s a t _ => accounted_step) ?_ hstart
    intro s a hinv _ hrejects
    rw [← holdingQueue_eq]
    exact holdingQueue_of_rejectsFull hinv hrejects
  · rw [hqueued]
    refine ⟨And.left, fun hguard => ⟨hguard, ?_⟩⟩
    refine hguard.imp (fun s => Accounted limiter s ∧ s.carrying = 0) ?_ ?_
      ⟨hstart, hcarrying⟩
    · intro s a t hgrant hinv hstep
      exact ⟨accounted_step hinv.1 hstep, (carrying_step hinv.2 hstep).mpr hgrant⟩
    · intro s a hinv _ hrejects
      have hholding := holdingQueue_of_rejectsFull hinv.1 hrejects
      rw [holdingQueue_eq, hinv.2] at hholding
      exact hholding

/-! ### One slot and one place in the queue -/

def oneSlot : Limiter := ⟨1, 1, searchConcurrencyLabels, Nat.one_pos⟩

/-- The first request executes, the second one waits, gets the slot after it and executes. -/
def handOver : List Action :=
  [.trySlot 0, .trySlot 1, .tryQueue 1, .dropSlot 0, .grant 1]

/-- A third request then finds the queue full. -/
def handOverAndArrive : List Action := handOver ++ [.trySlot 2, .tryQueue 2]

theorem limiter_accounts_handOver :
    Always (step none) (fun s => s.executing ≤ oneSlot.maxSlots ∧ s.waiting ≤ oneSlot.maxQueue)
      (start oneSlot 3) handOver ∧
    Guarded (step none)
      (fun s action => RejectsFull none s action → s.waiting + s.carrying = oneSlot.maxQueue)
      (start oneSlot 3) handOver ∧
    (Always (step none) (fun s => (snapshot oneSlot s).queued = s.waiting)
        (start oneSlot 3) handOver ∧
      Guarded (step none)
        (fun s action => RejectsFull none s action → s.waiting = oneSlot.maxQueue)
        (start oneSlot 3) handOver ↔
      Guarded (step none) (fun _ action => action.isGrant = false) (start oneSlot 3) handOver) :=
  limiter_accounts_iff oneSlot none 3 handOver
    ⟨0, some 0, [.finished, .executing true, .arriving]⟩ (by decide)

/-- With nobody waiting the snapshot says that one request is queued, and the third one is
rejected because the queue is full. -/
theorem queued_while_executing :
    ∃ s t, run (step none) (start oneSlot 3) handOver = some s ∧
      s.waiting = 0 ∧ (snapshot oneSlot s).queued = 1 ∧
      run (step none) (start oneSlot 3) handOverAndArrive = some t ∧
      t.waiting = 0 ∧ t.requests[2]? = some (Phase.failed .queueFull) :=
  ⟨⟨0, some 0, [.finished, .executing true, .arriving]⟩,
    ⟨0, some 0, [.finished, .executing true, .failed .queueFull]⟩, by decide⟩

end DbtNova.ConcurrencyLimiter
