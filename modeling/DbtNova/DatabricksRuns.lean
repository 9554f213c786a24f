import DbtNova.TransitionSystem
import Mathlib.Algebra.Order.Ring.Nat
import Mathlib.Tactic.Ring

/-!
# Statements on a Databricks warehouse

The client submits a statement, asks for its state until it is final or a time is over, and then
cancels it. The warehouse works on the statement meanwhile. A request may be lost on its way or its
reply may be, and time passes between any two steps. Times are in milliseconds.
-/
namespace DbtNova.DatabricksRuns
open TransitionSystem

/-- The states that the statement API reports. -/
inductive StatementState where
  | pending
  | running
  | succeeded
  | failed
  | canceled
  | closed
  deriving DecidableEq, Repr

def StatementState.name : StatementState → String
  | .pending => "PENDING"
  | .running => "RUNNING"
  | .succeeded => "SUCCEEDED"
  | .failed => "FAILED"
  | .canceled => "CANCELED"
  | .closed => "CLOSED"

def isTerminalState (state : String) : Bool :=
  state == "SUCCEEDED" || state == "FAILED" || state == "CANCELED" || state == "CLOSED"

def backoffDelay (attempt : ℕ) : ℕ := min (200 * 2 ^ min (attempt - 1) 6) 5000

structure Settings where
  pollInterval : ℕ
  maxPoll : ℕ
  maxGetRetries : ℕ
  deriving DecidableEq, Repr

def Settings.attempts (cfg : Settings) : ℕ := min (cfg.maxGetRetries + 1) (2 ^ 64 - 1)

/-- How a call of `execute` ends. -/
inductive Outcome where
  | succeeded
  | failed
  | canceled
  | unexpected (state : String)
  | timedOut
  | requestFailed
  deriving DecidableEq, Repr

/-- What `execute` makes of a final state. -/
def terminalOutcome (state : String) : Outcome :=
  if state = "SUCCEEDED" then .succeeded
  else if state = "FAILED" then .failed
  else if state = "CANCELED" then .canceled
  else .unexpected state

/-- Where the client stands: `polling` at the head of its loop, `planning` behind the first look
at the clock, `waking` before the second one. -/
inductive Phase where
  | submitting
  | submitted
  | polling (started : ℕ)
  | planning (started : ℕ)
  | sleeping (started wake : ℕ)
  | waking (started : ℕ)
  | asking (started attempt : ℕ)
  | backingOff (started attempt wake : ℕ)
  | cancelling
  | returned (outcome : Outcome)
  deriving DecidableEq, Repr

/-- The clock, the statement on the warehouse, what came there or was sent, and the client. -/
structure State where
  clock : ℕ
  statement : Option StatementState
  submissions : ℕ
  polls : ℕ
  statusRequests : ℕ
  phase : Phase
  deriving DecidableEq, Repr

/-- `deliver` brings a request to the warehouse and its reply back, except that a submission has a
step for each way. `lose` is a request or a reply that does not come through, `refuse` a failure
that the client sees, which it may hold for transient. -/
inductive Act where
  | tick (span : ℕ)
  | work (next : StatementState)
  | go
  | deliver
  | lose
  | refuse (retryable : Bool)
  deriving DecidableEq, Repr

/-- A statement goes on until it is final; what it gave may be closed later. -/
def StatementState.follows (next old : StatementState) : Bool :=
  match old, next with
  | .pending, .pending => false
  | .pending, _ => true
  | .running, .pending | .running, .running => false
  | .running, _ => true
  | .succeeded, .closed => true
  | _, _ => false

def StatementState.cancel : StatementState → StatementState
  | .pending | .running => .canceled
  | state => state

def sleepSpan (cfg : Settings) (started clock : ℕ) : ℕ :=
  min cfg.pollInterval (cfg.maxPoll - (clock - started))

/-- A GET of `send_json_get_with_retries` that got no reply to use. -/
def afterRefusal (cfg : Settings) (clock started attempt : ℕ) (retryable : Bool) : Phase :=
  if attempt < cfg.attempts ∧ retryable = true then
    .backingOff started attempt (clock + backoffDelay attempt)
  else .returned .requestFailed

/-- What a reply with this state leads to at the place where the client is. -/
def afterStatus (started : ℕ) (state : String) : Phase :=
  if isTerminalState state then .returned (terminalOutcome state) else .polling started

def step (cfg : Settings) (s : State) (act : Act) : Option State :=
  match act with
  | .tick span => some { s with clock := s.clock + span }
  | .work next =>
      match s.statement with
      | some old =>
          if next.follows old then some { s with statement := some next } else none
      | none => none
  | _ =>
      match s.phase, act with
      | .submitting, .deliver =>
          some { s with
            statement := some .pending, submissions := s.submissions + 1, phase := .submitted }
      | .submitting, .lose | .submitting, .refuse _ | .submitted, .lose =>
          some { s with phase := .returned .requestFailed }
      | .submitted, .deliver =>
          s.statement.map fun state => { s with phase := afterStatus s.clock state.name }
      | .polling started, .go =>
          if cfg.maxPoll ≤ s.clock - started then some { s with phase := .cancelling }
          else some { s with phase := .planning started }
      | .planning started, .go =>
          some { s with phase := .sleeping started (s.clock + sleepSpan cfg started s.clock) }
      | .sleeping started wake, .go =>
          if wake ≤ s.clock then some { s with phase := .waking started } else none
      | .waking started, .go =>
          if cfg.maxPoll ≤ s.clock - started then some { s with phase := .cancelling }
          else
            some { s with
              polls := s.polls + 1, statusRequests := s.statusRequests + 1,
              phase := .asking started 1 }
      | .asking started _, .deliver =>
          s.statement.map fun state => { s with phase := afterStatus started state.name }
      | .asking started attempt, .refuse retryable =>
          some { s with phase := afterRefusal cfg s.clock started attempt retryable }
      | .asking started attempt, .lose =>
          some { s with phase := afterRefusal cfg s.clock started attempt true }
      | .backingOff started attempt wake, .go =>
          if wake ≤ s.clock then
            some { s with
              statusRequests := s.statusRequests + 1, phase := .asking started (attempt + 1) }
          else none
      | .cancelling, .deliver =>
          some { s with
            statement := s.statement.map StatementState.cancel, phase := .returned .timedOut }
      | .cancelling, .lose | .cancelling, .refuse _ =>
          some { s with phase := .returned .timedOut }
      | _, _ => none

def start (clock : ℕ) : State := ⟨clock, none, 0, 0, 0, .submitting⟩

/-! ## What a step does -/

/-- The steps of the client and of its requests. -/
inductive ClientStep (cfg : Settings) : State → Act → State → Prop where
  | submit (s : State) (h : s.phase = .submitting) :
      ClientStep cfg s .deliver
        { s with
          statement := some .pending, submissions := s.submissions + 1, phase := .submitted }
  | notSubmitted (s : State) (act : Act) (h : s.phase = .submitting) :
      ClientStep cfg s act { s with phase := .returned .requestFailed }
  | noReply (s : State) (h : s.phase = .submitted) :
      ClientStep cfg s .lose { s with phase := .returned .requestFailed }
  | reply (s : State) (state : StatementState) (h : s.phase = .submitted)
      (hstate : s.statement = some state) :
      ClientStep cfg s .deliver { s with phase := afterStatus s.clock state.name }
  | timeOver (s : State) (started : ℕ) (h : s.phase = .polling started ∨ s.phase = .waking started)
      (hclock : cfg.maxPoll ≤ s.clock - started) :
      ClientStep cfg s .go { s with phase := .cancelling }
  | plan (s : State) (started : ℕ) (h : s.phase = .polling started)
      (hclock : s.clock - started < cfg.maxPoll) :
      ClientStep cfg s .go { s with phase := .planning started }
  | sleep (s : State) (started : ℕ) (h : s.phase = .planning started) :
      ClientStep cfg s .go
        { s with phase := .sleeping started (s.clock + sleepSpan cfg started s.clock) }
  | wake (s : State) (started wake : ℕ) (h : s.phase = .sleeping started wake)
      (hclock : wake ≤ s.clock) : ClientStep cfg s .go { s with phase := .waking started }
  | ask (s : State) (started : ℕ) (h : s.phase = .waking started)
      (hclock : s.clock - started < cfg.maxPoll) :
      ClientStep cfg s .go
        { s with
          polls := s.polls + 1, statusRequests := s.statusRequests + 1, phase := .asking started 1 }
  | status (s : State) (started attempt : ℕ) (state : StatementState)
      (h : s.phase = .asking started attempt) (hstate : s.statement = some state) :
      ClientStep cfg s .deliver { s with phase := afterStatus started state.name }
  | refused (s : State) (act : Act) (started attempt : ℕ) (retryable : Bool)
      (h : s.phase = .asking started attempt)
      (hact : act = .refuse retryable ∨ (act = .lose ∧ retryable = true)) :
      ClientStep cfg s act { s with phase := afterRefusal cfg s.clock started attempt retryable }
  | askAgain (s : State) (started attempt wake : ℕ) (h : s.phase = .backingOff started attempt wake)
      (hclock : wake ≤ s.clock) :
      ClientStep cfg s .go
        { s with
          statusRequests := s.statusRequests + 1, phase := .asking started (attempt + 1) }
  | cancel (s : State) (h : s.phase = .cancelling) :
      ClientStep cfg s .deliver
        { s with
          statement := s.statement.map StatementState.cancel, phase := .returned .timedOut }
  | notCancelled (s : State) (act : Act) (h : s.phase = .cancelling)
      (hact : act = .lose ∨ ∃ retryable, act = .refuse retryable) :
      ClientStep cfg s act { s with phase := .returned .timedOut }

theorem step_cases {cfg : Settings} {s t : State} {act : Act} (h : step cfg s act = some t) :
    (∃ span, act = .tick span ∧ t = { s with clock := s.clock + span }) ∨
      (∃ old next, act = .work next ∧ s.statement = some old ∧ next.follows old = true ∧
        t = { s with statement := some next }) ∨
      ClientStep cfg s act t := by
  obtain ⟨clock, statement, submissions, polls, statusRequests, phase⟩ := s
  cases act with
  | tick span =>
      cases h
      exact Or.inl ⟨span, rfl, rfl⟩
  | work next =>
      cases statement with
      | none => cases h
      | some old =>
          simp only [step] at h
          split at h
          · rename_i hfollows
            cases h
            exact Or.inr (Or.inl ⟨old, next, rfl, rfl, hfollows, rfl⟩)
          · cases h
  | go =>
      refine Or.inr (Or.inr ?_)
      cases phase with
      | polling started =>
          simp only [step] at h
          split at h
          · rename_i hclock
            cases h
            exact .timeOver _ started (Or.inl rfl) hclock
          · rename_i hclock
            cases h
            exact .plan _ started rfl (Nat.lt_of_not_le hclock)
      | planning started =>
          cases h
          exact .sleep _ started rfl
      | sleeping started wake =>
          simp only [step] at h
          split at h
          · rename_i hclock
            cases h
            exact .wake _ started wake rfl hclock
          · cases h
      | waking started =>
          simp only [step] at h
          split at h
          · rename_i hclock
            cases h
            exact .timeOver _ started (Or.inr rfl) hclock
          · rename_i hclock
            cases h
            exact .ask _ started rfl (Nat.lt_of_not_le hclock)
      | backingOff started attempt wake =>
          simp only [step] at h
          split at h
          · rename_i hclock
            cases h
            exact .askAgain _ started attempt wake rfl hclock
          · cases h
      | _ => cases h
  | deliver =>
      refine Or.inr (Or.inr ?_)
      cases phase with
      | submitting =>
          cases h
          exact .submit _ rfl
      | submitted =>
          cases statement with
          | none => cases h
          | some state =>
              cases h
              exact .reply _ state rfl rfl
      | asking started attempt =>
          cases statement with
          | none => cases h
          | some state =>
              cases h
              exact .status _ started attempt state rfl rfl
      | cancelling =>
          cases h
          exact .cancel _ rfl
      | _ => cases h
  | lose =>
      refine Or.inr (Or.inr ?_)
      cases phase with
      | submitting =>
          cases h
          exact .notSubmitted _ _ rfl
      | submitted =>
          cases h
          exact .noReply _ rfl
      | asking started attempt =>
          cases h
          exact .refused _ _ started attempt true rfl (Or.inr ⟨rfl, rfl⟩)
      | cancelling =>
          cases h
          exact .notCancelled _ _ rfl (Or.inl rfl)
      | _ => cases h
  | refuse retryable =>
      refine Or.inr (Or.inr ?_)
      cases phase with
      | submitting =>
          cases h
          exact .notSubmitted _ _ rfl
      | asking started attempt =>
          cases h
          exact .refused _ _ started attempt retryable rfl (Or.inl rfl)
      | cancelling =>
          cases h
          exact .notCancelled _ _ rfl (Or.inr ⟨retryable, rfl⟩)
      | _ => cases h

/-! ## How often the warehouse is asked -/

/-- What is known of the time at each place: since polling began, one interval has gone by for each
round that asked, unless the whole time is over. -/
def AtPlace (cfg : Settings) (clock polls statusRequests : ℕ) : Phase → Prop
  | .submitting | .submitted => polls = 0
  | .polling started | .planning started =>
      started ≤ clock ∧ polls * cfg.pollInterval ≤ clock - started
  | .sleeping started wake =>
      started ≤ clock ∧
        (polls * cfg.pollInterval + cfg.pollInterval ≤ wake - started ∨ cfg.maxPoll ≤ wake - started)
  | .waking started =>
      started ≤ clock ∧
        (polls * cfg.pollInterval + cfg.pollInterval ≤ clock - started ∨
          cfg.maxPoll ≤ clock - started)
  | .asking started attempt =>
      started ≤ clock ∧ polls * cfg.pollInterval ≤ clock - started ∧ attempt ≤ cfg.attempts ∧
        statusRequests + (cfg.attempts - attempt) ≤ polls * cfg.attempts
  | .backingOff started attempt _ =>
      started ≤ clock ∧ polls * cfg.pollInterval ≤ clock - started ∧ attempt < cfg.attempts ∧
        statusRequests + (cfg.attempts - attempt) ≤ polls * cfg.attempts
  | .cancelling | .returned _ => True

structure Waits (cfg : Settings) (s : State) : Prop where
  few : s.polls = 0 ∨ s.polls * cfg.pollInterval < cfg.maxPoll
  bounded : s.statusRequests ≤ s.polls * cfg.attempts
  place : AtPlace cfg s.clock s.polls s.statusRequests s.phase

section Waiting
variable {cfg : Settings} {s t : State} {act : Act} {clock polls statusRequests : ℕ} {phase : Phase}

theorem attempts_pos (cfg : Settings) : 0 < cfg.attempts := by
  unfold Settings.attempts
  omega

theorem AtPlace.later (h : AtPlace cfg clock polls statusRequests phase) (span : ℕ) :
    AtPlace cfg (clock + span) polls statusRequests phase := by
  cases phase with
  | submitting => exact h
  | submitted => exact h
  | polling started =>
      obtain ⟨hle, hround⟩ := h
      exact ⟨by omega, by omega⟩
  | planning started =>
      obtain ⟨hle, hround⟩ := h
      exact ⟨by omega, by omega⟩
  | sleeping started wake =>
      obtain ⟨hle, hround⟩ := h
      exact ⟨by omega, hround⟩
  | waking started =>
      obtain ⟨hle, hround⟩ := h
      exact ⟨by omega, by omega⟩
  | asking started attempt =>
      obtain ⟨hle, hround, hrest⟩ := h
      exact ⟨by omega, by omega, hrest⟩
  | backingOff started attempt wake =>
      obtain ⟨hle, hround, hrest⟩ := h
      exact ⟨by omega, by omega, hrest⟩
  | cancelling => trivial
  | returned outcome => trivial

theorem atPlace_afterStatus {started : ℕ} (hle : started ≤ clock)
    (hround : polls * cfg.pollInterval ≤ clock - started) (state : String) :
    AtPlace cfg clock polls statusRequests (afterStatus started state) := by
  unfold afterStatus
  split
  · trivial
  · exact ⟨hle, hround⟩

theorem waits_step (h : Waits cfg s) (hstep : step cfg s act = some t) : Waits cfg t := by
  rcases step_cases hstep with ⟨span, -, rfl⟩ | ⟨old, next, -, -, -, rfl⟩ | hclient
  · exact ⟨h.few, h.bounded, h.place.later span⟩
  · exact ⟨h.few, h.bounded, h.place⟩
  · obtain ⟨hfew, hbounded, hplace⟩ := h
    cases hclient with
    | submit hphase =>
        rw [hphase] at hplace
        exact ⟨hfew, hbounded, hplace⟩
    | notSubmitted hphase => exact ⟨hfew, hbounded, trivial⟩
    | noReply hphase => exact ⟨hfew, hbounded, trivial⟩
    | reply state hphase hstate =>
        rw [hphase] at hplace
        have hnone : s.polls = 0 := hplace
        refine ⟨hfew, hbounded, atPlace_afterStatus (Nat.le_refl _) ?_ _⟩
        simp [hnone]
    | timeOver started hphase hclock => exact ⟨hfew, hbounded, trivial⟩
    | plan started hphase hclock =>
        rw [hphase] at hplace
        exact ⟨hfew, hbounded, hplace⟩
    | sleep started hphase =>
        rw [hphase] at hplace
        obtain ⟨hle, hround⟩ := hplace
        have hwake : s.polls * cfg.pollInterval + cfg.pollInterval ≤
            s.clock + sleepSpan cfg started s.clock - started ∨
              cfg.maxPoll ≤ s.clock + sleepSpan cfg started s.clock - started := by
          unfold sleepSpan
          omega
        exact ⟨hfew, hbounded, hle, hwake⟩
    | wake started wake hphase hclock =>
        rw [hphase] at hplace
        obtain ⟨hle, hround⟩ := hplace
        have hawake : s.polls * cfg.pollInterval + cfg.pollInterval ≤ s.clock - started ∨
            cfg.maxPoll ≤ s.clock - started := by
          omega
        exact ⟨hfew, hbounded, hle, hawake⟩
    | ask started hphase hclock =>
        rw [hphase] at hplace
        obtain ⟨hle, hround⟩ := hplace
        have hinterval : (s.polls + 1) * cfg.pollInterval =
            s.polls * cfg.pollInterval + cfg.pollInterval := Nat.succ_mul _ _
        have hattempts : (s.polls + 1) * cfg.attempts = s.polls * cfg.attempts + cfg.attempts :=
          Nat.succ_mul _ _
        have hpos := attempts_pos cfg
        refine ⟨Or.inr ?_, ?_, hle, ?_, hpos, ?_⟩
        · simp only
          omega
        · simp only
          omega
        · simp only
          omega
        · simp only
          omega
    | status started attempt state hphase hstate =>
        rw [hphase] at hplace
        exact ⟨hfew, hbounded, atPlace_afterStatus hplace.1 hplace.2.1 _⟩
    | refused _ started attempt retryable hphase hact =>
        rw [hphase] at hplace
        obtain ⟨hle, hround, hattempt, hrequests⟩ := hplace
        refine ⟨hfew, hbounded, ?_⟩
        simp only [afterRefusal]
        split
        · rename_i hmore
          exact ⟨hle, hround, hmore.1, hrequests⟩
        · trivial
    | askAgain started attempt wake hphase hclock =>
        rw [hphase] at hplace
        obtain ⟨hle, hround, hattempt, hrequests⟩ := hplace
        have hsent : s.statusRequests + 1 + (cfg.attempts - (attempt + 1)) ≤
            s.polls * cfg.attempts := by
          omega
        exact ⟨hfew, Nat.le_of_add_right_le hsent, hle, hround, hattempt, hsent⟩
    | cancel hphase => exact ⟨hfew, hbounded, trivial⟩
    | notCancelled hphase hact => exact ⟨hfew, hbounded, trivial⟩

/-- However long the statement runs and whatever the network does, the warehouse is asked for its
state less than once for each interval and attempt. -/
theorem status_requests_bounded {clock : ℕ} {moves : List Act}
    (hrun : run (step cfg) (start clock) moves = some t) :
    t.statusRequests * cfg.pollInterval ≤ cfg.attempts * cfg.maxPoll := by
  have hstart : Waits cfg (start clock) := ⟨Or.inl rfl, Nat.zero_le _, rfl⟩
  have hwaits := run_invariant (Waits cfg) (fun s act t => waits_step) hstart hrun
  have hpolls : t.polls * cfg.pollInterval ≤ cfg.maxPoll := by
    rcases hwaits.few with hnone | hfew
    · simp [hnone]
    · exact hfew.le
  calc t.statusRequests * cfg.pollInterval
      ≤ t.polls * cfg.attempts * cfg.pollInterval :=
        Nat.mul_le_mul_right _ hwaits.bounded
    _ = cfg.attempts * (t.polls * cfg.pollInterval) := by ring
    _ ≤ cfg.attempts * cfg.maxPoll := Nat.mul_le_mul_left _ hpolls

def defaultSettings : Settings := ⟨1000, 600000, 2⟩

/-- The first request for the state gets no reply, and the second one finds the result. -/
def slowMoves : List Act :=
  [.deliver, .deliver, .go, .go, .tick 1000, .go, .go, .work .running, .lose, .tick 200, .go,
    .work .succeeded, .deliver]

def slowEnd : State := ⟨1200, some .succeeded, 1, 1, 2, .returned .succeeded⟩

theorem slow_run : run (step defaultSettings) (start 0) slowMoves = some slowEnd := by decide

theorem status_requests_bounded_slow :
    slowEnd.statusRequests * defaultSettings.pollInterval ≤
      defaultSettings.attempts * defaultSettings.maxPoll :=
  status_requests_bounded slow_run

end Waiting

/-! ## What the outcome says of the statement -/

def Final (statement : Option StatementState) : Prop :=
  ∀ state, statement = some state → isTerminalState state.name = true

/-- The statement as the warehouse has it, behind each outcome. -/
def Outcome.Known (statement : Option StatementState) : Outcome → Prop
  | .succeeded => statement = some .succeeded ∨ statement = some .closed
  | .failed => statement = some .failed
  | .canceled => statement = some .canceled
  | .unexpected state => state = "CLOSED" ∧ statement = some .closed
  | .timedOut | .requestFailed => True

structure Informed (s : State) : Prop where
  once : s.submissions ≤ 1
  before : s.phase = .submitting → s.submissions = 0 ∧ s.statement = none
  outcome : ∀ outcome, s.phase = .returned outcome → outcome.Known s.statement

section Outcomes
variable {cfg : Settings} {s t : State} {act : Act} {moves : List Act} {clock : ℕ}

theorem terminalOutcome_known {state : StatementState} (h : isTerminalState state.name = true) :
    (terminalOutcome state.name).Known (some state) := by
  cases state with
  | pending => cases h
  | running => cases h
  | succeeded => exact Or.inl rfl
  | failed => exact rfl
  | canceled => exact rfl
  | closed => exact ⟨rfl, rfl⟩

theorem afterStatus_known {started : ℕ} {state : StatementState} {outcome : Outcome}
    (h : afterStatus started state.name = .returned outcome) :
    outcome.Known (some state) ∧ Final (some state) := by
  unfold afterStatus at h
  split at h
  · rename_i hterminal
    cases h
    refine ⟨terminalOutcome_known hterminal, ?_⟩
    rintro other ⟨⟩
    exact hterminal
  · cases h

theorem afterStatus_ne {started : ℕ} {state : String} :
    afterStatus started state ≠ .submitting := by
  unfold afterStatus
  split <;> simp

/-- Behind a final state only the closing of a result comes. -/
theorem follows_terminal {old next : StatementState} : isTerminalState old.name = true →
    next.follows old = true → old = .succeeded ∧ next = .closed := by
  cases old <;> cases next <;> decide

theorem Outcome.Known.terminal {old : StatementState} {outcome : Outcome}
    (h : outcome.Known (some old)) :
    isTerminalState old.name = true ∨ outcome = .timedOut ∨ outcome = .requestFailed := by
  cases outcome with
  | succeeded =>
      rcases h with h | h
      · rw [Option.some.inj h]
        exact Or.inl rfl
      · rw [Option.some.inj h]
        exact Or.inl rfl
  | failed =>
      rw [Option.some.inj h]
      exact Or.inl rfl
  | canceled =>
      rw [Option.some.inj h]
      exact Or.inl rfl
  | unexpected state =>
      rw [Option.some.inj h.2]
      exact Or.inl rfl
  | timedOut => exact Or.inr (Or.inl rfl)
  | requestFailed => exact Or.inr (Or.inr rfl)

/-- What the client was told stays so. -/
theorem follows_known {old next : StatementState} {outcome : Outcome}
    (hfollows : next.follows old = true) (h : outcome.Known (some old)) :
    outcome.Known (some next) := by
  rcases h.terminal with hterminal | rfl | rfl
  · obtain ⟨rfl, rfl⟩ := follows_terminal hterminal hfollows
    cases outcome with
    | succeeded => exact Or.inr rfl
    | failed => cases Option.some.inj h
    | canceled => cases Option.some.inj h
    | unexpected state => cases Option.some.inj h.2
    | timedOut => trivial
    | requestFailed => trivial
  · trivial
  · trivial

theorem follows_final {old next : StatementState} (hfollows : next.follows old = true)
    (h : Final (some old)) : Final (some next) := by
  rintro state ⟨⟩
  obtain ⟨-, rfl⟩ := follows_terminal (h old rfl) hfollows
  rfl

theorem afterRefusal_cases (cfg : Settings) (clock started attempt : ℕ) (retryable : Bool) :
    (∃ wake, afterRefusal cfg clock started attempt retryable =
        .backingOff started attempt wake ∧ attempt < cfg.attempts ∧ retryable = true) ∨
      (afterRefusal cfg clock started attempt retryable = .returned .requestFailed ∧
        ¬ (attempt < cfg.attempts ∧ retryable = true)) := by
  unfold afterRefusal
  split
  · rename_i hmore
    exact Or.inl ⟨_, rfl, hmore.1, hmore.2⟩
  · rename_i hlast
    exact Or.inr ⟨rfl, hlast⟩

theorem informed_step (h : Informed s) (hstep : step cfg s act = some t) : Informed t := by
  rcases step_cases hstep with ⟨span, -, rfl⟩ | ⟨old, next, -, hold, hfollows, rfl⟩ | hclient
  · exact ⟨h.once, h.before, h.outcome⟩
  · refine ⟨h.once, fun hphase => ?_, fun outcome hphase => ?_⟩
    · have hnone := (h.before hphase).2
      rw [hold] at hnone
      cases hnone
    · have hknown := h.outcome outcome hphase
      rw [hold] at hknown
      exact follows_known hfollows hknown
  · cases hclient with
    | submit hphase =>
        obtain ⟨hnone, -⟩ := h.before hphase
        refine ⟨?_, (fun hnot => by cases hnot), fun outcome hnot => by cases hnot⟩
        simp [hnone]
    | notSubmitted _ hphase =>
        refine ⟨h.once, (fun hnot => by cases hnot), fun outcome hreturned => ?_⟩
        cases hreturned
        trivial
    | noReply hphase =>
        refine ⟨h.once, (fun hnot => by cases hnot), fun outcome hreturned => ?_⟩
        cases hreturned
        trivial
    | reply state hphase hstate =>
        refine ⟨h.once, fun hnot => absurd hnot afterStatus_ne, fun outcome hreturned => ?_⟩
        rw [hstate]
        exact (afterStatus_known hreturned).1
    | status started attempt state hphase hstate =>
        refine ⟨h.once, fun hnot => absurd hnot afterStatus_ne, fun outcome hreturned => ?_⟩
        rw [hstate]
        exact (afterStatus_known hreturned).1
    | refused _ started attempt retryable hphase hact =>
        rcases afterRefusal_cases cfg s.clock started attempt retryable with
          ⟨wake, hnext, -⟩ | ⟨hnext, -⟩
        · rw [hnext]
          exact ⟨h.once, (fun hnot => by cases hnot), fun outcome hnot => by cases hnot⟩
        · rw [hnext]
          refine ⟨h.once, (fun hnot => by cases hnot), fun outcome hreturned => ?_⟩
          cases hreturned
          trivial
    | cancel hphase =>
        refine ⟨h.once, (fun hnot => by cases hnot), fun outcome hreturned => ?_⟩
        cases hreturned
        trivial
    | notCancelled _ hphase hact =>
        refine ⟨h.once, (fun hnot => by cases hnot), fun outcome hreturned => ?_⟩
        cases hreturned
        trivial
    | _ => exact ⟨h.once, (fun hnot => by cases hnot), fun outcome hnot => by cases hnot⟩

theorem informed_start : Informed (start clock) :=
  ⟨Nat.zero_le _, fun _ => ⟨rfl, rfl⟩, fun outcome hnot => by cases hnot⟩

/-- The client ends without a reply that it could have waited for. -/
def GivesUp (cfg : Settings) (s : State) (act : Act) : Prop :=
  (s.phase = .submitted ∧ act = .lose) ∨
    (∃ started attempt retryable, s.phase = .asking started attempt ∧
      (act = .refuse retryable ∨ (act = .lose ∧ retryable = true)) ∧
      ¬ (attempt < cfg.attempts ∧ retryable = true)) ∨
    (s.phase = .cancelling ∧ (act = .lose ∨ ∃ retryable, act = .refuse retryable))

theorem GivesUp.lost (h : GivesUp cfg s act) :
    act = .lose ∨ ∃ retryable, act = .refuse retryable := by
  rcases h with ⟨-, hlose⟩ | ⟨_, _, retryable, -, hrefuse | ⟨hlose, -⟩, -⟩ | ⟨-, hlost⟩
  · exact Or.inl hlose
  · exact Or.inr ⟨retryable, hrefuse⟩
  · exact Or.inl hlose
  · exact hlost

def NotLeft (s : State) : Prop := ∀ outcome, s.phase = .returned outcome → Final s.statement

theorem final_cancel (statement : Option StatementState) :
    Final (statement.map StatementState.cancel) := by
  intro state hstate
  obtain ⟨old, -, rfl⟩ := Option.map_eq_some_iff.mp hstate
  cases old <;> rfl

theorem notLeft_step (hbefore : Informed s) (h : NotLeft s) (hstep : step cfg s act = some t) :
    NotLeft t ↔ (GivesUp cfg s act → Final s.statement) := by
  rcases step_cases hstep with ⟨span, rfl, rfl⟩ | ⟨old, next, rfl, hold, hfollows, rfl⟩ | hclient
  · refine iff_of_true h fun hgives => ?_
    rcases hgives.lost with hlose | ⟨_, hrefuse⟩
    · cases hlose
    · cases hrefuse
  · refine iff_of_true (fun outcome hreturned => ?_) fun hgives => ?_
    · have hfinal := h outcome hreturned
      rw [hold] at hfinal
      exact follows_final hfollows hfinal
    · rcases hgives.lost with hlose | ⟨_, hrefuse⟩
      · cases hlose
      · cases hrefuse
  · have hreplied (hact : act = .go ∨ act = .deliver) : ¬ GivesUp cfg s act := by
      intro hgives
      rcases hgives.lost with rfl | ⟨_, rfl⟩ <;> simp at hact
    cases hclient with
    | notSubmitted _ hphase =>
        have hnone : Final s.statement := by
          rw [(hbefore.before hphase).2]
          rintro state ⟨⟩
        exact iff_of_true (fun _ _ => hnone) (fun _ => hnone)
    | noReply hphase =>
        constructor
        · intro hleft _
          exact hleft _ rfl
        · intro hfinal outcome _
          exact hfinal (Or.inl ⟨hphase, rfl⟩)
    | reply state hphase hstate =>
        refine iff_of_true (fun outcome hreturned => ?_) fun hgives =>
          absurd hgives (hreplied (Or.inr rfl))
        rw [hstate]
        exact (afterStatus_known hreturned).2
    | status started attempt state hphase hstate =>
        refine iff_of_true (fun outcome hreturned => ?_) fun hgives =>
          absurd hgives (hreplied (Or.inr rfl))
        rw [hstate]
        exact (afterStatus_known hreturned).2
    | refused _ started attempt retryable hphase hact =>
        rcases afterRefusal_cases cfg s.clock started attempt retryable with
          ⟨wake, hnext, hmore⟩ | ⟨hnext, hlast⟩
        · rw [hnext]
          refine iff_of_true (fun outcome hreturned => by cases hreturned) ?_
          rintro (⟨hsubmitted, -⟩ | ⟨b, k, r, hasking, hact', hlast⟩ | ⟨hcancelling, -⟩)
          · rw [hphase] at hsubmitted
            cases hsubmitted
          · rw [hphase] at hasking
            cases hasking
            have hsame : r = retryable ∨ r = true := by
              rcases hact' with rfl | ⟨rfl, rfl⟩
              · rcases hact with hrefuse | ⟨hlose, -⟩
                · injection hrefuse with hr
                  exact Or.inl hr
                · cases hlose
              · exact Or.inr rfl
            rw [hmore.2, or_self] at hsame
            exact absurd ⟨hmore.1, hsame⟩ hlast
          · rw [hphase] at hcancelling
            cases hcancelling
        · rw [hnext]
          constructor
          · intro hleft _
            exact hleft _ rfl
          · intro hfinal outcome _
            exact hfinal (Or.inr (Or.inl ⟨started, attempt, retryable, hphase, hact, hlast⟩))
    | cancel hphase =>
        refine iff_of_true (fun outcome _ => final_cancel _) fun hgives =>
          absurd hgives (hreplied (Or.inr rfl))
    | notCancelled _ hphase hact =>
        constructor
        · intro hleft _
          exact hleft _ rfl
        · intro hfinal outcome _
          exact hfinal (Or.inr (Or.inr ⟨hphase, hact⟩))
    | submit hphase =>
        exact iff_of_true (fun outcome hnot => by cases hnot) fun hgives =>
          absurd hgives (hreplied (Or.inr rfl))
    | _ =>
        exact iff_of_true (fun outcome hnot => by cases hnot) fun hgives =>
          absurd hgives (hreplied (Or.inl rfl))

/-- The last request for the state fails while the statement runs. -/
def abandonedMoves : List Act :=
  [.deliver, .deliver, .go, .go, .tick 1000, .go, .go, .work .running, .refuse false]

end Outcomes

end DbtNova.DatabricksRuns
