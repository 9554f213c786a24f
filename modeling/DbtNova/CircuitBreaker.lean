import DbtNova.TransitionSystem
import Mathlib.Logic.Function.Basic
import Mathlib.Tactic.FinCases

/-!
# Circuit breakers of the optional search components

A `search` request asks the vector and the sparse breaker side by side and the
reranker breaker afterwards; a `search_indicator` request asks only the last. A
breaker that answers `true` expects to be told how the work went. Every lock of a
breaker and every stretch between two await points is one step, and between steps
any other request may run. The future of a request may be dropped at any await
point: by the server's timeout, or because another retriever failed.

Whether a component is configured, what a model returns and how long it takes are
left to the run. Times are milliseconds.
-/
namespace DbtNova.CircuitBreaker
open TransitionSystem

inductive CircuitBreakerState where
  | closed
  | opened
  | halfOpen
  deriving DecidableEq, Repr

structure CircuitState where
  failures : ℕ
  openedAt : Option ℕ
  state : CircuitBreakerState
  halfOpenTrial : Bool
  deriving DecidableEq, Repr

def CircuitState.new : CircuitState := ⟨0, none, .closed, false⟩

structure Settings where
  failureThreshold : ℕ
  openDuration : ℕ
  searchTimeoutMs : ℕ
  deriving DecidableEq, Repr

/-- The two branches of `allow` that end in the question for the trial. -/
def CircuitState.takeTrial (state : CircuitState) : Bool × CircuitState :=
  if state.halfOpenTrial then (false, state)
  else (true, { state with halfOpenTrial := true })

def CircuitState.allow (cfg : Settings) (now : ℕ) (state : CircuitState) : Bool × CircuitState :=
  match state.state with
  | .closed => (true, state)
  | .opened =>
      match state.openedAt with
      | some openedAt =>
          if cfg.openDuration ≤ now - openedAt then
            CircuitState.takeTrial { state with state := .halfOpen, halfOpenTrial := false }
          else (false, state)
      | none => (false, state)
  | .halfOpen => state.takeTrial

def CircuitState.onSuccess (_ : CircuitState) : CircuitState := ⟨0, none, .closed, false⟩

/-- The count saturates in the source, which no comparison with a threshold of the
same width can see. -/
def CircuitState.onFailure (cfg : Settings) (now : ℕ) (state : CircuitState) : CircuitState :=
  let state := { state with failures := state.failures + 1 }
  if state.state = .halfOpen then
    { state with state := .opened, openedAt := some now, halfOpenTrial := false }
  else if max cfg.failureThreshold 1 ≤ state.failures then
    { state with state := .opened, openedAt := some now }
  else state

inductive Component where
  | vector
  | sparse
  | reranker
  deriving DecidableEq, Repr

inductive Kind where
  | search
  | searchIndicator
  deriving DecidableEq, Repr

/-- Where a request stands with one breaker. `passed` means that it did not ask or
was refused, `abandoned` that it was allowed and went on without an answer. -/
inductive Probe where
  | pending
  | passed
  | allowed
  | working
  | judged (success : Bool)
  | settled
  | abandoned
  deriving DecidableEq, Repr

def Probe.ended : Probe → Bool
  | .passed | .settled | .abandoned => true
  | .pending | .allowed | .working | .judged _ => false

structure Request where
  kind : Kind
  startedAt : ℕ
  probes : Component → Probe
  inFlight : Bool

def Request.new (kind : Kind) (now : ℕ) : Request :=
  ⟨kind, now, fun c => if kind = .searchIndicator ∧ c ≠ .reranker then .passed else .pending, true⟩

def Request.setProbe (req : Request) (c : Component) (probe : Probe) : Request :=
  { req with probes := Function.update req.probes c probe }

/-- Reranking starts from the fused ranking. -/
def Request.mayAsk (req : Request) (c : Component) : Bool :=
  req.inFlight && req.probes c == .pending &&
    (c != .reranker || ((req.probes .vector).ended && (req.probes .sparse).ended))

def semanticTimeoutReserveMs : ℕ := 10

/-- `semantic_remaining`: nothing is left in the last milliseconds of the deadline
and after it. -/
def semanticRemaining (timeoutMs startedAt now : ℕ) : Option ℕ :=
  if timeoutMs = 0 then none
  else if timeoutMs ≤ now - startedAt + semanticTimeoutReserveMs then none
  else some (timeoutMs - (now - startedAt) - semanticTimeoutReserveMs)

/-- The early exit of `run_semantic_blocking`. -/
def skipsDeadline (timeoutMs startedAt now : ℕ) : Bool :=
  decide (0 < timeoutMs) && (semanticRemaining timeoutMs startedAt now).isNone

/-- What a request finds between the answer of the breaker and the blocking call:
a query or documents to work on, nothing to rerank, or an entity that cannot be
read. -/
inductive Work where
  | ready
  | nothing
  | lookupFailed
  deriving DecidableEq, Repr

inductive Outcome where
  | completed (success : Bool)
  | timedOut
  | joinFailed
  deriving DecidableEq, Repr

inductive Action where
  | tick (ms : ℕ)
  | arrive (kind : Kind)
  | bypass (r : ℕ) (c : Component)
  | ask (r : ℕ) (c : Component)
  | enter (r : ℕ) (c : Component) (work : Work)
  | complete (r : ℕ) (c : Component) (outcome : Outcome)
  | record (r : ℕ) (c : Component)
  | finish (r : ℕ)
  | drop (r : ℕ)
  deriving DecidableEq, Repr

structure System where
  now : ℕ
  breakers : Component → CircuitState
  requests : List Request

def System.new : System := ⟨0, fun _ => .new, []⟩

def System.setRequest (s : System) (r : ℕ) (req : Request) : System :=
  { s with requests := s.requests.set r req }

/-- The request returns with an error, which drops whatever else it awaits. -/
def Request.fail (req : Request) : Request := { req with inFlight := false }

/-- What a request does in one action, with the new state of the breaker where
the action locks one. -/
def Request.act (cfg : Settings) (s : System) (req : Request) :
    Action → Option (Request × (Component → CircuitState))
  | .bypass _ c =>
      if req.mayAsk c then some (req.setProbe c .passed, s.breakers) else none
  | .ask _ c =>
      if req.mayAsk c then
        let (allowed, state) := (s.breakers c).allow cfg s.now
        some (req.setProbe c (if allowed then .allowed else .passed),
          Function.update s.breakers c state)
      else none
  | .enter _ c work =>
      if req.inFlight ∧ req.probes c = .allowed ∧ (work ≠ .ready → c = .reranker) ∧
          (work = .lookupFailed → req.kind = .search) then
        match work with
        | .lookupFailed => some (req.fail, s.breakers)
        | .nothing => some (req.setProbe c .abandoned, s.breakers)
        | .ready =>
            if skipsDeadline cfg.searchTimeoutMs req.startedAt s.now then
              some (req.setProbe c .abandoned, s.breakers)
            else some (req.setProbe c .working, s.breakers)
      else none
  | .complete _ c outcome =>
      if req.inFlight ∧ req.probes c = .working then
        match outcome with
        | .completed success => some (req.setProbe c (.judged success), s.breakers)
        | .timedOut =>
            if 0 < cfg.searchTimeoutMs then some (req.setProbe c (.judged false), s.breakers)
            else none
        | .joinFailed => some (req.fail, s.breakers)
      else none
  | .record _ c =>
      match req.probes c with
      | .judged success =>
          if req.inFlight then
            some (req.setProbe c .settled, Function.update s.breakers c
              (if success then (s.breakers c).onSuccess else (s.breakers c).onFailure cfg s.now))
          else none
      | _ => none
  | .finish _ =>
      if req.inFlight ∧ (req.probes .vector).ended ∧ (req.probes .sparse).ended ∧
          (req.probes .reranker).ended then
        some (req.fail, s.breakers)
      else none
  | .drop _ => if req.inFlight then some (req.fail, s.breakers) else none
  | .tick _ | .arrive _ => none

def Action.request : Action → Option ℕ
  | .tick _ | .arrive _ => none
  | .bypass r _ | .ask r _ | .enter r _ _ | .complete r _ _ | .record r _ | .finish r | .drop r =>
      some r

def step (cfg : Settings) (s : System) (a : Action) : Option System :=
  match a with
  | .tick ms => some { s with now := s.now + ms }
  | .arrive kind => some { s with requests := s.requests ++ [.new kind s.now] }
  | a => do
      let r ← a.request
      let req ← s.requests[r]?
      let (req, breakers) ← req.act cfg s a
      some { s.setRequest r req with breakers }

/-- The breaker answered `true` and has not been told how the work went. -/
def Probe.owing : Probe → Bool
  | .allowed | .working | .judged _ | .abandoned => true
  | .pending | .passed | .settled => false

/-- The call that owes the answer is still under way. -/
def Request.atWork (req : Request) (c : Component) : Prop :=
  req.inFlight = true ∧ (req.probes c).owing = true ∧ req.probes c ≠ .abandoned

/-- Every breaker that let the request through has been told, or its call is
still under way. -/
def Request.Answers (req : Request) : Prop :=
  ∀ c, (req.probes c).owing = true → req.atWork c

/-- A trial is only recorded half open, and an open breaker knows since when. -/
structure CircuitState.WellFormed (state : CircuitState) : Prop where
  trial : state.halfOpenTrial = true → state.state = .halfOpen
  since : state.state = .opened → state.openedAt ≠ none

namespace CircuitState

theorem wellFormed_new : WellFormed .new := ⟨nofun, nofun⟩

theorem onSuccess_wellFormed (state : CircuitState) : state.onSuccess.WellFormed :=
  ⟨nofun, nofun⟩

theorem takeTrial_wellFormed {state : CircuitState} (h : state.state = .halfOpen) :
    state.takeTrial.2.WellFormed := by
  unfold takeTrial
  split
  · exact ⟨fun _ => h, fun hopen => nomatch h.symm.trans hopen⟩
  · exact ⟨fun _ => h, fun hopen => nomatch h.symm.trans hopen⟩

theorem allow_wellFormed {cfg : Settings} {now : ℕ} {state : CircuitState} (h : state.WellFormed) :
    (state.allow cfg now).2.WellFormed := by
  unfold allow
  split
  · exact h
  · split
    · split
      · exact takeTrial_wellFormed rfl
      · exact h
    · exact h
  · next hhalf => exact takeTrial_wellFormed hhalf

theorem onFailure_wellFormed {cfg : Settings} {now : ℕ} {state : CircuitState}
    (h : state.WellFormed) : (state.onFailure cfg now).WellFormed := by
  unfold onFailure
  simp only
  split
  · exact ⟨nofun, fun _ => Option.some_ne_none now⟩
  · next hhalf =>
      split
      · exact ⟨fun ht => absurd (h.trial ht) hhalf, fun _ => Option.some_ne_none now⟩
      · exact ⟨h.trial, h.since⟩

/-- A failure takes the trial back. -/
theorem onFailure_trial {cfg : Settings} {now : ℕ} {state : CircuitState} (h : state.WellFormed) :
    (state.onFailure cfg now).halfOpenTrial = false := by
  unfold onFailure
  simp only
  split
  · rfl
  · next hhalf =>
      have hfree : state.halfOpenTrial = false := by
        cases ht : state.halfOpenTrial with
        | false => rfl
        | true => exact absurd (h.trial ht) hhalf
      split <;> exact hfree

/-- A refusal leaves the trial as it was. -/
theorem allow_refused {cfg : Settings} {now : ℕ} {state : CircuitState}
    (hrefused : (state.allow cfg now).1 = false) : (state.allow cfg now).2 = state := by
  unfold allow at hrefused ⊢
  unfold takeTrial at hrefused ⊢
  split at hrefused
  · cases hrefused
  · split at hrefused
    · split at hrefused
      · cases hrefused
      · next hlater => simp only [hlater, if_false]
    · rfl
  · split at hrefused
    · next ht => simp only [ht, if_true]
    · cases hrefused

end CircuitState

/-- A trial in progress has a call at work behind it. -/
structure Inv (s : System) : Prop where
  wellFormed : ∀ c, (s.breakers c).WellFormed
  answers : ∀ req ∈ s.requests, req.Answers
  trial : ∀ c, (s.breakers c).halfOpenTrial = true → ∃ req ∈ s.requests, req.atWork c

/-- What one action of one request must respect: it answers for itself, and a
trial that remains is its own or that of another request. -/
structure Keeps (s : System) (req : Request) (next : Request × (Component → CircuitState)) :
    Prop where
  wellFormed : ∀ c, (next.2 c).WellFormed
  answers : next.1.Answers
  trial : ∀ c, (next.2 c).halfOpenTrial = true →
    next.1.atWork c ∨ ((s.breakers c).halfOpenTrial = true ∧ ¬ req.atWork c)

theorem Keeps.inv {s : System} {r : ℕ} {req : Request}
    {next : Request × (Component → CircuitState)} (hi : Inv s) (h : s.requests[r]? = some req)
    (hk : Keeps s req next) : Inv { s.setRequest r next.1 with breakers := next.2 } := by
  obtain ⟨hr, hreq⟩ := List.getElem?_eq_some_iff.mp h
  refine ⟨hk.wellFormed, ?_, ?_⟩
  · intro other hother
    cases List.mem_or_eq_of_mem_set hother with
    | inl hmem => exact hi.answers other hmem
    | inr heq => exact heq ▸ hk.answers
  · intro c ht
    cases hk.trial c ht with
    | inl hwork => exact ⟨next.1, List.mem_set hr next.1, hwork⟩
    | inr hold =>
        obtain ⟨other, hother, hwork⟩ := hi.trial c hold.1
        obtain ⟨i, hi', hget⟩ := List.getElem_of_mem hother
        -- The request behind the trial is not the one that moved.
        have hne : i ≠ r := by
          intro heq
          subst heq
          rw [hreq] at hget
          exact hold.2 (hget ▸ hwork)
        refine ⟨other, ?_, hwork⟩
        apply List.mem_of_getElem? (i := i)
        change (s.requests.set r next.1)[i]? = some other
        rw [List.getElem?_set_ne (Ne.symm hne), List.getElem?_eq_getElem hi', hget]

section Probes
variable {req : Request} {c d : Component} {probe : Probe}

theorem atWork_setProbe_self :
    (req.setProbe c probe).atWork c ↔
      req.inFlight = true ∧ probe.owing = true ∧ probe ≠ .abandoned := by
  simp only [Request.atWork, Request.setProbe, Function.update_self]

theorem atWork_setProbe_ne (h : d ≠ c) : (req.setProbe c probe).atWork d ↔ req.atWork d := by
  simp only [Request.atWork, Request.setProbe, Function.update_of_ne h]

theorem answers_setProbe (h : req.Answers)
    (hprobe : probe.owing = true → req.inFlight = true ∧ probe ≠ .abandoned) :
    (req.setProbe c probe).Answers := by
  intro d howing
  by_cases hd : d = c
  · subst hd
    simp only [Request.setProbe, Function.update_self] at howing
    exact atWork_setProbe_self.mpr ⟨(hprobe howing).1, howing, (hprobe howing).2⟩
  · simp only [Request.setProbe, Function.update_of_ne hd] at howing
    exact (atWork_setProbe_ne hd).mpr (h d howing)

/-- Ending a request that owes no answer. -/
theorem answers_fail (h : ∀ c, (req.probes c).owing = false) : req.fail.Answers := by
  intro c howing
  rw [Request.fail, h c] at howing
  cases howing

end Probes

/-- The action ends a call that a breaker let through without telling the breaker:
the deadline is exhausted, there is nothing to rerank, an entity cannot be read,
the blocking task cannot be joined, or the request is dropped before the answer. -/
def Request.abandons (cfg : Settings) (now : ℕ) (req : Request) : Action → Bool
  | .enter _ _ work => work != .ready || skipsDeadline cfg.searchTimeoutMs req.startedAt now
  | .complete _ _ outcome => outcome == .joinFailed
  | .drop _ =>
      (req.probes .vector).owing || (req.probes .sparse).owing || (req.probes .reranker).owing
  | .tick _ | .arrive _ | .bypass _ _ | .ask _ _ | .record _ _ | .finish _ => false

def Answered (cfg : Settings) (s : System) (a : Action) : Prop :=
  ∀ (r : ℕ) (req : Request), a.request = some r → s.requests[r]? = some req →
    req.abandons cfg s.now a = false

section Keeps
variable {cfg : Settings} {s : System} {req : Request} {c : Component}

theorem keeps_setProbe {probe : Probe} (hi : Inv s) (hreq : req ∈ s.requests)
    (hprobe : probe.owing = true → req.inFlight = true ∧ probe ≠ .abandoned)
    (hwork : req.atWork c → probe.owing = true) :
    Keeps s req (req.setProbe c probe, s.breakers) := by
  refine ⟨hi.wellFormed, answers_setProbe (hi.answers req hreq) hprobe, ?_⟩
  intro d ht
  by_cases hat : req.atWork d
  · left
    by_cases hd : d = c
    · subst hd
      have howing := hwork hat
      exact atWork_setProbe_self.mpr ⟨hat.1, howing, (hprobe howing).2⟩
    · exact (atWork_setProbe_ne hd).mpr hat
  · exact Or.inr ⟨ht, hat⟩

/-- An action that also changes the breaker it is about. -/
theorem keeps_update {probe : Probe} {state : CircuitState} (hi : Inv s) (hreq : req ∈ s.requests)
    (hprobe : probe.owing = true → req.inFlight = true ∧ probe ≠ .abandoned)
    (hstate : state.WellFormed)
    (htrial : state.halfOpenTrial = true → (req.setProbe c probe).atWork c ∨
      ((s.breakers c).halfOpenTrial = true ∧ ¬ req.atWork c)) :
    Keeps s req (req.setProbe c probe, Function.update s.breakers c state) := by
  refine ⟨?_, answers_setProbe (hi.answers req hreq) hprobe, ?_⟩
  · intro d
    by_cases hd : d = c
    · subst hd
      simpa only [Function.update_self] using hstate
    · simpa only [Function.update_of_ne hd] using hi.wellFormed d
  · intro d ht
    by_cases hd : d = c
    · subst hd
      simp only [Function.update_self] at ht
      exact htrial ht
    · simp only [Function.update_of_ne hd] at ht
      by_cases hat : req.atWork d
      · exact Or.inl ((atWork_setProbe_ne hd).mpr hat)
      · exact Or.inr ⟨ht, hat⟩

theorem keeps_fail (hi : Inv s) (howing : ∀ d, (req.probes d).owing = false) :
    Keeps s req (req.fail, s.breakers) := by
  refine ⟨hi.wellFormed, answers_fail howing, ?_⟩
  intro d ht
  refine Or.inr ⟨ht, fun hat => ?_⟩
  have hd := hat.2.1
  rw [howing d] at hd
  cases hd

theorem mayAsk_spec (h : req.mayAsk c = true) : req.inFlight = true ∧ req.probes c = .pending := by
  simp only [Request.mayAsk, Bool.and_eq_true, beq_iff_eq] at h
  exact h.1

theorem not_atWork_of_pending (h : req.probes c = .pending) : ¬ req.atWork c := by
  intro hat
  have howing := hat.2.1
  rw [h] at howing
  cases howing

theorem ask_keeps (hi : Inv s) (hreq : req ∈ s.requests) (hask : req.mayAsk c = true) :
    Keeps s req (req.setProbe c (if ((s.breakers c).allow cfg s.now).1 then .allowed else .passed),
      Function.update s.breakers c ((s.breakers c).allow cfg s.now).2) := by
  obtain ⟨hflight, hpending⟩ := mayAsk_spec hask
  have hnot := not_atWork_of_pending hpending
  have hstate : ((s.breakers c).allow cfg s.now).2.WellFormed :=
    CircuitState.allow_wellFormed (hi.wellFormed c)
  cases hallow : ((s.breakers c).allow cfg s.now).1 with
  | true =>
      refine keeps_update hi hreq (fun _ => ⟨hflight, nofun⟩) hstate ?_
      intro _
      exact Or.inl (atWork_setProbe_self.mpr ⟨hflight, rfl, nofun⟩)
  | false =>
      refine keeps_update hi hreq nofun hstate ?_
      intro ht
      rw [CircuitState.allow_refused hallow] at ht
      exact Or.inr ⟨ht, hnot⟩

theorem record_keeps {success : Bool} (hi : Inv s) (hreq : req ∈ s.requests) :
    Keeps s req (req.setProbe c .settled, Function.update s.breakers c
      (if success then (s.breakers c).onSuccess else (s.breakers c).onFailure cfg s.now)) := by
  cases success with
  | true =>
      exact keeps_update hi hreq nofun (CircuitState.onSuccess_wellFormed (s.breakers c)) nofun
  | false =>
      have hfree : ((s.breakers c).onFailure cfg s.now).halfOpenTrial = false :=
        CircuitState.onFailure_trial (hi.wellFormed c)
      refine keeps_update hi hreq nofun (CircuitState.onFailure_wellFormed (hi.wellFormed c)) ?_
      intro ht
      exact absurd (hfree.symm.trans ht) nofun

/-- A request whose calls have all come back owes nothing. -/
theorem owing_of_ended (ha : req.Answers) (h : (req.probes c).ended = true) :
    (req.probes c).owing = false := by
  cases hp : req.probes c with
  | passed => rfl
  | settled => rfl
  | abandoned => exact absurd hp (ha c (by rw [hp]; rfl)).2.2
  | _ => rw [hp] at h; cases h

/-- An action of a request that abandons no call keeps the invariant's side of
the request. -/
theorem act_keeps {a : Action} {next : Request × (Component → CircuitState)} (hi : Inv s)
    (hreq : req ∈ s.requests) (hact : req.act cfg s a = some next)
    (hans : req.abandons cfg s.now a = false) : Keeps s req next := by
  cases a with
  | tick ms => cases hact
  | arrive kind => cases hact
  | bypass r c =>
      simp only [Request.act, Option.ite_none_right_eq_some, Option.some.injEq] at hact
      obtain ⟨hask, rfl⟩ := hact
      have hnot := not_atWork_of_pending (mayAsk_spec hask).2
      exact keeps_setProbe hi hreq nofun (fun hat => absurd hat hnot)
  | ask r c =>
      simp only [Request.act, Option.ite_none_right_eq_some, Option.some.injEq] at hact
      obtain ⟨hask, rfl⟩ := hact
      exact ask_keeps hi hreq hask
  | enter r c work =>
      simp only [Request.abandons, Bool.or_eq_false_iff, bne_eq_false_iff_eq] at hans
      obtain ⟨rfl, hdeadline⟩ := hans
      simp only [Request.act, Option.ite_none_right_eq_some, hdeadline, Bool.false_eq_true,
        if_false, Option.some.injEq] at hact
      obtain ⟨⟨hflight, _⟩, rfl⟩ := hact
      exact keeps_setProbe hi hreq (fun _ => ⟨hflight, nofun⟩) (fun _ => rfl)
  | complete r c outcome =>
      simp only [Request.act, Option.ite_none_right_eq_some] at hact
      obtain ⟨⟨hflight, _⟩, hact⟩ := hact
      cases outcome with
      | completed success =>
          obtain rfl := Option.some.inj hact
          exact keeps_setProbe hi hreq (fun _ => ⟨hflight, nofun⟩) (fun _ => rfl)
      | timedOut =>
          simp only [Option.ite_none_right_eq_some, Option.some.injEq] at hact
          obtain ⟨_, rfl⟩ := hact
          exact keeps_setProbe hi hreq (fun _ => ⟨hflight, nofun⟩) (fun _ => rfl)
      | joinFailed => cases hans
  | record r c =>
      simp only [Request.act] at hact
      split at hact
      · simp only [Option.ite_none_right_eq_some, Option.some.injEq] at hact
        obtain ⟨_, rfl⟩ := hact
        exact record_keeps hi hreq
      · cases hact
  | finish r =>
      simp only [Request.act, Option.ite_none_right_eq_some, Option.some.injEq] at hact
      obtain ⟨⟨_, hvector, hsparse, hreranker⟩, rfl⟩ := hact
      have ha := hi.answers req hreq
      refine keeps_fail hi (fun d => ?_)
      cases d with
      | vector => exact owing_of_ended ha hvector
      | sparse => exact owing_of_ended ha hsparse
      | reranker => exact owing_of_ended ha hreranker
  | drop r =>
      simp only [Request.act, Option.ite_none_right_eq_some, Option.some.injEq] at hact
      obtain ⟨_, rfl⟩ := hact
      simp only [Request.abandons, Bool.or_eq_false_iff] at hans
      refine keeps_fail hi (fun d => ?_)
      cases d with
      | vector => exact hans.1.1
      | sparse => exact hans.1.2
      | reranker => exact hans.2

end Keeps

theorem inv_new : Inv .new :=
  ⟨fun _ => CircuitState.wellFormed_new, nofun, nofun⟩

theorem arrive_inv {s : System} (hi : Inv s) (kind : Kind) :
    Inv { s with requests := s.requests ++ [.new kind s.now] } := by
  refine ⟨hi.wellFormed, ?_, ?_⟩
  · intro req hreq
    cases List.mem_append.mp hreq with
    | inl hold => exact hi.answers req hold
    | inr hnew =>
        obtain rfl := List.mem_singleton.mp hnew
        intro c howing
        simp only [Request.new] at howing
        split at howing <;> cases howing
  · intro c ht
    obtain ⟨req, hreq, hwork⟩ := hi.trial c ht
    exact ⟨req, List.mem_append_left _ hreq, hwork⟩

/-- A step of the system is the passing of time, an arrival, or an action of one
request. -/
theorem step_cases {cfg : Settings} {s t : System} {a : Action} (h : step cfg s a = some t) :
    (∃ ms, t = { s with now := s.now + ms }) ∨
      (∃ kind, t = { s with requests := s.requests ++ [.new kind s.now] }) ∨
      ∃ (r : ℕ) (req : Request) (next : Request × (Component → CircuitState)),
        a.request = some r ∧ s.requests[r]? = some req ∧ req.act cfg s a = some next ∧
          t = { s.setRequest r next.1 with breakers := next.2 } := by
  cases a with
  | tick ms => exact Or.inl ⟨ms, (Option.some.inj h).symm⟩
  | arrive kind => exact Or.inr (Or.inl ⟨kind, (Option.some.inj h).symm⟩)
  | _ =>
      right; right
      simp only [step, Action.request, Option.bind_eq_bind, Option.bind_some,
        Option.bind_eq_some_iff, Option.some.injEq] at h
      obtain ⟨req, hreq, next, hact, rfl⟩ := h
      exact ⟨_, req, next, rfl, hreq, hact, rfl⟩

theorem step_inv {cfg : Settings} {s t : System} {a : Action} (hans : Answered cfg s a)
    (hi : Inv s) (h : step cfg s a = some t) : Inv t := by
  obtain ⟨ms, rfl⟩ | ⟨kind, rfl⟩ | ⟨r, req, next, hr, hreq, hact, rfl⟩ := step_cases h
  · exact ⟨hi.wellFormed, hi.answers, hi.trial⟩
  · exact arrive_inv hi kind
  · have hmem := List.mem_of_getElem? hreq
    exact (act_keeps hi hmem hact (hans r req hr hreq)).inv hi hreq

/-- The contract of the breakers: every call let through is followed by an answer
or still under way, no trial outlives the requests, and once the open period has
elapsed the next request is let through. -/
structure Released (cfg : Settings) (s : System) : Prop where
  answers : ∀ req ∈ s.requests, req.Answers
  no_trial : (∀ req ∈ s.requests, req.inFlight = false) → ∀ c,
    ¬ ((s.breakers c).state = .halfOpen ∧ (s.breakers c).halfOpenTrial = true)
  lets_through : (∀ req ∈ s.requests, req.inFlight = false) → ∀ c,
    (∀ openedAt, (s.breakers c).openedAt = some openedAt → cfg.openDuration ≤ s.now - openedAt) →
      ((s.breakers c).allow cfg s.now).1 = true

theorem allow_of_elapsed {cfg : Settings} {now : ℕ} {state : CircuitState} (h : state.WellFormed)
    (hfree : state.halfOpenTrial = false)
    (helapsed : ∀ openedAt, state.openedAt = some openedAt → cfg.openDuration ≤ now - openedAt) :
    (state.allow cfg now).1 = true := by
  unfold CircuitState.allow
  split
  · rfl
  · next hopen =>
      obtain ⟨openedAt, hsince⟩ := Option.ne_none_iff_exists'.mp (h.since hopen)
      simp only [hsince, helapsed openedAt hsince, if_true, CircuitState.takeTrial,
        Bool.false_eq_true, if_false]
  · simp only [CircuitState.takeTrial, hfree, Bool.false_eq_true, if_false]

theorem Inv.released {cfg : Settings} {s : System} (hi : Inv s) : Released cfg s := by
  have hfree : (∀ req ∈ s.requests, req.inFlight = false) → ∀ c,
      (s.breakers c).halfOpenTrial = false := by
    intro hidle c
    cases ht : (s.breakers c).halfOpenTrial with
    | false => rfl
    | true =>
        obtain ⟨req, hreq, hwork⟩ := hi.trial c ht
        exact absurd ((hidle req hreq).symm.trans hwork.1) nofun
  refine ⟨hi.answers, ?_, ?_⟩
  · intro hidle c hstuck
    exact absurd ((hfree hidle c).symm.trans hstuck.2) nofun
  · intro hidle c helapsed
    exact allow_of_elapsed (hi.wellFormed c) (hfree hidle c) helapsed

/-- In every run in which no request abandons a call that a breaker let through,
every breaker is released. -/
theorem breakers_released (cfg : Settings) {as : List Action} {s : System}
    (hg : Guarded (step cfg) (Answered cfg) .new as) (hrun : run (step cfg) .new as = some s) :
    Released cfg s :=
  (hg.invariant Inv (fun _ _ _ ha hi h => step_inv ha hi h) inv_new hrun).released

/-- One failure opens a breaker, and requests have no deadline. -/
def strict : Settings := ⟨1, 30000, 0⟩

/-- The vector search fails and opens its breaker; after the open period the next
request has the trial, which succeeds. -/
def recovery : List Action :=
  [.arrive .search, .bypass 0 .sparse, .ask 0 .vector, .enter 0 .vector .ready,
    .complete 0 .vector (.completed false), .record 0 .vector, .bypass 0 .reranker, .finish 0,
    .tick 30000,
    .arrive .search, .ask 1 .vector, .bypass 1 .sparse, .enter 1 .vector .ready,
    .complete 1 .vector (.completed true), .record 1 .vector, .bypass 1 .reranker, .finish 1]

theorem recovery_released :
    ∃ s, run (step strict) .new recovery = some s ∧ (s.breakers .vector).state = .closed ∧
      Released strict s := by
  have hg : Guarded (step strict) (Answered strict) .new recovery := by
    apply guarded_of_forall
    intro a ha s r req hr hreq
    fin_cases ha <;> rfl
  exact ⟨_, rfl, rfl, breakers_released strict hg rfl⟩

/-- After a failure has opened the reranker's breaker, the request that has the
trial finds no rows to rerank. -/
def emptyTrial : List Action :=
  [.arrive .searchIndicator, .ask 0 .reranker, .enter 0 .reranker .ready,
    .complete 0 .reranker (.completed false), .record 0 .reranker, .finish 0,
    .tick 30000,
    .arrive .searchIndicator, .ask 1 .reranker, .enter 1 .reranker .nothing, .finish 1]

/-- The trial is never given back: the breaker refuses every later request. -/
theorem empty_trial_stuck :
    ¬ ∀ (cfg : Settings) (as : List Action) (s : System),
      run (step cfg) .new as = some s → Released cfg s := by
  intro h
  have hstuck : ∃ s, run (step strict) .new emptyTrial = some s ∧
      (∀ req ∈ s.requests, req.inFlight = false) ∧
      (s.breakers .reranker).state = .halfOpen ∧
      (s.breakers .reranker).halfOpenTrial = true := by
    refine ⟨_, rfl, ?_, rfl, rfl⟩
    intro req hreq
    fin_cases hreq <;> rfl
  obtain ⟨s, hrun, hidle, hhalf, htrial⟩ := hstuck
  exact (h strict emptyTrial s hrun).no_trial hidle .reranker ⟨hhalf, htrial⟩

end DbtNova.CircuitBreaker
