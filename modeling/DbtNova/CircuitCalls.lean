import DbtNova.CircuitBreaker

/-!
# One circuit breaker and its calls

The calls of `allow`, `on_success` and `on_failure` come in any order: a call may tell the
breaker of work that was admitted in an earlier state. Every call takes the lock and reads the
clock under it.
-/
namespace DbtNova.CircuitBreaker

inductive Call where
  | allow
  | onSuccess
  | onFailure
  deriving DecidableEq, Repr

/-- A call, and the time the clock shows in it. -/
structure TimedCall where
  now : ℕ
  call : Call
  deriving DecidableEq, Repr

def CircuitState.next (cfg : Settings) (state : CircuitState) (c : TimedCall) : CircuitState :=
  match c.call with
  | .allow => (state.allow cfg c.now).2
  | .onSuccess => state.onSuccess
  | .onFailure => state.onFailure cfg c.now

/-- The state of a new breaker after some calls. -/
def after (cfg : Settings) (calls : List TimedCall) : CircuitState :=
  calls.foldl (CircuitState.next cfg) .new

def threshold (cfg : Settings) : ℕ := max cfg.failureThreshold 1

/-- What holds in every reachable state. That an open breaker has counted enough failures is
why every later failure opens it anew. -/
structure CircuitState.Consistent (cfg : Settings) (state : CircuitState) : Prop where
  closed : state.state = .closed → state.failures < threshold cfg ∧ state.openedAt = none
  opened : state.state = .opened → state.openedAt ≠ none
  halfOpen : state.state = .halfOpen → state.halfOpenTrial = true
  failed : state.state ≠ .closed → threshold cfg ≤ state.failures

section Steps
variable {cfg : Settings} {state : CircuitState} {now : ℕ}

theorem consistent_fresh : (⟨0, none, .closed, false⟩ : CircuitState).Consistent cfg :=
  ⟨fun _ => ⟨Nat.lt_of_lt_of_le Nat.one_pos (Nat.le_max_right _ _), rfl⟩, nofun, nofun,
    fun h => absurd rfl h⟩

/-- What a call of `allow` can do: nothing, or grant the trial of a breaker that was open for
long enough. -/
theorem allow_cases (h : state.Consistent cfg) (now : ℕ) :
    (state.state = .closed ∧ state.allow cfg now = (true, state)) ∨
    (state.state ≠ .closed ∧ state.allow cfg now = (false, state)) ∨
    ∃ openedAt, state.state = .opened ∧ state.openedAt = some openedAt ∧
      cfg.openDuration ≤ now - openedAt ∧
      state.allow cfg now = (true, { state with state := .halfOpen, halfOpenTrial := true }) := by
  cases hstate : state.state with
  | closed =>
      left
      unfold CircuitState.allow
      rw [hstate]
      exact ⟨rfl, rfl⟩
  | opened =>
      obtain ⟨openedAt, hsince⟩ := Option.ne_none_iff_exists'.mp (h.opened hstate)
      right
      unfold CircuitState.allow
      simp only [hstate, hsince]
      by_cases hlong : cfg.openDuration ≤ now - openedAt
      · rw [if_pos hlong]
        exact Or.inr ⟨openedAt, trivial, rfl, hlong, rfl⟩
      · rw [if_neg hlong]
        exact Or.inl ⟨nofun, rfl⟩
  | halfOpen =>
      refine Or.inr (Or.inl ⟨nofun, ?_⟩)
      unfold CircuitState.allow
      rw [hstate]
      exact if_pos (h.halfOpen hstate)

theorem allow_consistent (h : state.Consistent cfg) (now : ℕ) :
    (state.allow cfg now).2.Consistent cfg := by
  obtain ⟨_, heq⟩ | ⟨_, heq⟩ | ⟨openedAt, hopened, _, _, heq⟩ := allow_cases h now
  · rw [heq]
    exact h
  · rw [heq]
    exact h
  · rw [heq]
    have hfailed := h.failed (by rw [hopened]; exact nofun)
    exact ⟨nofun, nofun, fun _ => rfl, fun _ => hfailed⟩

/-- A failure opens the breaker now, or is one of too few. -/
theorem onFailure_cases (h : state.Consistent cfg) (now : ℕ) :
    (∃ trial, threshold cfg ≤ state.failures + 1 ∧
      state.onFailure cfg now = ⟨state.failures + 1, some now, .opened, trial⟩) ∨
    (state.state = .closed ∧ state.failures + 1 < threshold cfg ∧
      state.onFailure cfg now = { state with failures := state.failures + 1 }) := by
  unfold CircuitState.onFailure
  dsimp only
  by_cases hhalf : state.state = .halfOpen
  · rw [if_pos hhalf]
    have hfailed := h.failed (by rw [hhalf]; exact nofun)
    exact Or.inl ⟨false, Nat.le_succ_of_le hfailed, rfl⟩
  · rw [if_neg hhalf]
    by_cases hfailures : max cfg.failureThreshold 1 ≤ state.failures + 1
    · rw [if_pos hfailures]
      exact Or.inl ⟨state.halfOpenTrial, hfailures, rfl⟩
    · rw [if_neg hfailures]
      have hclosed : state.state = .closed := by
        by_contra hne
        exact hfailures (Nat.le_succ_of_le (h.failed hne))
      exact Or.inr ⟨hclosed, Nat.not_le.mp hfailures, rfl⟩

theorem onFailure_consistent (h : state.Consistent cfg) (now : ℕ) :
    (state.onFailure cfg now).Consistent cfg := by
  obtain ⟨trial, hfailures, heq⟩ | ⟨hclosed, hfew, heq⟩ := onFailure_cases h now
  · rw [heq]
    exact ⟨nofun, fun _ => Option.some_ne_none now, nofun, fun _ => hfailures⟩
  · rw [heq]
    refine ⟨fun _ => ⟨hfew, (h.closed hclosed).2⟩, h.opened, h.halfOpen, ?_⟩
    exact fun hne => absurd hclosed hne

theorem next_consistent (h : state.Consistent cfg) (c : TimedCall) :
    (state.next cfg c).Consistent cfg := by
  unfold CircuitState.next
  cases c.call with
  | allow => exact allow_consistent h c.now
  | onSuccess => exact consistent_fresh
  | onFailure => exact onFailure_consistent h c.now

end Steps

section Runs
variable {cfg : Settings}

theorem foldl_consistent {state : CircuitState} (h : state.Consistent cfg)
    (calls : List TimedCall) : (calls.foldl (CircuitState.next cfg) state).Consistent cfg := by
  induction calls generalizing state with
  | nil => exact h
  | cons c calls ih =>
      rw [List.foldl_cons]
      exact ih (next_consistent h c)

theorem after_consistent (cfg : Settings) (calls : List TimedCall) :
    (after cfg calls).Consistent cfg := foldl_consistent consistent_fresh calls

theorem after_append (calls more : List TimedCall) :
    after cfg (calls ++ more) = more.foldl (CircuitState.next cfg) (after cfg calls) :=
  List.foldl_append

/-- `allow` answers `true` and leaves the breaker half open. -/
def GrantsTrial (cfg : Settings) (state : CircuitState) (now : ℕ) : Prop :=
  (state.allow cfg now).1 = true ∧ (state.allow cfg now).2.state = .halfOpen

/-- Calls of `allow` alone keep a half-open breaker as it is. -/
theorem foldl_halfOpen {state : CircuitState} (h : state.Consistent cfg)
    (hhalf : state.state = .halfOpen) {calls : List TimedCall}
    (hcalls : ∀ c ∈ calls, c.call = .allow) :
    calls.foldl (CircuitState.next cfg) state = state := by
  induction calls with
  | nil => rfl
  | cons c calls ih =>
      have hsame : state.next cfg c = state := by
        unfold CircuitState.next
        rw [hcalls c List.mem_cons_self]
        obtain ⟨hclosed, _⟩ | ⟨_, heq⟩ | ⟨_, hopened, _⟩ := allow_cases h c.now
        · rw [hhalf] at hclosed
          contradiction
        · exact congrArg Prod.snd heq
        · rw [hhalf] at hopened
          contradiction
      rw [List.foldl_cons, hsame]
      exact ih fun c hc => hcalls c (List.mem_cons_of_mem _ hc)

theorem grantsTrial_opened {state : CircuitState} (h : state.Consistent cfg) {now : ℕ}
    (hgrant : GrantsTrial cfg state now) : state.state = .opened := by
  obtain ⟨hanswer, hhalf⟩ := hgrant
  obtain ⟨hclosed, heq⟩ | ⟨_, heq⟩ | ⟨_, hopened, _⟩ := allow_cases h now
  · rw [heq, hclosed] at hhalf
    contradiction
  · rw [heq] at hanswer
    contradiction
  · exact hopened

/-- As long as no failure comes, an open breaker is the one that the last failure opened. -/
theorem foldl_openedAt {state : CircuitState} (h : state.Consistent cfg) {failedAt : ℕ}
    (hsince : state.state = .opened → state.openedAt = some failedAt) {calls : List TimedCall}
    (hcalls : ∀ c ∈ calls, c.call ≠ .onFailure)
    (hopened : (calls.foldl (CircuitState.next cfg) state).state = .opened) :
    (calls.foldl (CircuitState.next cfg) state).openedAt = some failedAt := by
  induction calls generalizing state with
  | nil => exact hsince hopened
  | cons c calls ih =>
      rw [List.foldl_cons] at hopened ⊢
      refine ih (next_consistent h c) ?_ (fun c hc => hcalls c (List.mem_cons_of_mem _ hc)) hopened
      unfold CircuitState.next
      cases hcall : c.call with
      | allow =>
          obtain ⟨_, heq⟩ | ⟨_, heq⟩ | ⟨_, _, _, _, heq⟩ := allow_cases h c.now
          · rw [heq]
            exact hsince
          · rw [heq]
            exact hsince
          · rw [heq]
            exact nofun
      | onSuccess => exact nofun
      | onFailure => exact absurd hcall (hcalls c List.mem_cons_self)

theorem onFailure_openedAt {state : CircuitState} (h : state.Consistent cfg) (now : ℕ)
    (hopened : (state.onFailure cfg now).state = .opened) :
    (state.onFailure cfg now).openedAt = some now := by
  obtain ⟨trial, _, heq⟩ | ⟨hclosed, _, heq⟩ := onFailure_cases h now
  · rw [heq]
  · rw [heq, hclosed] at hopened
    contradiction

theorem allow_too_early {state : CircuitState} (h : state.Consistent cfg) {failedAt now : ℕ}
    (hopened : state.state = .opened) (hsince : state.openedAt = some failedAt)
    (hnow : now - failedAt < cfg.openDuration) : state.allow cfg now = (false, state) := by
  obtain ⟨hclosed, _⟩ | ⟨_, heq⟩ | ⟨openedAt, _, hat, hlong, _⟩ := allow_cases h now
  · rw [hopened] at hclosed
    contradiction
  · exact heq
  · rw [hsince] at hat
    obtain rfl := Option.some.inj hat
    omega

/-- Within the open period an open breaker stays as it is. -/
theorem foldl_too_early {state : CircuitState} (h : state.Consistent cfg) {failedAt : ℕ}
    (hopened : state.state = .opened) (hsince : state.openedAt = some failedAt)
    {calls : List TimedCall} (hcalls : ∀ c ∈ calls, c.call = .allow)
    (hnow : ∀ c ∈ calls, c.now - failedAt < cfg.openDuration) :
    calls.foldl (CircuitState.next cfg) state = state := by
  induction calls with
  | nil => rfl
  | cons c calls ih =>
      have hsame : state.next cfg c = state := by
        unfold CircuitState.next
        rw [hcalls c List.mem_cons_self,
          allow_too_early h hopened hsince (hnow c List.mem_cons_self)]
      rw [List.foldl_cons, hsame]
      exact ih (fun c hc => hcalls c (List.mem_cons_of_mem _ hc))
        (fun c hc => hnow c (List.mem_cons_of_mem _ hc))

end Runs

/-- The contract of a breaker after a run of calls. -/
structure Contract (cfg : Settings) (calls : List TimedCall) : Prop where
  closed : (after cfg calls).state = .closed →
    (after cfg calls).failures < threshold cfg ∧ (after cfg calls).openedAt = none
  opened : (after cfg calls).state = .opened → (after cfg calls).openedAt ≠ none
  halfOpen : (after cfg calls).state = .halfOpen → (after cfg calls).halfOpenTrial = true
  /-- Somebody is told how the first of two trials went before the second is granted. -/
  trials : ∀ before first between second rest,
    calls = before ++ ⟨first, .allow⟩ :: (between ++ ⟨second, .allow⟩ :: rest) →
    GrantsTrial cfg (after cfg before) first →
    GrantsTrial cfg (after cfg (before ++ ⟨first, .allow⟩ :: between)) second →
    ∃ c ∈ between, c.call = .onSuccess ∨ c.call = .onFailure
  /-- The last failure is in front of `between`, and the breaker is open behind `between`. -/
  refuses : ∀ before failedAt between later now rest,
    calls = before ++ ⟨failedAt, .onFailure⟩ :: (between ++ later) ++ ⟨now, .allow⟩ :: rest →
    (∀ c ∈ between ++ later, c.call ≠ .onFailure) →
    (after cfg (before ++ ⟨failedAt, .onFailure⟩ :: between)).state = .opened →
    now - failedAt < cfg.openDuration → (∀ c ∈ later, c.call ≠ .onSuccess) →
    ((after cfg (before ++ ⟨failedAt, .onFailure⟩ :: (between ++ later))).allow cfg now).1 = false

theorem trials_told {cfg : Settings} {before between : List TimedCall} {first second : ℕ}
    (hfirst : GrantsTrial cfg (after cfg before) first)
    (hsecond : GrantsTrial cfg (after cfg (before ++ ⟨first, .allow⟩ :: between)) second) :
    ∃ c ∈ between, c.call = .onSuccess ∨ c.call = .onFailure := by
  by_contra hnone
  have hcalls : ∀ c ∈ between, c.call = .allow := by
    intro c hc
    cases hcall : c.call with
    | allow => rfl
    | onSuccess => exact absurd ⟨c, hc, Or.inl hcall⟩ hnone
    | onFailure => exact absurd ⟨c, hc, Or.inr hcall⟩ hnone
  have hopened := grantsTrial_opened (after_consistent cfg _) hsecond
  have hnext : (after cfg before).next cfg ⟨first, .allow⟩ =
      ((after cfg before).allow cfg first).2 := rfl
  have hstays := foldl_halfOpen (allow_consistent (after_consistent cfg before) first)
    hfirst.2 hcalls
  rw [after_append, List.foldl_cons, hnext, hstays, hfirst.2] at hopened
  contradiction

theorem refuses_early {cfg : Settings} {before between later : List TimedCall}
    {failedAt now : ℕ} (hfailures : ∀ c ∈ between ++ later, c.call ≠ .onFailure)
    (hopened : (after cfg (before ++ ⟨failedAt, .onFailure⟩ :: between)).state = .opened)
    (hnow : now - failedAt < cfg.openDuration) (hclock : ∀ c ∈ later, c.now ≤ now)
    (hsuccess : ∀ c ∈ later, c.call ≠ .onSuccess) :
    ((after cfg (before ++ ⟨failedAt, .onFailure⟩ :: (between ++ later))).allow cfg now).1 =
      false := by
  have hconsistent := after_consistent cfg (before ++ ⟨failedAt, .onFailure⟩ :: between)
  have hsince : (after cfg (before ++ ⟨failedAt, .onFailure⟩ :: between)).openedAt =
      some failedAt := by
    rw [after_append, List.foldl_cons] at hopened ⊢
    exact foldl_openedAt (onFailure_consistent (after_consistent cfg before) failedAt)
      (onFailure_openedAt (after_consistent cfg before) failedAt)
      (fun c hc => hfailures c (List.mem_append_left _ hc)) hopened
  have hcalls : ∀ c ∈ later, c.call = .allow := by
    intro c hc
    cases hcall : c.call with
    | allow => rfl
    | onSuccess => exact absurd hcall (hsuccess c hc)
    | onFailure => exact absurd hcall (hfailures c (List.mem_append_right _ hc))
  rw [← List.cons_append, ← List.append_assoc, after_append, foldl_too_early hconsistent hopened
    hsince hcalls fun c hc => (Nat.sub_le_sub_right (hclock c hc) failedAt).trans_lt hnow]
  exact congrArg Prod.fst (allow_too_early hconsistent hopened hsince hnow)

/-- Every run of calls under a clock that does not go back keeps the contract. -/
theorem breaker_contract (cfg : Settings) {calls : List TimedCall}
    (hclock : calls.Pairwise fun a b => a.now ≤ b.now) : Contract cfg calls where
  closed := (after_consistent cfg calls).closed
  opened := (after_consistent cfg calls).opened
  halfOpen := (after_consistent cfg calls).halfOpen
  trials := fun _ _ _ _ _ _ hfirst hsecond => trials_told hfirst hsecond
  refuses := by
    intro before failedAt between later now rest hcalls hfailures hopened hnow hsuccess
    refine refuses_early hfailures hopened hnow ?_ hsuccess
    intro c hc
    rw [hcalls] at hclock
    apply (List.pairwise_append.mp hclock).2.2 c ?_ _ List.mem_cons_self
    exact List.mem_append_right _ (List.mem_cons_of_mem _ (List.mem_append_right _ hc))

/-- The trial fails, and a call admitted before the breaker opened succeeds. -/
def staleCalls : List TimedCall :=
  [⟨0, .onFailure⟩, ⟨10000, .allow⟩, ⟨30000, .allow⟩, ⟨30001, .onFailure⟩, ⟨30002, .onSuccess⟩,
    ⟨30003, .allow⟩]

theorem staleCalls_contract :
    (after strict staleCalls).state = .closed ∧ Contract strict staleCalls :=
  ⟨rfl, breaker_contract strict (by decide)⟩

end DbtNova.CircuitBreaker
