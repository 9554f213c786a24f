import DbtNova.TransitionSystem
import Mathlib.Algebra.Order.Ring.Nat

/-!
# Snowflake sessions from the browser

All requests of one account share a session that a user has to confirm in the browser. A request
looks for the session under a lock and keeps the lock while it logs in. A request that the
warehouse turns away throws the session away and is sent once more. Any request may be dropped at
any time, which gives the lock back. Sessions are numbered in the order of the logins.
-/
namespace DbtNova.SnowflakeSessions
open TransitionSystem

/-- Where a request stands; `retry` is the session that was turned away before. -/
inductive Phase where
  | authorizing (retry : Option ℕ)
  | loggingIn (retry : Option ℕ)
  | sending (retry : Option ℕ) (session : ℕ)
  | clearing (session : ℕ)
  | ended
  deriving DecidableEq, Repr

inductive Act where
  | lookUp
  | loginDone
  | loginFailed
  | answered
  | turnedAway
  | clear
  | drop
  deriving DecidableEq, Repr

/-- A request takes a step, or the time of the session in the cache runs out. -/
inductive Move where
  | request (i : ℕ) (act : Act)
  | expire
  deriving DecidableEq, Repr

structure Cache where
  session : Option ℕ
  expired : Bool
  logins : ℕ
  deriving DecidableEq, Repr

structure State where
  cache : Cache
  calls : List Phase
  deriving DecidableEq, Repr

def Phase.holdsLock : Phase → Bool
  | .loggingIn _ => true
  | _ => false

def Cache.valid (cache : Cache) : Option ℕ := if cache.expired then none else cache.session

def advance (cache : Cache) : Phase → Act → Option (Cache × Phase)
  | .authorizing retry, .lookUp =>
      match cache.valid with
      | some session => some (cache, .sending retry session)
      | none => some (cache, .loggingIn retry)
  | .loggingIn retry, .loginDone =>
      some (⟨some cache.logins, false, cache.logins + 1⟩, .sending retry cache.logins)
  | .loggingIn _, .loginFailed => some (cache, .ended)
  | .sending _ _, .answered => some (cache, .ended)
  | .sending none session, .turnedAway => some (cache, .clearing session)
  | .sending (some _) _, .turnedAway => some (cache, .ended)
  | .clearing session, .clear =>
      some ({ cache with session := none }, .authorizing (some session))
  | .ended, .drop => none
  | _, .drop => some (cache, .ended)
  | _, _ => none

/-- Whether a request needs the lock for this step and does not hold it. -/
def Act.locks : Act → Bool
  | .lookUp | .clear => true
  | _ => false

def step (s : State) : Move → Option State
  | .expire => some { s with cache := { s.cache with expired := true } }
  | .request i act =>
      match s.calls[i]? with
      | none => none
      | some phase =>
          if act.locks && s.calls.any Phase.holdsLock then none
          else
            (advance s.cache phase act).map fun next => ⟨next.1, s.calls.set i next.2⟩

def start (calls : ℕ) : State :=
  ⟨⟨none, false, 0⟩, List.replicate calls (.authorizing none)⟩

/-! ## Every step -/

/-- What a request does to the cache and to itself. -/
inductive RequestStep (cache : Cache) : Phase → Act → Cache → Phase → Prop where
  | found (retry : Option ℕ) (session : ℕ) (h : cache.session = some session) :
      RequestStep cache (.authorizing retry) .lookUp cache (.sending retry session)
  | missing (retry : Option ℕ) (h : cache.session = none ∨ cache.expired = true) :
      RequestStep cache (.authorizing retry) .lookUp cache (.loggingIn retry)
  | loggedIn (retry : Option ℕ) :
      RequestStep cache (.loggingIn retry) .loginDone ⟨some cache.logins, false, cache.logins + 1⟩
        (.sending retry cache.logins)
  | finished (phase : Phase) (act : Act) (h : act.locks = false) :
      RequestStep cache phase act cache .ended
  | turnedAway (session : ℕ) :
      RequestStep cache (.sending none session) .turnedAway cache (.clearing session)
  | cleared (session : ℕ) :
      RequestStep cache (.clearing session) .clear { cache with session := none }
        (.authorizing (some session))

theorem advance_cases {cache cache' : Cache} {phase phase' : Phase} {act : Act}
    (h : advance cache phase act = some (cache', phase')) :
    RequestStep cache phase act cache' phase' := by
  cases phase with
  | authorizing retry =>
      cases act <;> try cases h
      case lookUp =>
          simp only [advance, Cache.valid] at h
          cases hexpired : cache.expired with
          | true =>
              rw [hexpired] at h
              cases h
              exact .missing retry (Or.inr hexpired)
          | false =>
              rw [hexpired] at h
              cases hsession : cache.session with
              | none =>
                  rw [hsession] at h
                  cases h
                  exact .missing retry (Or.inl hsession)
              | some session =>
                  rw [hsession] at h
                  cases h
                  exact .found retry session hsession
      case drop.refl => exact .finished _ _ rfl
  | loggingIn retry =>
      cases act <;> cases h
      case loginDone.refl => exact .loggedIn retry
      case loginFailed.refl => exact .finished _ _ rfl
      case drop.refl => exact .finished _ _ rfl
  | sending retry session =>
      cases act <;> try cases h
      case answered.refl => exact .finished _ _ rfl
      case turnedAway =>
          cases retry with
          | none =>
              cases h
              exact .turnedAway session
          | some old =>
              cases h
              exact .finished _ _ rfl
      case drop.refl => exact .finished _ _ rfl
  | clearing session =>
      cases act <;> cases h
      case clear.refl => exact .cleared session
      case drop.refl => exact .finished _ _ rfl
  | ended => cases act <;> cases h

theorem step_cases {s t : State} {i : ℕ} {act : Act} (h : step s (.request i act) = some t) :
    ∃ phase cache' phase', s.calls[i]? = some phase ∧
      (act.locks = true → ∀ call ∈ s.calls, call.holdsLock = false) ∧
      RequestStep s.cache phase act cache' phase' ∧ t = ⟨cache', s.calls.set i phase'⟩ := by
  simp only [step] at h
  split at h
  · cases h
  · rename_i phase hphase
    split at h
    · cases h
    · rename_i hlock
      rw [Option.map_eq_some_iff] at h
      obtain ⟨next, hnext, ht⟩ := h
      refine ⟨phase, next.1, next.2, hphase, fun hlocks call hcall => ?_, advance_cases hnext,
        ht.symm⟩
      rw [hlocks, Bool.true_and, Bool.not_eq_true, List.any_eq_false] at hlock
      exact Bool.eq_false_iff.mpr (hlock call hcall)

/-! ## The session of a second attempt -/

/-- A request knows sessions of the past only. Since it cleared the cache, what is there is newer
than the session that was turned away. -/
def Phase.Fresh (cache : Cache) : Phase → Prop
  | .authorizing retry | .loggingIn retry =>
      ∀ old ∈ retry, old < cache.logins ∧ ∀ session ∈ cache.session, old < session
  | .sending retry session => session < cache.logins ∧ ∀ old ∈ retry, old < session
  | .clearing session => session < cache.logins
  | .ended => True

structure Fresh (s : State) : Prop where
  cached : ∀ session ∈ s.cache.session, session < s.cache.logins
  calls : ∀ call ∈ s.calls, call.Fresh s.cache

section Sessions
variable {cache cache' : Cache} {s t : State} {phase phase' : Phase} {act : Act} {move : Move}

theorem RequestStep.fresh (h : RequestStep cache phase act cache' phase')
    (hcached : ∀ session ∈ cache.session, session < cache.logins) (hphase : phase.Fresh cache) :
    phase'.Fresh cache' := by
  cases h with
  | found retry session hsession =>
      exact ⟨hcached session hsession, fun old hold => (hphase old hold).2 session hsession⟩
  | missing retry hnone => exact hphase
  | loggedIn retry => exact ⟨Nat.lt_succ_self _, fun old hold => (hphase old hold).1⟩
  | finished => trivial
  | turnedAway session => exact hphase.1
  | cleared session =>
      rintro old ⟨⟩
      exact ⟨hphase, fun session hsession => by cases hsession⟩

/-- What others know stays so. -/
theorem RequestStep.frame {call : Phase} (h : RequestStep cache phase act cache' phase')
    (hcall : call.Fresh cache) : call.Fresh cache' := by
  cases h with
  | loggedIn retry =>
      cases call with
      | authorizing other =>
          intro old hold
          refine ⟨Nat.lt_succ_of_lt (hcall old hold).1, ?_⟩
          rintro session ⟨⟩
          exact (hcall old hold).1
      | loggingIn other =>
          intro old hold
          refine ⟨Nat.lt_succ_of_lt (hcall old hold).1, ?_⟩
          rintro session ⟨⟩
          exact (hcall old hold).1
      | sending other session => exact ⟨Nat.lt_succ_of_lt hcall.1, hcall.2⟩
      | clearing session => exact Nat.lt_succ_of_lt hcall
      | ended => trivial
  | cleared session =>
      cases call with
      | authorizing other =>
          intro old hold
          exact ⟨(hcall old hold).1, fun session hsession => by cases hsession⟩
      | loggingIn other =>
          intro old hold
          exact ⟨(hcall old hold).1, fun session hsession => by cases hsession⟩
      | sending other session => exact hcall
      | clearing session => exact hcall
      | ended => trivial
  | _ => exact hcall

theorem RequestStep.cached (h : RequestStep cache phase act cache' phase')
    (hcached : ∀ session ∈ cache.session, session < cache.logins) :
    ∀ session ∈ cache'.session, session < cache'.logins := by
  cases h with
  | loggedIn retry =>
      rintro session ⟨⟩
      exact Nat.lt_succ_self _
  | cleared session => exact fun session hsession => by cases hsession
  | _ => exact hcached

theorem fresh_step (h : Fresh s) (hstep : step s move = some t) : Fresh t := by
  cases move with
  | expire =>
      cases hstep
      exact ⟨h.cached, fun call hcall => by
        have hfresh := h.calls call hcall
        cases call <;> exact hfresh⟩
  | request i act =>
      obtain ⟨phase, cache', phase', hphase, -, hrequest, rfl⟩ := step_cases hstep
      refine ⟨hrequest.cached h.cached, fun call hcall => ?_⟩
      rcases List.mem_or_eq_of_mem_set hcall with hold | rfl
      · exact hrequest.frame (h.calls call hold)
      · exact hrequest.fresh h.cached (h.calls phase (List.mem_of_getElem? hphase))

/-- A request is never sent again with the session that was turned away, nor with an older one. -/
theorem retry_newer {calls i old session : ℕ} {moves : List Move}
    (hrun : run step (start calls) moves = some t)
    (hsending : t.calls[i]? = some (.sending (some old) session)) : old < session := by
  have hstart : Fresh (start calls) := by
    refine ⟨(fun session hsession => by cases hsession), fun call hcall => ?_⟩
    rw [List.eq_of_mem_replicate hcall]
    exact fun old hold => by cases hold
  have hfresh := run_invariant Fresh (fun s move t => fresh_step) hstart hrun
  exact (hfresh.calls _ (List.mem_of_getElem? hsending)).2 old rfl

/-! ## How often a user has to log in -/

def State.holders (s : State) : ℕ := s.calls.countP Phase.holdsLock

/-- The moves after which a session has to be made anew. -/
def Move.resets : Move → Bool
  | .expire | .request _ .clear => true
  | _ => false

/-- The logins there were, with the one that is to come next. -/
def State.budget (s : State) : ℕ :=
  s.cache.logins + if s.cache.session = none ∨ s.cache.expired = true ∨ 0 < s.holders then 1 else 0

theorem budget_step (hone : s.holders ≤ 1) (hstep : step s move = some t) :
    t.holders ≤ 1 ∧ t.budget ≤ s.budget + if move.resets then 1 else 0 := by
  cases move with
  | expire =>
      cases hstep
      refine ⟨hone, ?_⟩
      simp only [State.budget, Move.resets, if_true, or_true, true_or]
      omega
  | request i act =>
      obtain ⟨phase, cache', phase', hphase, hlock, hrequest, rfl⟩ := step_cases hstep
      have hmove := countP_set_add (p := Phase.holdsLock) (b := phase') hphase
      have hfree (hlocks : act.locks = true) : s.holders = 0 :=
        List.countP_eq_zero.mpr fun call hcall => by simp [hlock hlocks call hcall]
      have hholders (hold : phase.holdsLock = false) (hnew : phase'.holdsLock = false) :
          State.holders ⟨cache', s.calls.set i phase'⟩ = s.holders := by
        simp only [hold, hnew, Bool.false_eq_true, if_false] at hmove
        exact hmove
      cases hrequest with
      | found retry session hsession =>
          have hsame := hholders rfl rfl
          refine ⟨by omega, ?_⟩
          simp only [State.budget, hsame]
          omega
      | missing retry hnone =>
          have hone' : State.holders ⟨s.cache, s.calls.set i (.loggingIn retry)⟩ = 1 := by
            have hzero := hfree rfl
            simp only [State.holders, Phase.holdsLock, Bool.false_eq_true, if_false, if_true] at *
            omega
          refine ⟨hone'.le, ?_⟩
          have hbefore : s.cache.session = none ∨ s.cache.expired = true ∨ 0 < s.holders :=
            hnone.imp id Or.inl
          simp only [State.budget, if_pos hbefore]
          split <;> omega
      | loggedIn retry =>
          have hheld : 0 < s.holders :=
            List.countP_pos_iff.mpr ⟨_, List.mem_of_getElem? hphase, rfl⟩
          have hnone : State.holders ⟨⟨some s.cache.logins, false, s.cache.logins + 1⟩,
              s.calls.set i (.sending retry s.cache.logins)⟩ = 0 := by
            simp only [State.holders, Phase.holdsLock, Bool.false_eq_true, if_false, if_true] at *
            omega
          refine ⟨by omega, ?_⟩
          simp only [State.budget, hnone, hheld, or_true, if_true, reduceCtorEq, Bool.false_eq_true,
            Nat.lt_irrefl, or_false, if_false]
          omega
      | finished phase act hlocks =>
          have hfewer : State.holders ⟨s.cache, s.calls.set i .ended⟩ ≤ s.holders := by
            simp only [State.holders, Phase.holdsLock, Bool.false_eq_true, if_false] at *
            omega
          refine ⟨by omega, ?_⟩
          have hless : State.budget ⟨s.cache, s.calls.set i .ended⟩ ≤ s.budget := by
            simp only [State.budget]
            split
            · rename_i hneeds
              rw [if_pos (hneeds.imp id (Or.imp id fun hheld => by omega))]
            · omega
          omega
      | turnedAway session =>
          have hsame := hholders rfl rfl
          refine ⟨by omega, ?_⟩
          simp only [State.budget, hsame]
          omega
      | cleared session =>
          have hsame := hholders rfl rfl
          refine ⟨by omega, ?_⟩
          simp only [State.budget, Move.resets, true_or, if_true]
          omega

/-- Never do two requests log in at the same time, and a user has to log in once and once more
for each session that ran out or was thrown away. -/
theorem logins_bounded {calls : ℕ} {moves : List Move}
    (hrun : run step (start calls) moves = some t) :
    t.holders ≤ 1 ∧ t.cache.logins ≤ 1 + moves.countP Move.resets := by
  have hbudget : ∀ (moves : List Move) (s : State), s.holders ≤ 1 →
      run step s moves = some t →
        t.holders ≤ 1 ∧ t.budget ≤ s.budget + moves.countP Move.resets := by
    intro moves
    induction moves with
    | nil =>
        intro s hone hrun
        cases hrun
        exact ⟨hone, Nat.le_refl _⟩
    | cons move moves ih =>
        intro s hone hrun
        obtain ⟨u, hu, hut⟩ := run_cons.mp hrun
        obtain ⟨hone', hfirst⟩ := budget_step hone hu
        obtain ⟨hone'', hrest⟩ := ih u hone' hut
        refine ⟨hone'', ?_⟩
        rw [List.countP_cons]
        omega
  have hnone : (start calls).holders = 0 :=
    List.countP_eq_zero.mpr fun call hcall => by
      rw [List.eq_of_mem_replicate hcall]
      simp [Phase.holdsLock]
  obtain ⟨hone, hmost⟩ := hbudget moves (start calls) (by omega) hrun
  have hstart : (start calls).budget = 1 := by simp [State.budget, start]
  have hlogins : t.cache.logins ≤ t.budget := Nat.le_add_right _ _
  exact ⟨hone, by omega⟩

/-- Both requests are turned away with the first session, and the second one meets a new one. -/
def sharedMoves : List Move :=
  [.request 0 .lookUp, .request 0 .loginDone, .request 1 .lookUp, .request 0 .turnedAway,
    .request 1 .turnedAway, .request 0 .clear, .request 0 .lookUp, .request 0 .loginDone,
    .request 1 .clear, .request 0 .answered, .request 1 .lookUp, .request 1 .loginDone]

def sharedEnd : State := ⟨⟨some 2, false, 3⟩, [.ended, .sending (some 0) 2]⟩

theorem shared_run : run step (start 2) sharedMoves = some sharedEnd := by decide

theorem retry_newer_shared : 0 < 2 :=
  retry_newer (i := 1) shared_run rfl

theorem logins_bounded_shared :
    sharedEnd.holders ≤ 1 ∧ sharedEnd.cache.logins ≤ 1 + sharedMoves.countP Move.resets :=
  logins_bounded shared_run

end Sessions

end DbtNova.SnowflakeSessions
