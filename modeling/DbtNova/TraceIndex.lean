import DbtNova.TransitionSystem
import Mathlib.Algebra.Order.Ring.Nat
import Mathlib.Data.List.Perm.Basic
import Mathlib.Data.List.Range

/-!
# The numbers of tool calls

The calls of a process take their numbers from one atomic counter. The counter starts with a
value that means it has no value yet. A call that finds it so counts the rows of the trace file
and puts their number in, unless another call was faster. Each access to the counter is one step,
and between two steps of a call others may run.
-/
namespace DbtNova.TraceIndex
open TransitionSystem

def uninitializedToolCallIndex : ℕ := 2 ^ 64 - 1

/-- Where a call stands in `next_tool_call_index`. -/
inductive Phase where
  | loading
  | counting
  | exchanging (seed : ℕ)
  | adding
  | finished (index : ℕ)
  deriving DecidableEq, Repr

/-- `count n` finds `n` rows in the trace file. -/
inductive Act where
  | load
  | count (rows : ℕ)
  | compareExchange
  | fetchAdd
  deriving DecidableEq, Repr

def advance (counter : ℕ) : Phase → Act → Option (ℕ × Phase)
  | .loading, .load =>
      if counter ≠ uninitializedToolCallIndex then some (counter, .adding)
      else some (counter, .counting)
  | .counting, .count rows => some (counter, .exchanging rows)
  | .exchanging seed, .compareExchange =>
      if counter = uninitializedToolCallIndex then some (seed, .adding)
      else some (counter, .loading)
  | .adding, .fetchAdd => some ((counter + 1) % 2 ^ 64, .finished counter)
  | _, _ => none

structure State where
  counter : ℕ
  calls : List Phase
  deriving DecidableEq, Repr

def step (s : State) (move : ℕ × Act) : Option State :=
  match s.calls[move.1]? with
  | none => none
  | some phase =>
      (advance s.counter phase move.2).map fun next => ⟨next.1, s.calls.set move.1 next.2⟩

def start (calls : ℕ) : State :=
  ⟨uninitializedToolCallIndex, List.replicate calls .loading⟩

def Phase.index? : Phase → Option ℕ
  | .finished index => some index
  | _ => none

/-- The numbers that have been given to calls. -/
def State.indices (s : State) : List ℕ := s.calls.filterMap Phase.index?

/-! ## Counting -/

section SetPhase
variable {calls : List Phase} {i : ℕ} {phase phase' : Phase}

theorem filterMap_set_eq (hphase : calls[i]? = some phase) (hold : phase.index? = none)
    (hnew : phase'.index? = none) :
    (calls.set i phase').filterMap Phase.index? = calls.filterMap Phase.index? := by
  induction calls generalizing i with
  | nil => rfl
  | cons call calls ih =>
      cases i with
      | zero =>
          cases hphase
          rw [List.set_cons_zero, List.filterMap_cons_none hnew, List.filterMap_cons_none hold]
      | succ i =>
          have hrest := ih hphase
          rw [List.set_cons_succ, List.filterMap_cons, List.filterMap_cons, hrest]

theorem filterMap_set_perm (index : ℕ) (hphase : calls[i]? = some phase)
    (hold : phase.index? = none) :
    ((calls.set i (.finished index)).filterMap Phase.index?).Perm
      (index :: calls.filterMap Phase.index?) := by
  induction calls generalizing i with
  | nil => cases hphase
  | cons call calls ih =>
      cases i with
      | zero =>
          cases hphase
          rw [List.set_cons_zero, List.filterMap_cons_none hold]
          exact List.Perm.refl _
      | succ i =>
          have hrest := ih hphase
          rw [List.set_cons_succ]
          cases hcase : call.index? with
          | none =>
              rw [List.filterMap_cons_none hcase, List.filterMap_cons_none hcase]
              exact hrest
          | some other =>
              rw [List.filterMap_cons_some hcase, List.filterMap_cons_some hcase]
              exact (hrest.cons other).trans (List.Perm.swap _ _ _)

/-- A call that is not through has no number yet. -/
theorem length_indices_lt (hphase : calls[i]? = some phase) (hold : phase.index? = none) :
    (calls.filterMap Phase.index?).length < calls.length := by
  have hperm := filterMap_set_perm 0 hphase hold
  have hle := List.length_filterMap_le Phase.index? (calls.set i (.finished 0))
  rw [hperm.length_eq, List.length_cons, List.length_set] at hle
  omega

end SetPhase

/-! ## Every run -/

/-- Before the first exchange nobody has a number, and nobody is about to take one. Afterwards
the numbers given are those from the seed up to the counter. -/
def Numbered (counted : ℕ → Prop) (limit : ℕ) (s : State) : Prop :=
  s.calls.length = limit ∧ (∀ seed, .exchanging seed ∈ s.calls → counted seed) ∧
    ((s.counter = uninitializedToolCallIndex ∧ s.indices = [] ∧ .adding ∉ s.calls) ∨
      ∃ seed, counted seed ∧ s.counter = seed + s.indices.length ∧
        s.indices.Perm (List.range' seed s.indices.length))

theorem step_cases {s t : State} {i : ℕ} {act : Act} (hstep : step s (i, act) = some t) :
    ∃ phase counter' phase', s.calls[i]? = some phase ∧
      advance s.counter phase act = some (counter', phase') ∧
      t = ⟨counter', s.calls.set i phase'⟩ := by
  simp only [step] at hstep
  split at hstep
  · cases hstep
  · rename_i phase hphase
    rw [Option.map_eq_some_iff] at hstep
    obtain ⟨next, hnext, ht⟩ := hstep
    exact ⟨phase, next.1, next.2, hphase, hnext, ht.symm⟩

def Counts (counted : ℕ → Prop) (_ : State) (move : ℕ × Act) : Prop :=
  ∀ rows, move.2 = .count rows → counted rows

section Step
variable {counted : ℕ → Prop} {limit counter counter' : ℕ} {s t : State} {i : ℕ} {phase phase' : Phase} {act : Act}

theorem advance_exchanging {seed : ℕ} (hnext : advance counter phase act = some (counter', phase'))
    (hphase' : phase' = .exchanging seed) : act = .count seed := by
  subst hphase'
  cases phase with
  | loading =>
      cases act <;> try cases hnext
      simp only [advance] at hnext
      split at hnext <;> cases hnext
  | counting =>
      cases act <;> cases hnext
      rfl
  | exchanging other =>
      cases act <;> try cases hnext
      simp only [advance] at hnext
      split at hnext <;> cases hnext
  | _ => cases act <;> cases hnext

/-- A step that gives no number: the counter stays, or it gets its seed. -/
theorem advance_cases (hnext : advance counter phase act = some (counter', phase')) :
    (phase = .adding ∧ counter' = (counter + 1) % 2 ^ 64 ∧ phase' = .finished counter) ∨
      (phase.index? = none ∧ phase'.index? = none ∧
        ((counter' = counter ∧ (phase' = .adding → counter ≠ uninitializedToolCallIndex)) ∨
          counter = uninitializedToolCallIndex ∧ phase = .exchanging counter')) := by
  cases phase with
  | loading =>
      cases act <;> try cases hnext
      simp only [advance] at hnext
      split at hnext
      · rename_i hset
        cases hnext
        exact Or.inr ⟨rfl, rfl, Or.inl ⟨rfl, fun _ => hset⟩⟩
      · cases hnext
        exact Or.inr ⟨rfl, rfl, Or.inl ⟨rfl, fun h => by cases h⟩⟩
  | counting =>
      cases act <;> cases hnext
      exact Or.inr ⟨rfl, rfl, Or.inl ⟨rfl, fun h => by cases h⟩⟩
  | exchanging seed =>
      cases act <;> try cases hnext
      simp only [advance] at hnext
      split at hnext
      · rename_i hunset
        cases hnext
        exact Or.inr ⟨rfl, rfl, Or.inr ⟨hunset, rfl⟩⟩
      · cases hnext
        exact Or.inr ⟨rfl, rfl, Or.inl ⟨rfl, fun h => by cases h⟩⟩
  | adding =>
      cases act <;> cases hnext
      exact Or.inl ⟨rfl, rfl, rfl⟩
  | finished index => cases act <;> cases hnext

theorem numbered_step (hroom : ∀ rows, counted rows → rows + limit < uninitializedToolCallIndex)
    {move : ℕ × Act} (hmove : Counts counted s move) (h : Numbered counted limit s)
    (hstep : step s move = some t) : Numbered counted limit t := by
  obtain ⟨i, act⟩ := move
  obtain ⟨phase, counter', phase', hphase, hnext, rfl⟩ := step_cases hstep
  obtain ⟨hlength, hseeds, hcounter⟩ := h
  have hmem := List.mem_of_getElem? hphase
  refine ⟨by rw [List.length_set]; exact hlength, ?_, ?_⟩
  · intro seed hseed
    rcases List.mem_or_eq_of_mem_set hseed with hold | hnew
    · exact hseeds seed hold
    · exact hmove seed (advance_exchanging hnext hnew.symm)
  · rcases advance_cases hnext with ⟨rfl, rfl, rfl⟩ | ⟨hold, hnew, hmoved⟩
    · -- The next number is taken.
      rcases hcounter with ⟨-, -, hnone⟩ | ⟨seed, hseed, hnext', hperm⟩
      · exact absurd hmem hnone
      have hfew := length_indices_lt hphase rfl
      have hgiven := filterMap_set_perm s.counter hphase rfl
      have hlow := hroom seed hseed
      have hlen : (State.indices ⟨(s.counter + 1) % 2 ^ 64,
          s.calls.set i (.finished s.counter)⟩).length = s.indices.length + 1 := hgiven.length_eq
      refine Or.inr ⟨seed, hseed, ?_, ?_⟩
      · rw [hlen]
        simp only
        unfold uninitializedToolCallIndex State.indices at *
        omega
      · rw [hlen, List.range'_concat, Nat.one_mul, ← hnext']
        exact hgiven.trans ((hperm.cons _).trans (List.perm_append_singleton _ _).symm)
    · have hsame : State.indices ⟨counter', s.calls.set i phase'⟩ = s.indices :=
        filterMap_set_eq hphase hold hnew
      rw [hsame]
      rcases hmoved with ⟨rfl, hadding⟩ | ⟨hunset, rfl⟩
      · rcases hcounter with ⟨hunset, hnil, hnone⟩ | hset
        · refine Or.inl ⟨hunset, hnil, fun hadd => ?_⟩
          rcases List.mem_or_eq_of_mem_set hadd with hin | heq
          · exact hnone hin
          · exact hadding heq.symm hunset
        · exact Or.inr hset
      · rcases hcounter with ⟨-, hnil, -⟩ | ⟨seed, hseed, hset, -⟩
        · refine Or.inr ⟨counter', hseeds counter' hmem, ?_, ?_⟩
          · rw [hnil]
            rfl
          · rw [hnil]
            exact List.Perm.refl _
        · have hfew : s.indices.length ≤ s.calls.length := List.length_filterMap_le _ _
          have hlow := hroom seed hseed
          omega

end Step

/-- The calls that are through have different numbers without a gap, from a number of rows on
that one of them counted, whichever call was the first to put its count in. -/
theorem indices_consecutive {calls : ℕ} {moves : List (ℕ × Act)} {t : State}
    (hroom : ∀ i rows, (i, Act.count rows) ∈ moves → rows + calls < uninitializedToolCallIndex)
    (hrun : run step (start calls) moves = some t) :
    t.indices = [] ∨ ∃ i seed, (i, Act.count seed) ∈ moves ∧
      t.indices.Perm (List.range' seed t.indices.length) := by
  have hguarded : Guarded step (Counts fun rows => ∃ i, (i, Act.count rows) ∈ moves)
      (start calls) moves := by
    refine guarded_of_forall (fun move hmove s rows hrows => ?_) _
    exact ⟨move.1, hrows ▸ hmove⟩
  have hstart : Numbered (fun rows => ∃ i, (i, Act.count rows) ∈ moves) calls (start calls) := by
    refine ⟨List.length_replicate, fun seed hseed => ?_, Or.inl ⟨rfl, ?_, fun hadd => ?_⟩⟩
    · cases List.eq_of_mem_replicate hseed
    · refine List.filterMap_eq_nil_iff.mpr fun phase hphase => ?_
      rw [List.eq_of_mem_replicate hphase]
      rfl
    · cases List.eq_of_mem_replicate hadd
  have hend := hguarded.invariant _
    (fun s move t hmove => numbered_step (fun rows ⟨i, hi⟩ => hroom i rows hi) hmove) hstart hrun
  rcases hend.2.2 with ⟨-, hnil, -⟩ | ⟨seed, ⟨i, hi⟩, -, hperm⟩
  · exact Or.inl hnil
  · exact Or.inr ⟨i, seed, hi, hperm⟩

/-- Two calls count, the slower one meets the value of the other. -/
theorem indices_consecutive_race :
    [3, 2] = [] ∨ ∃ i seed, (i, Act.count seed) ∈
        [(0, Act.load), (1, .load), (0, .count 2), (1, .count 5), (0, .compareExchange),
          (1, .compareExchange), (1, .load), (1, .fetchAdd), (0, .fetchAdd)] ∧
      [3, 2].Perm (List.range' seed 2) := by
  have hrun : run step (start 2)
      [(0, .load), (1, .load), (0, .count 2), (1, .count 5), (0, .compareExchange),
        (1, .compareExchange), (1, .load), (1, .fetchAdd), (0, .fetchAdd)] =
      some ⟨4, [.finished 3, .finished 2]⟩ := by decide
  refine indices_consecutive ?_ hrun
  intro i rows hmem
  simp only [List.mem_cons, Prod.mk.injEq, Act.count.injEq, List.not_mem_nil, or_false, reduceCtorEq,
    and_false, false_or] at hmem
  unfold uninitializedToolCallIndex
  omega

end DbtNova.TraceIndex
