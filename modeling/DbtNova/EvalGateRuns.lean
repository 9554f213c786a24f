import DbtNova.EvalGate

/-!
# What the gate allows in a shared telemetry file

A run is found again by its rows alone. Whatever retention rewrites, the file holds
of each run a part of its rows in their order, so an id of its own and a full count
make the rows of a report those of one whole run. That this run is the latest needs
that no step takes the last trace of a later one.
-/
namespace DbtNova.EvalGate
open EvalTelemetry TransitionSystem

/-- A run counts once it has written a row, or all of its rows. -/
def Recorded (call : Call) : Prop :=
  0 < call.written ∨
    match call.phase with
    | .writing | .ending | .stopped => False
    | _ => True

instance (call : Call) : Decidable (Recorded call) := by
  unfold Recorded
  cases call.phase <;> infer_instance

/-- A row of the suite, written for the suite file of the run. -/
def OfVersion (row : TelemetryRow) (run : EvalRun) : Prop :=
  row.suiteName = some run.suiteName ∧ row.suiteHash = some run.suiteHash

/-- A row of the suite is at least as late as the run. -/
def Covered (rows : List TelemetryRow) (run : EvalRun) : Prop :=
  ∃ row ∈ rows, row.suiteName = some run.suiteName ∧ run.timestampMs ≤ rowStamp row

/-- Rows of a suite version come with one as late as its latest recorded run. -/
def NewestKept (calls : List Call) (rows : List TelemetryRow) : Prop :=
  ∀ row ∈ rows, ∀ call ∈ calls, Recorded call → OfVersion row call.run → Covered rows call.run

/-! ## The claim on a state -/

/-- The report rests on all rows of one run, the latest one of the current suite file. -/
structure RestsOn (env : GateEnv) (state : State) (suiteName : String) (report : EvalGateReport)
    (call : Call) : Prop where
  suite : call.run.suiteName = suiteName
  examined : ∃ rows, readTelemetryRowsForSuite env suiteName state.file = .ok rows ∧
    latestTelemetryRows rows = call.run.rows
  version : ∃ threshold,
    env.loadSuiteWithHash call.run.suitePath = .ok (some threshold, call.run.suiteHash) ∧
      report.threshold = some threshold ∧ threshold ≤ report.passRate
  rate : report.passRate = ratio (call.run.rows.countP passed) call.run.rows.length
  latest : ∀ other ∈ state.calls, Recorded other → other.run.suiteName = suiteName →
    other.run.suiteHash = call.run.suiteHash → other.run.timestampMs ≤ call.run.timestampMs

def GateSound (env : GateEnv) (state : State) : Prop :=
  ∀ suiteName report, buildEvalGateReportForSuite env suiteName state.file = .ok report →
    report.gateConfigured = true → report.allowed = true →
      ∃ call ∈ state.calls, RestsOn env state suiteName report call

/-! ## Steps that lose no trace -/

def KeepsNewest (state : State) (call : Call) : Prop :=
  match call.phase with
  | .writing =>
      if call.written < call.run.rows.length then
        -- a late row of an older run
        ∀ other ∈ state.calls, Recorded other → other.run.suiteName = call.run.suiteName →
          other.run.suiteHash = call.run.suiteHash →
          call.run.timestampMs < other.run.timestampMs → Covered (rowsOf state.file) other.run
      else
        -- a run without rows
        call.run.rows = [] → (∃ row ∈ rowsOf state.file, OfVersion row call.run) →
          Covered (rowsOf state.file) call.run
  | .rewriting maxRows read =>
      NewestKept state.calls
        (rowsOf ((applyTelemetryRetention read maxRows).getD state.file))
  | _ => True

def Traceable (state : State) : Action → Prop
  | .start run =>
      ∀ call ∈ state.calls, call.run.suiteName = run.suiteName → call.run.runId ≠ run.runId
  | .next i => ∀ call, state.calls[i]? = some call → KeepsNewest state call
  | .stop _ => True

instance (rows : List TelemetryRow) (run : EvalRun) : Decidable (Covered rows run) := by
  unfold Covered
  infer_instance

instance (row : TelemetryRow) (run : EvalRun) : Decidable (OfVersion row run) := by
  unfold OfVersion
  infer_instance

instance (calls : List Call) (rows : List TelemetryRow) : Decidable (NewestKept calls rows) := by
  unfold NewestKept
  infer_instance

instance (state : State) (call : Call) : Decidable (KeepsNewest state call) := by
  unfold KeepsNewest
  cases call.phase <;> infer_instance

instance (state : State) : ∀ action, Decidable (Traceable state action)
  | .start run => inferInstanceAs (Decidable (∀ call ∈ state.calls,
      call.run.suiteName = run.suiteName → call.run.runId ≠ run.runId))
  | .next i => inferInstanceAs (Decidable (∀ call ∈ state.calls[i]?, KeepsNewest state call))
  | .stop _ => isTrue trivial

/-! ## The invariant -/

def ofRun (run : EvalRun) (row : TelemetryRow) : Bool :=
  row.suiteName = some run.suiteName ∧ row.runId = some run.runId

def DistinctIds (calls : List Call) : Prop :=
  ∀ (i j : ℕ) (a b : Call), calls[i]? = some a → calls[j]? = some b → i ≠ j →
    a.run.suiteName = b.run.suiteName → a.run.runId ≠ b.run.runId

/-- Every row belongs to a call, and those of one call are some of its first rows. -/
structure Faithful (calls : List Call) (rows : List TelemetryRow) : Prop where
  own : ∀ row ∈ rows, ∃ call ∈ calls, row ∈ call.run.rows
  order : ∀ call ∈ calls, (rows.filter (ofRun call.run)).Sublist (call.run.rows.take call.written)

structure Inv (state : State) : Prop where
  ids : DistinctIds state.calls
  file : Faithful state.calls (rowsOf state.file)
  read : ∀ call ∈ state.calls, ∀ maxRows read, call.phase = .rewriting maxRows read →
    Faithful state.calls (rowsOf read)
  newest : NewestKept state.calls (rowsOf state.file)

theorem ofRun_of_mem {run : EvalRun} {row : TelemetryRow} (h : row ∈ run.rows) :
    ofRun run row = true := by
  obtain ⟨case, assertion, rfl⟩ := EvalRun.mem_rows h
  exact decide_eq_true ⟨rfl, rfl⟩

theorem Covered.mono {rows rows' : List TelemetryRow} {run : EvalRun} (h : Covered rows run)
    (hsub : ∀ row ∈ rows, row ∈ rows') : Covered rows' run := by
  obtain ⟨row, hrow, hcovers⟩ := h
  exact ⟨row, hsub row hrow, hcovers⟩

theorem Faithful.mono {calls : List Call} {rows rows' : List TelemetryRow}
    (h : Faithful calls rows) (hsub : rows'.Sublist rows) : Faithful calls rows' where
  own row hrow := h.own row (hsub.subset hrow)
  order call hcall := (hsub.filter _).trans (h.order call hcall)

/-! ### One call moves -/

section Set
variable {calls : List Call} {i : ℕ} {call moved : Call}

theorem getElem?_set_cases {j : ℕ} {other : Call} (h : (calls.set i moved)[j]? = some other) :
    (j = i ∧ other = moved) ∨ (j ≠ i ∧ calls[j]? = some other) := by
  by_cases hij : j = i
  · left
    refine ⟨hij, ?_⟩
    rw [hij, List.getElem?_set_self'] at h
    cases hcall : calls[i]? with
    | none =>
        rw [hcall] at h
        cases h
    | some old =>
        rw [hcall] at h
        exact (Option.some.inj h).symm
  · right
    refine ⟨hij, ?_⟩
    rwa [List.getElem?_set_ne (Ne.symm hij)] at h

theorem exists_run_of_mem (hi : calls[i]? = some call) (hrun : moved.run = call.run)
    {other : Call} (h : other ∈ calls) : ∃ kept ∈ calls.set i moved, kept.run = other.run := by
  obtain ⟨j, hj⟩ := List.mem_iff_getElem?.mp h
  by_cases hij : j = i
  · rw [hij, hi] at hj
    refine ⟨moved, List.mem_set (List.getElem?_eq_some_iff.mp hi).1 _, ?_⟩
    rw [hrun, Option.some.inj hj]
  · refine ⟨other, List.mem_iff_getElem?.mpr ⟨j, ?_⟩, rfl⟩
    rwa [List.getElem?_set_ne (Ne.symm hij)]

theorem DistinctIds.set (h : DistinctIds calls) (hi : calls[i]? = some call)
    (hrun : moved.run = call.run) : DistinctIds (calls.set i moved) := by
  intro j k a b hj hk hne
  cases getElem?_set_cases hj with
  | inl hmoved =>
      cases getElem?_set_cases hk with
      | inl hother => exact absurd (hmoved.1.trans hother.1.symm) hne
      | inr hother =>
          rw [hmoved.2, hrun]
          exact h i k call b hi hother.2 (Ne.symm hother.1)
  | inr hkept =>
      cases getElem?_set_cases hk with
      | inl hother =>
          rw [hother.2, hrun]
          exact h j i a call hkept.2 hi hkept.1
      | inr hother => exact h j k a b hkept.2 hother.2 hne

theorem Faithful.set {rows : List TelemetryRow} (h : Faithful calls rows)
    (hi : calls[i]? = some call) (hrun : moved.run = call.run)
    (hwritten : call.written ≤ moved.written) : Faithful (calls.set i moved) rows where
  own := by
    intro row hrow
    obtain ⟨other, hother, hmem⟩ := h.own row hrow
    obtain ⟨kept, hkept, heq⟩ := exists_run_of_mem hi hrun hother
    rw [← heq] at hmem
    exact ⟨kept, hkept, hmem⟩
  order := by
    intro other hother
    cases List.mem_or_eq_of_mem_set hother with
    | inl hmem => exact h.order other hmem
    | inr heq =>
        rw [heq, hrun]
        exact (h.order call (List.mem_of_getElem? hi)).trans (List.take_sublist_take_left hwritten)

theorem NewestKept.set {rows : List TelemetryRow} (h : NewestKept calls rows)
    (hi : calls[i]? = some call) (hrun : moved.run = call.run)
    (hrecorded : Recorded moved → Recorded call) : NewestKept (calls.set i moved) rows := by
  intro row hrow other hother hcounts hversion
  cases List.mem_or_eq_of_mem_set hother with
  | inl hmem => exact h row hrow other hmem hcounts hversion
  | inr heq =>
      rw [heq] at hcounts hversion ⊢
      rw [hrun] at hversion ⊢
      exact h row hrow call (List.mem_of_getElem? hi) (hrecorded hcounts) hversion

theorem Faithful.text {rows : List TelemetryRow} {row : TelemetryRow} (h : Faithful calls rows)
    (hids : DistinctIds calls) (hi : calls[i]? = some call)
    (hrow : call.run.rows[call.written]? = some row) (hrun : moved.run = call.run)
    (hwritten : moved.written = call.written + 1) :
    Faithful (calls.set i moved) (rows ++ [row]) where
  own := by
    intro row' hmem
    cases List.mem_append.mp hmem with
    | inl hold =>
        exact (h.set hi hrun (by omega)).own row' hold
    | inr hnew =>
        rw [List.mem_singleton.mp hnew]
        refine ⟨moved, List.mem_set (List.getElem?_eq_some_iff.mp hi).1 _, ?_⟩
        rw [hrun]
        exact List.mem_of_getElem? hrow
  order := by
    intro other hother
    obtain ⟨j, hj⟩ := List.mem_iff_getElem?.mp hother
    have hmine : ofRun call.run row = true := ofRun_of_mem (List.mem_of_getElem? hrow)
    rw [List.filter_append]
    cases getElem?_set_cases hj with
    | inl hmoved =>
        rw [hmoved.2, hrun, hwritten, List.filter_cons_of_pos hmine, List.filter_nil,
          List.take_add_one, hrow, Option.toList_some]
        exact (h.order call (List.mem_of_getElem? hi)).append (List.Sublist.refl _)
    | inr hkept =>
        have hnot : ofRun other.run row = false := by
          unfold ofRun at hmine ⊢
          rw [decide_eq_true_eq] at hmine
          rw [decide_eq_false_iff_not]
          intro htheirs
          have hsuite := Option.some.inj (hmine.1.symm.trans htheirs.1)
          have hid := Option.some.inj (hmine.2.symm.trans htheirs.2)
          exact hids i j call other hi hkept.2 (Ne.symm hkept.1) hsuite hid
        rw [List.filter_cons_of_neg (by simp [hnot]), List.filter_nil, List.append_nil]
        exact h.order other (List.mem_of_getElem? hkept.2)

/-- A new row covers its own run; an older run appends only beside a later one. -/
theorem NewestKept.text {rows : List TelemetryRow} {row : TelemetryRow} (h : NewestKept calls rows)
    (hrow : row ∈ call.run.rows) (hrun : moved.run = call.run)
    (hlate : ∀ other ∈ calls, Recorded other → other.run.suiteName = call.run.suiteName →
      other.run.suiteHash = call.run.suiteHash →
      call.run.timestampMs < other.run.timestampMs → Covered rows other.run) :
    NewestKept (calls.set i moved) (rows ++ [row]) := by
  obtain ⟨case, assertion, rfl⟩ := EvalRun.mem_rows hrow
  have hself (run : EvalRun) (hsuite : run.suiteName = call.run.suiteName)
      (hle : run.timestampMs ≤ call.run.timestampMs) :
      Covered (rows ++ [call.run.evalTelemetryRow case assertion]) run := by
    refine ⟨_, List.mem_append_right rows List.mem_cons_self, ?_, hle⟩
    rw [hsuite]
    rfl
  intro row' hmem other hother hcounts hversion
  cases List.mem_or_eq_of_mem_set hother with
  | inr heq =>
      rw [heq, hrun]
      exact hself call.run rfl (Nat.le_refl _)
  | inl hold =>
      cases List.mem_append.mp hmem with
      | inl hrow' =>
          exact (h row' hrow' other hold hcounts hversion).mono
            fun _ hkept => List.mem_append_left _ hkept
      | inr hnew =>
          rw [List.mem_singleton.mp hnew] at hversion
          have hsuite : other.run.suiteName = call.run.suiteName :=
            (Option.some.inj hversion.1).symm
          have hhash : other.run.suiteHash = call.run.suiteHash :=
            (Option.some.inj hversion.2).symm
          by_cases hlater : call.run.timestampMs < other.run.timestampMs
          · exact (hlate other hold hcounts hsuite hhash hlater).mono
              fun _ hkept => List.mem_append_left _ hkept
          · exact hself other.run hsuite (Nat.le_of_not_lt hlater)

end Set

/-- A call that has no row left to write is recorded, or its run has no rows at all. -/
theorem NewestKept.written {state : State} {i : ℕ} {run : EvalRun} {written : ℕ} {moved : Call}
    (h : NewestKept state.calls (rowsOf state.file))
    (hi : state.calls[i]? = some ⟨run, written, .writing⟩)
    (hkeeps : KeepsNewest state ⟨run, written, .writing⟩) (hrow : run.rows[written]? = none)
    (hrun : moved.run = run) : NewestKept (state.calls.set i moved) (rowsOf state.file) := by
  have hlength : run.rows.length ≤ written := List.getElem?_eq_none_iff.mp hrow
  by_cases hrows : run.rows = []
  · unfold KeepsNewest at hkeeps
    simp only [if_neg (Nat.not_lt.mpr hlength)] at hkeeps
    intro row hmem other hother hcounts hversion
    cases List.mem_or_eq_of_mem_set hother with
    | inl hold => exact h row hmem other hold hcounts hversion
    | inr heq =>
        rw [heq, hrun] at hversion ⊢
        exact hkeeps hrows ⟨row, hmem, hversion⟩
  · have hpos : 0 < written := Nat.lt_of_lt_of_le (List.length_pos_of_ne_nil hrows) hlength
    exact h.set hi hrun fun _ => .inl hpos

/-- One operation that loses no trace keeps the invariant. -/
theorem inv_moves {state : State} {i : ℕ} {call moved : Call} {file : File} (hinv : Inv state)
    (hi : state.calls[i]? = some call) (hkeeps : KeepsNewest state call)
    (h : Moves call.run call.written state.file call.phase moved file) :
    Inv ⟨file, state.calls.set i moved⟩ := by
  have hcall := List.mem_of_getElem? hi
  have hset : Faithful (state.calls.set i moved) (rowsOf state.file) :=
    hinv.file.set hi h.run_eq h.written_le
  have hreads : (∀ maxRows read, moved.phase ≠ .rewriting maxRows read) →
      ∀ other ∈ state.calls.set i moved, ∀ maxRows read,
        other.phase = .rewriting maxRows read →
        Faithful (state.calls.set i moved) (rowsOf read) := by
    intro hphase other hother maxRows read hread
    cases List.mem_or_eq_of_mem_set hother with
    | inl hmem => exact (hinv.read other hmem maxRows read hread).set hi h.run_eq h.written_le
    | inr heq => exact absurd (heq ▸ hread) (hphase maxRows read)
  obtain ⟨run, written, phase⟩ := call
  cases h with
  | text row hrow =>
      have hfile : Faithful (state.calls.set i ⟨run, written + 1, .ending⟩)
          (rowsOf state.file ++ [row]) := hinv.file.text hinv.ids hi hrow rfl rfl
      refine ⟨hinv.ids.set hi rfl, by simpa using hfile, hreads (by simp), ?_⟩
      have hlength : written < run.rows.length := (List.getElem?_eq_some_iff.mp hrow).1
      unfold KeepsNewest at hkeeps
      simp only [if_pos hlength] at hkeeps
      have hnewest : NewestKept (state.calls.set i ⟨run, written + 1, .ending⟩)
          (rowsOf state.file ++ [row]) :=
        hinv.newest.text (List.mem_of_getElem? hrow) rfl hkeeps
      simpa using hnewest
  | trim maxRows hrow =>
      exact ⟨hinv.ids.set hi rfl, hset, hreads (by simp),
        hinv.newest.written hi hkeeps hrow rfl⟩
  | finish hrow =>
      exact ⟨hinv.ids.set hi rfl, hset, hreads (by simp),
        hinv.newest.written hi hkeeps hrow rfl⟩
  | newline =>
      have hnewest : NewestKept (state.calls.set i ⟨run, written, .writing⟩)
          (rowsOf state.file) := hinv.newest.set hi rfl id
      exact ⟨hinv.ids.set hi rfl, by simpa using hset, hreads (by simp), by simpa using hnewest⟩
  | read maxRows =>
      refine ⟨hinv.ids.set hi rfl, hset, ?_, hinv.newest.set hi rfl fun _ => .inr trivial⟩
      intro other hother maxRows' read hread
      cases List.mem_or_eq_of_mem_set hother with
      | inl hmem => exact (hinv.read other hmem maxRows' read hread).set hi rfl (Nat.le_refl _)
      | inr heq =>
          rw [heq] at hread
          rw [← (Phase.rewriting.inj hread).2]
          exact hset
  | rewrite maxRows read =>
      have hkept : NewestKept state.calls
          (rowsOf ((applyTelemetryRetention read maxRows).getD state.file)) := hkeeps
      refine ⟨hinv.ids.set hi rfl, ?_, hreads (by simp),
        hkept.set hi rfl fun _ => .inr trivial⟩
      cases hfile : applyTelemetryRetention read maxRows with
      | none => exact hset
      | some file =>
          have hread : Faithful state.calls (rowsOf read) :=
            hinv.read _ hcall maxRows read rfl
          exact (hread.mono (applyTelemetryRetention_sublist hfile)).set hi rfl (Nat.le_refl _)

/-- A call with a fresh run id has none of the rows. -/
theorem Faithful.start {state : State} {run : EvalRun} {rows : List TelemetryRow}
    (hfresh : Traceable state (.start run)) (h : Faithful state.calls rows) :
    Faithful (state.calls ++ [⟨run, 0, .writing⟩]) rows := by
  constructor
  · intro row hrow
    obtain ⟨call, hcall, hmem⟩ := h.own row hrow
    exact ⟨call, List.mem_append_left _ hcall, hmem⟩
  · intro call hcall
    cases List.mem_append.mp hcall with
    | inl hold => exact h.order call hold
    | inr hnew =>
        rw [List.mem_singleton.mp hnew, List.take_zero, List.sublist_nil,
          List.filter_eq_nil_iff]
        intro row hrow hmine
        obtain ⟨owner, howner, hmem⟩ := h.own row hrow
        have htheirs := of_decide_eq_true (ofRun_of_mem hmem)
        have hours := of_decide_eq_true hmine
        exact hfresh owner howner (Option.some.inj (htheirs.1.symm.trans hours.1))
          (Option.some.inj (htheirs.2.symm.trans hours.2))

theorem getElem?_start {calls : List Call} {new call : Call} {j : ℕ}
    (h : (calls ++ [new])[j]? = some call) :
    calls[j]? = some call ∨ (j = calls.length ∧ call = new) := by
  rw [List.getElem?_append] at h
  split at h
  · exact .inl h
  · obtain ⟨hlt, heq⟩ := List.getElem?_eq_some_iff.mp h
    rw [List.length_singleton] at hlt
    right
    constructor
    · omega
    · simpa using heq.symm

theorem inv_start {state : State} {run : EvalRun} (hinv : Inv state)
    (hfresh : Traceable state (.start run)) :
    Inv { state with calls := state.calls ++ [⟨run, 0, .writing⟩] } := by
  refine ⟨?_, hinv.file.start hfresh, ?_, ?_⟩
  · intro i j a b ha hb hne hsuite
    cases getElem?_start ha with
    | inl hold =>
        cases getElem?_start hb with
        | inl hother => exact hinv.ids i j a b hold hother hne hsuite
        | inr hlast =>
            rw [hlast.2] at hsuite ⊢
            exact hfresh a (List.mem_of_getElem? hold) hsuite
    | inr hlast =>
        cases getElem?_start hb with
        | inl hother =>
            rw [hlast.2] at hsuite ⊢
            exact (hfresh b (List.mem_of_getElem? hother) hsuite.symm).symm
        | inr hother => exact absurd (hlast.1.trans hother.1.symm) hne
  · intro call hcall maxRows read hread
    cases List.mem_append.mp hcall with
    | inl hold => exact (hinv.read call hold maxRows read hread).start hfresh
    | inr hlast =>
        rw [List.mem_singleton.mp hlast] at hread
        cases hread
  · intro row hrow call hcall hcounts hversion
    cases List.mem_append.mp hcall with
    | inl hold => exact hinv.newest row hrow call hold hcounts hversion
    | inr hlast =>
        rw [List.mem_singleton.mp hlast] at hcounts
        cases hcounts with
        | inl hpos => exact absurd hpos (Nat.lt_irrefl 0)
        | inr hphase => exact absurd hphase id

theorem inv_stop {state : State} {i : ℕ} {call : Call} (hinv : Inv state)
    (hi : state.calls[i]? = some call) :
    Inv { state with calls := state.calls.set i { call with phase := .stopped } } := by
  have hset {rows : List TelemetryRow} (h : Faithful state.calls rows) :
      Faithful (state.calls.set i { call with phase := .stopped }) rows :=
    h.set hi rfl (Nat.le_refl _)
  refine ⟨hinv.ids.set hi rfl, hset hinv.file, ?_, hinv.newest.set hi rfl ?_⟩
  · intro other hother maxRows read hread
    cases List.mem_or_eq_of_mem_set hother with
    | inl hmem => exact hset (hinv.read other hmem maxRows read hread)
    | inr heq =>
        rw [heq] at hread
        cases hread
  · intro hcounts
    cases hcounts with
    | inl hpos => exact .inl hpos
    | inr hphase => exact absurd hphase id

theorem inv_step (state : State) (action : Action) (next : State)
    (htraceable : Traceable state action)
    (hinv : Inv state) (hstep : step state action = some next) : Inv next := by
  cases action with
  | start run =>
      rw [← Option.some.inj hstep]
      exact inv_start hinv htraceable
  | next i =>
      obtain ⟨call, hi, hmoved⟩ := Option.bind_eq_some_iff.mp hstep
      obtain ⟨⟨moved, file⟩, hnext, rfl⟩ := Option.map_eq_some_iff.mp hmoved
      exact inv_moves hinv hi (htraceable call hi) (Call.next_moves hnext)
  | stop i =>
      obtain ⟨call, hi, rfl⟩ := Option.map_eq_some_iff.mp hstep
      exact inv_stop hinv hi

theorem inv_initial : Inv initial where
  ids := by
    intro i j a b ha
    cases ha
  file := ⟨fun _ hrow => absurd hrow List.not_mem_nil, fun _ hcall => absurd hcall List.not_mem_nil⟩
  read := fun _ hcall => absurd hcall List.not_mem_nil
  newest := fun _ hrow => absurd hrow List.not_mem_nil

/-! ## The gate -/

theorem nonBlank_of_mem {text : String} {c : Char} (h : c ∈ text.toList)
    (hc : Text.isWhitespace c = false) : nonBlank text = true := by
  unfold nonBlank Text.trim
  rw [decide_eq_true_eq]
  intro hblank
  have hmem : c ∈ (String.ofList (Text.trimChars text.toList)).toList := by
    rw [String.toList_ofList]
    exact Text.mem_trimChars h hc
  rw [hblank] at hmem
  cases hmem

theorem nonBlank_runId (run : EvalRun) : nonBlank run.runId = true := by
  have hdash : '-' ∈ run.runId.toList := by
    unfold EvalRun.runId
    simp only [String.toList_append, List.mem_append]
    exact .inl (.inl (.inl (.inr List.mem_cons_self)))
  exact nonBlank_of_mem hdash (by decide)

theorem gateSound_of_inv (env : GateEnv) {state : State} (hinv : Inv state) :
    GateSound env state := by
  intro suiteName report hreport hconfigured hallowed
  unfold buildEvalGateReportForSuite at hreport
  cases hread : readTelemetryRowsForSuite env suiteName state.file with
  | error error =>
      rw [hread] at hreport
      cases hreport
  | ok rows =>
      rw [hread] at hreport
      obtain ⟨hnonempty, gate, hgate, rfl⟩ := buildEvalGateReport_configured hreport hconfigured
      have hrows := readTelemetryRowsForSuite_eq hread
      have hmem {row : TelemetryRow} : row ∈ rows ↔
          row ∈ rowsOf state.file ∧ row.suiteName = some suiteName := by
        rw [hrows, List.mem_filter, decide_eq_true_eq]
      have hid : ∀ row ∈ rows, ∃ runId, row.runId = some runId ∧ nonBlank runId = true := by
        intro row hrow
        obtain ⟨call, _, hown⟩ := hinv.file.own row (hmem.mp hrow).1
        obtain ⟨case, assertion, rfl⟩ := EvalRun.mem_rows hown
        exact ⟨_, rfl, nonBlank_runId call.run⟩
      obtain ⟨latest, hlatest, hmax, hexamined⟩ := latestTelemetryRows_spec hnonempty hid
      obtain ⟨call, hcall, hown⟩ := hinv.file.own latest (hmem.mp hlatest).1
      have hsuiteName := (hmem.mp hlatest).2
      obtain ⟨case, assertion, rfl⟩ := EvalRun.mem_rows hown
      have hsuite : call.run.suiteName = suiteName := Option.some.inj hsuiteName
      -- the rows with the run's id are rows of the run
      have hsublist : (latestTelemetryRows rows).Sublist call.run.rows := by
        have hfilter : latestTelemetryRows rows = (rowsOf state.file).filter (ofRun call.run) := by
          rw [hexamined, hrows, List.filter_filter]
          apply List.filter_congr
          intro row _
          unfold ofRun
          rw [hsuite, ← Bool.decide_and]
          exact decide_eq_decide.mpr and_comm
        rw [hfilter]
        exact (hinv.file.order call hcall).trans (List.take_sublist _ _)
      obtain ⟨threshold, suiteHash, hstatus, hcomplete, hthreshold, hrate, hle⟩ :=
        gateReport_allowed hconfigured hallowed
      obtain ⟨first, hfirst, hhash, hcount⟩ := latestRunIncompleteMessage_eq_none hcomplete
      obtain ⟨case', assertion', rfl⟩ :=
        EvalRun.mem_rows (hsublist.subset (List.mem_of_head? hfirst))
      have hversion : call.run.suiteHash = suiteHash := Option.some.inj hhash
      have hlength : call.run.rows.length = (latestTelemetryRows rows).length := by
        rw [EvalRun.length_rows]
        exact Option.some.inj hcount
      have hall : latestTelemetryRows rows = call.run.rows := hsublist.eq_of_length hlength.symm
      refine ⟨call, hcall, hsuite, ⟨rows, hread, hall⟩, ⟨threshold, ?_, hthreshold, ?_⟩, ?_, ?_⟩
      · rw [hfirst, hstatus] at hgate
        rw [hversion]
        exact gateConfigStatus_configured hgate
      · rw [hrate]
        exact hle
      · rw [hrate, hall]
      · intro other hother hcounts hothersuite hotherhash
        obtain ⟨row, hrow, hrowsuite, hlater⟩ := hinv.newest _ (hmem.mp hlatest).1 other hother
          hcounts ⟨congrArg some (hsuite.trans hothersuite.symm), congrArg some hotherhash.symm⟩
        rw [hothersuite] at hrowsuite
        exact hlater.trans (hmax row (hmem.mpr ⟨hrow, hrowsuite⟩))

/-- When every call has a run id of its own and no step takes the last trace of a run
that is later than one it leaves, the gate allows only on all rows of the latest run. -/
theorem gate_rests_on_latest_run (env : GateEnv) {actions : List Action} {state : State}
    (htraceable : Guarded step Traceable initial actions)
    (hrun : run step initial actions = some state) : GateSound env state :=
  gateSound_of_inv env (htraceable.invariant Inv inv_step inv_initial hrun)

def gatedEnv : GateEnv where
  pathExists := fun path => path = "evals/gated.yml"
  loadSuiteWithHash := fun _ => .ok (some (f64OfNat 1), "5f1c")
  parseError := fun _ => "trailing characters"

/-- A run of one assertion that keeps one row. -/
def gatedRun (timestampMs : ℕ) (status : AssertionStatus) : EvalRun where
  suiteName := "gated"
  mode := "bridge"
  outputDir := "out"
  cases := [("orders_rank", [⟨"search_rank", status⟩])]
  suitePath := "evals/gated.yml"
  suiteHash := "5f1c"
  suiteCaseCount := 1
  retention := some 1
  timestampMs := timestampMs

/-- Two runs, one after the other. -/
def inTurn : List Action :=
  .start (gatedRun 1 .fail) :: List.replicate 5 (.next 0) ++
    .start (gatedRun 2 .pass) :: List.replicate 5 (.next 1)

def afterInTurn : State where
  file := (gatedRun 2 .pass).rows.map .text ++ [.newline]
  calls := [⟨gatedRun 1 .fail, 1, .returned⟩, ⟨gatedRun 2 .pass, 1, .returned⟩]

theorem gate_rests_in_turn : GateSound gatedEnv afterInTurn := by
  have htraceable : Guarded step Traceable initial inTurn := by decide +kernel
  have hrun : run step initial inTurn = some afterInTurn := by decide +kernel
  exact gate_rests_on_latest_run gatedEnv htraceable hrun

/-- The second call reads the file, the third writes its row and returns, and the second
writes back what it read. -/
def staleRewrite : List Action :=
  .start (gatedRun 1 .pass) :: List.replicate 5 (.next 0) ++
    .start (gatedRun 2 .pass) :: List.replicate 4 (.next 1) ++
    .start (gatedRun 3 .fail) :: List.replicate 5 (.next 2) ++ [.next 1]

def afterStaleRewrite : State where
  file := (gatedRun 2 .pass).rows.map .text ++ [.newline]
  calls := [⟨gatedRun 1 .pass, 1, .returned⟩, ⟨gatedRun 2 .pass, 1, .returned⟩,
    ⟨gatedRun 3 .fail, 1, .returned⟩]

/-- The gate allows on the second run, while the third and latest one has failed. -/
theorem stale_rewrite_allowed :
    ¬ ∀ (env : GateEnv) (actions : List Action) (state : State),
      run step initial actions = some state → GateSound env state := by
  intro h
  have hrun : run step initial staleRewrite = some afterStaleRewrite := by decide +kernel
  let report := gateReport "gated" (gatedRun 2 .pass).rows (.configured (f64OfNat 1) "5f1c")
  have hreport : buildEvalGateReportForSuite gatedEnv "gated" afterStaleRewrite.file =
      .ok report := by decide +kernel
  obtain ⟨call, hcall, hrests⟩ := h gatedEnv staleRewrite afterStaleRewrite hrun "gated" report
    hreport (by decide +kernel) (by decide +kernel)
  have hlatest (hhash : "5f1c" = call.run.suiteHash) : 3 ≤ call.run.timestampMs :=
    hrests.latest ⟨gatedRun 3 .fail, 1, .returned⟩ (by decide +kernel) (.inl (by decide)) rfl hhash
  cases hcall with
  | head => exact absurd (hlatest rfl) (by decide)
  | tail _ hcall =>
      cases hcall with
      | head => exact absurd (hlatest rfl) (by decide)
      | tail _ hcall =>
          rw [List.mem_singleton.mp hcall] at hrests
          exact absurd hrests.rate (by decide +kernel)

end DbtNova.EvalGate
