import DbtNova.Text
import DbtNova.TransitionSystem
import Mathlib.Algebra.Order.Ring.Nat
import Mathlib.Data.List.Flatten

/-!
# The telemetry of eval runs

Every call of `write_eval_telemetry` appends the rows of its run to one shared file,
text and newline by separate writes, and then may cut the file down to its last
lines. Calls interleave at their reads and writes and may stop between them.

A text is the row it was printed from, and a file the sequence of texts and
newlines in it; the rewrite of a file is one write.
-/
namespace DbtNova.EvalTelemetry

/-! ## Reports -/

inductive AssertionStatus where
  | pass
  | fail
  | error
  deriving DecidableEq

def AssertionStatus.text : AssertionStatus → String
  | .pass => "pass"
  | .fail => "fail"
  | .error => "error"

structure AssertionResult where
  name : String
  status : AssertionStatus
  deriving DecidableEq

structure EvalCaseReport where
  id : String
  passCount : ℕ
  failCount : ℕ
  errorCount : ℕ
  assertions : List AssertionResult

def EvalCaseReport.new (id : String) (assertions : List AssertionResult) : EvalCaseReport where
  id := id
  passCount := assertions.countP fun assertion => assertion.status = .pass
  failCount := assertions.countP fun assertion => assertion.status = .fail
  errorCount := assertions.countP fun assertion => assertion.status = .error
  assertions := assertions

structure EvalReport where
  suiteName : String
  mode : String
  outputDir : String
  assertionCount : ℕ
  cases : List EvalCaseReport

def buildReport (suiteName mode outputDir : String) (cases : List EvalCaseReport) : EvalReport :=
  let passCount := (cases.map EvalCaseReport.passCount).sum
  let failCount := (cases.map EvalCaseReport.failCount).sum
  let errorCount := (cases.map EvalCaseReport.errorCount).sum
  { suiteName := suiteName
    mode := mode
    outputDir := outputDir
    assertionCount := passCount + failCount + errorCount
    cases := cases }

/-! ## Names and stamps -/

def maxSafePathSegmentChars : ℕ := 120

def safePathSegment (value : String) : String :=
  let sanitized := value.toList.map fun c =>
    if c.isAlphanum || c == '-' || c == '_' || c == '.' then c else '-'
  let isEdge (c : Char) : Bool := c == '-' || c == '.'
  let trimmed := Text.trimChars ((sanitized.dropWhile isEdge).rdropWhile isEdge)
  let capped := String.ofList (trimmed.take maxSafePathSegmentChars)
  if capped = "" ∨ capped = "." ∨ capped = ".." then "eval" else capped

def stableTelemetryHash (value : String) : UInt64 :=
  value.toUTF8.toList.foldl (fun hash byte => (hash ^^^ byte.toUInt64) * 0x100000001b3)
    0xcbf29ce484222325

def zeroPadded (width : ℕ) (digits : String) : String :=
  String.ofList (List.replicate (width - digits.length) '0') ++ digits

def telemetryPathForSuite (suiteName : String) : String :=
  let hash := zeroPadded 16 (String.ofList (Nat.toDigits 16 (stableTelemetryHash suiteName).toNat))
  s!".nova/eval-runs/telemetry/{safePathSegment suiteName}-{hash}.jsonl"

def civilFromDays (daysSinceEpoch : ℕ) : ℕ × ℕ × ℕ :=
  let z := daysSinceEpoch + 719468
  let era := z / 146097
  let doe := z - era * 146097
  let yoe := (doe - doe / 1460 + doe / 36524 - doe / 146096) / 365
  let doy := doe - (365 * yoe + yoe / 4 - yoe / 100)
  let mp := (5 * doy + 2) / 153
  let day := doy - (153 * mp + 2) / 5 + 1
  let month := if mp < 10 then mp + 3 else mp - 9
  let year := yoe + era * 400
  (if month ≤ 2 then year + 1 else year, month, day)

def formatUtcTimestampMillis (timestampMs : ℕ) : String :=
  let secs := timestampMs / 1000
  let civil := civilFromDays (secs / 86400)
  let secondsOfDay := secs % 86400
  let part (width n : ℕ) : String := zeroPadded width (toString n)
  let date := part 4 civil.1 ++ "-" ++ part 2 civil.2.1 ++ "-" ++ part 2 civil.2.2
  let time := part 2 (secondsOfDay / 3600) ++ ":" ++ part 2 (secondsOfDay % 3600 / 60) ++ ":" ++
    part 2 (secondsOfDay % 60) ++ "." ++ part 3 (timestampMs % 1000)
  date ++ "T" ++ time ++ "Z"

/-! ## The rows of a run -/

/-- What the gate reads of a line. Rows of older versions lack fields. -/
structure TelemetryRow where
  timestamp : Option String
  timestampMs : Option ℕ
  runId : Option String
  runCaseCount : Option ℕ
  suiteCaseCount : Option ℕ
  runAssertionCount : Option ℕ
  suiteName : Option String
  suitePath : Option String
  suiteHash : Option String
  caseId : Option String
  assertionName : Option String
  status : Option String
  outputDir : Option String
  deriving DecidableEq

/-- A call of `write_eval_telemetry`: what was run and how, and the clock when it
began to write. -/
structure EvalRun where
  suiteName : String
  mode : String
  outputDir : String
  cases : List (String × List AssertionResult)
  suitePath : String
  suiteHash : String
  suiteCaseCount : ℕ
  retention : Option ℕ
  timestampMs : ℕ
  deriving DecidableEq

namespace EvalRun

variable (run : EvalRun)

def report : EvalReport :=
  buildReport run.suiteName run.mode run.outputDir
    (run.cases.map fun case => .new case.1 case.2)

def runId : String := s!"{run.mode}-{safePathSegment run.suiteName}-{run.timestampMs}"

def evalTelemetryRow (case : EvalCaseReport) (assertion : AssertionResult) : TelemetryRow where
  timestamp := some (formatUtcTimestampMillis run.timestampMs)
  timestampMs := some run.timestampMs
  runId := some run.runId
  runCaseCount := some run.report.cases.length
  suiteCaseCount := some run.suiteCaseCount
  runAssertionCount := some run.report.assertionCount
  suiteName := some run.suiteName
  suitePath := some run.suitePath
  suiteHash := some run.suiteHash
  caseId := some case.id
  assertionName := some assertion.name
  status := some assertion.status.text
  outputDir := some run.outputDir

def rows : List TelemetryRow :=
  run.report.cases.flatMap fun case => case.assertions.map (run.evalTelemetryRow case)

end EvalRun

theorem EvalCaseReport.new_counts (id : String) (assertions : List AssertionResult) :
    (EvalCaseReport.new id assertions).passCount + (EvalCaseReport.new id assertions).failCount +
      (EvalCaseReport.new id assertions).errorCount = assertions.length := by
  unfold EvalCaseReport.new
  induction assertions with
  | nil => rfl
  | cons assertion assertions ih =>
      rw [List.countP_cons, List.countP_cons, List.countP_cons, List.length_cons, ← ih]
      cases assertion.status with
      | pass =>
          simp only [decide_true, if_true, reduceCtorEq, decide_false, Bool.false_eq_true, if_false]
          omega
      | fail =>
          simp only [decide_true, if_true, reduceCtorEq, decide_false, Bool.false_eq_true, if_false]
          omega
      | error =>
          simp only [decide_true, if_true, reduceCtorEq, decide_false, Bool.false_eq_true, if_false]
          omega

/-- The assertion count of a report is the number of rows it is written as. -/
theorem EvalRun.length_rows (run : EvalRun) : run.rows.length = run.report.assertionCount := by
  unfold EvalRun.rows EvalRun.report buildReport
  simp only
  induction run.cases with
  | nil => rfl
  | cons case cases ih =>
      have hcase := EvalCaseReport.new_counts case.1 case.2
      have hassertions : (EvalCaseReport.new case.1 case.2).assertions = case.2 := rfl
      simp only [List.map_cons, List.flatMap_cons, List.length_append, List.length_map,
        List.sum_cons, hassertions] at ih ⊢
      omega

/-- Every row of a run carries the run's data. -/
theorem EvalRun.mem_rows {run : EvalRun} {row : TelemetryRow} (h : row ∈ run.rows) :
    ∃ case assertion, row = run.evalTelemetryRow case assertion := by
  unfold EvalRun.rows at h
  obtain ⟨case, _, hcase⟩ := List.mem_flatMap.mp h
  obtain ⟨assertion, _, rfl⟩ := List.mem_map.mp hcase
  exact ⟨case, assertion, rfl⟩

/-! ## The file -/

inductive Piece where
  | text (row : TelemetryRow)
  | newline
  deriving DecidableEq

abbrev File := List Piece

/-- The texts of each line, with the open line at the end. -/
def lines : File → List (List TelemetryRow)
  | [] => [[]]
  | .newline :: pieces => [] :: lines pieces
  | .text row :: pieces =>
      match lines pieces with
      | [] => [[row]]
      | line :: rest => (row :: line) :: rest

def nonBlankLines (file : File) : List (List TelemetryRow) := (lines file).filter (· ≠ [])

/-- Lines joined by newlines, with one at the end. -/
def joinLines : List (List TelemetryRow) → File
  | [] => [.newline]
  | [line] => line.map .text ++ [.newline]
  | line :: next :: rest => line.map .text ++ .newline :: joinLines (next :: rest)

/-- What retention writes, when the file that it read has too many rows. -/
def applyTelemetryRetention (read : File) (maxRows : ℕ) : Option File :=
  let rows := nonBlankLines read
  if rows.length ≤ maxRows then none
  else some (joinLines (rows.drop (rows.length - maxRows)))

def rowsOf (file : File) : List TelemetryRow :=
  file.filterMap fun
    | .text row => some row
    | .newline => none

@[simp] theorem rowsOf_nil : rowsOf [] = [] := rfl

@[simp] theorem rowsOf_append (file rest : File) :
    rowsOf (file ++ rest) = rowsOf file ++ rowsOf rest :=
  List.filterMap_append

@[simp] theorem rowsOf_text (row : TelemetryRow) (file : File) :
    rowsOf (.text row :: file) = row :: rowsOf file := rfl

@[simp] theorem rowsOf_newline (file : File) : rowsOf (.newline :: file) = rowsOf file := rfl

@[simp] theorem rowsOf_line (line : List TelemetryRow) : rowsOf (line.map .text) = line := by
  induction line with
  | nil => rfl
  | cons row line ih => rw [List.map_cons, rowsOf_text, ih]

theorem flatten_lines (file : File) : (lines file).flatten = rowsOf file := by
  induction file with
  | nil => rfl
  | cons piece file ih =>
      cases piece with
      | newline => simpa [lines] using ih
      | text row =>
          rw [lines, rowsOf_text, ← ih]
          cases lines file with
          | nil => rfl
          | cons line rest => rfl

theorem flatten_nonBlankLines (file : File) : (nonBlankLines file).flatten = rowsOf file := by
  unfold nonBlankLines
  rw [← flatten_lines]
  induction lines file with
  | nil => rfl
  | cons line rest ih =>
      by_cases h : line = []
      · rw [List.filter_cons_of_neg (by simpa using h), ih, h]
        rfl
      · rw [List.filter_cons_of_pos (by simpa using h), List.flatten_cons, ih, List.flatten_cons]

theorem rowsOf_joinLines (rows : List (List TelemetryRow)) :
    rowsOf (joinLines rows) = rows.flatten := by
  induction rows with
  | nil => rfl
  | cons line rest ih =>
      cases rest with
      | nil => simp [joinLines]
      | cons next rest =>
          rw [joinLines, rowsOf_append, rowsOf_line, rowsOf_newline, ih, ← List.flatten_cons]

/-- Retention keeps rows in their order and adds none. -/
theorem applyTelemetryRetention_sublist {read file : File} {maxRows : ℕ}
    (h : applyTelemetryRetention read maxRows = some file) :
    (rowsOf file).Sublist (rowsOf read) := by
  unfold applyTelemetryRetention at h
  simp only at h
  split at h
  · cases h
  · rw [← Option.some.inj h, rowsOf_joinLines, ← flatten_nonBlankLines read]
    exact (List.drop_sublist _ _).flatten

/-! ## Calls that interleave -/

inductive Phase where
  | writing
  | ending
  | trimming (maxRows : ℕ)
  | rewriting (maxRows : ℕ) (read : File)
  | returned
  | stopped
  deriving DecidableEq

/-- A call, the number of texts it has written, and what it does next. -/
structure Call where
  run : EvalRun
  written : ℕ
  phase : Phase
  deriving DecidableEq

structure State where
  file : File
  calls : List Call
  deriving DecidableEq

def initial : State := ⟨[], []⟩

inductive Action where
  | start (run : EvalRun)
  | next (i : ℕ)
  | stop (i : ℕ)

/-- The next operation of a call on the file. -/
def Call.next (call : Call) (file : File) : Option (Call × File) :=
  match call.phase with
  | .writing =>
      match call.run.rows[call.written]? with
      | some row => some (⟨call.run, call.written + 1, .ending⟩, file ++ [.text row])
      | none =>
          match call.run.retention with
          | some maxRows => some ({ call with phase := .trimming maxRows }, file)
          | none => some ({ call with phase := .returned }, file)
  | .ending => some ({ call with phase := .writing }, file ++ [.newline])
  | .trimming maxRows => some ({ call with phase := .rewriting maxRows file }, file)
  | .rewriting maxRows read =>
      some ({ call with phase := .returned }, (applyTelemetryRetention read maxRows).getD file)
  | .returned => none
  | .stopped => none

/-- What one operation of a call can do to the call and the file. -/
inductive Moves (run : EvalRun) (written : ℕ) (file : File) : Phase → Call → File → Prop
  | text (row : TelemetryRow) : run.rows[written]? = some row →
      Moves run written file .writing ⟨run, written + 1, .ending⟩ (file ++ [.text row])
  | trim (maxRows : ℕ) : run.rows[written]? = none →
      Moves run written file .writing ⟨run, written, .trimming maxRows⟩ file
  | finish : run.rows[written]? = none →
      Moves run written file .writing ⟨run, written, .returned⟩ file
  | newline : Moves run written file .ending ⟨run, written, .writing⟩ (file ++ [.newline])
  | read (maxRows : ℕ) :
      Moves run written file (.trimming maxRows) ⟨run, written, .rewriting maxRows file⟩ file
  | rewrite (maxRows : ℕ) (read : File) :
      Moves run written file (.rewriting maxRows read) ⟨run, written, .returned⟩
        ((applyTelemetryRetention read maxRows).getD file)

theorem Call.next_moves {call moved : Call} {file file' : File}
    (h : call.next file = some (moved, file')) :
    Moves call.run call.written file call.phase moved file' := by
  obtain ⟨run, written, phase⟩ := call
  unfold Call.next at h
  cases phase with
  | writing =>
      simp only at h
      cases hrow : run.rows[written]? with
      | some row =>
          rw [hrow] at h
          obtain ⟨rfl, rfl⟩ := Prod.mk.inj (Option.some.inj h)
          exact .text row hrow
      | none =>
          rw [hrow] at h
          cases hretention : run.retention with
          | some maxRows =>
              simp only [hretention] at h
              obtain ⟨rfl, rfl⟩ := Prod.mk.inj (Option.some.inj h)
              exact .trim maxRows hrow
          | none =>
              simp only [hretention] at h
              obtain ⟨rfl, rfl⟩ := Prod.mk.inj (Option.some.inj h)
              exact .finish hrow
  | ending =>
      obtain ⟨rfl, rfl⟩ := Prod.mk.inj (Option.some.inj h)
      exact .newline
  | trimming maxRows =>
      obtain ⟨rfl, rfl⟩ := Prod.mk.inj (Option.some.inj h)
      exact .read maxRows
  | rewriting maxRows read =>
      obtain ⟨rfl, rfl⟩ := Prod.mk.inj (Option.some.inj h)
      exact .rewrite maxRows read
  | returned => cases h
  | stopped => cases h

theorem Moves.run_eq {run : EvalRun} {written : ℕ} {file file' : File} {phase : Phase}
    {moved : Call} (h : Moves run written file phase moved file') : moved.run = run := by
  cases h <;> rfl

theorem Moves.written_le {run : EvalRun} {written : ℕ} {file file' : File} {phase : Phase}
    {moved : Call} (h : Moves run written file phase moved file') : written ≤ moved.written := by
  cases h with
  | text row hrow => exact Nat.le_succ written
  | trim maxRows hrow => exact Nat.le_refl written
  | finish hrow => exact Nat.le_refl written
  | newline => exact Nat.le_refl written
  | read maxRows => exact Nat.le_refl written
  | rewrite maxRows read => exact Nat.le_refl written

def step (state : State) : Action → Option State
  | .start run => some { state with calls := state.calls ++ [⟨run, 0, .writing⟩] }
  | .next i =>
      state.calls[i]?.bind fun call =>
        (call.next state.file).map fun moved => ⟨moved.2, state.calls.set i moved.1⟩
  | .stop i =>
      state.calls[i]?.map fun call =>
        { state with calls := state.calls.set i { call with phase := .stopped } }

end DbtNova.EvalTelemetry
