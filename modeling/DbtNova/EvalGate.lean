import DbtNova.Error
import DbtNova.EvalTelemetry
import Mathlib.Data.List.Sort
import Mathlib.Data.List.Dedup

/-!
# The gate over the latest eval run

The gate reads the telemetry of a suite, picks the rows of the latest run and
allows when they cover the current suite file and enough of them passed.
A rate is an `f64`, the binary float of the core library.
-/
namespace DbtNova.EvalGate
open EvalTelemetry

/-! ## Reading the telemetry -/

/-- What the gate finds outside the telemetry: the suite files, and the text of the
parse error for a line of several rows. -/
structure GateEnv where
  pathExists : String → Bool
  loadSuiteWithHash : String → Result (Option Float × String)
  parseError : List TelemetryRow → String

def readLines (env : GateEnv) (suiteName : String) :
    ℕ → List (List TelemetryRow) → Result (List TelemetryRow)
  | _, [] => .ok []
  | index, [] :: rest => readLines env suiteName (index + 1) rest
  | index, [row] :: rest =>
      (readLines env suiteName (index + 1) rest).map fun rows =>
        if row.suiteName = some suiteName then row :: rows else rows
  | index, line :: _ =>
      let path := telemetryPathForSuite suiteName
      .error (.invalidParams
        s!"failed to parse telemetry line {index + 1} in '{path}': {env.parseError line}")

def readTelemetryRowsForSuite (env : GateEnv) (suiteName : String) (file : File) :
    Result (List TelemetryRow) :=
  readLines env suiteName 0 (lines file)

/-! ## The latest run -/

def nonBlank (text : String) : Bool := Text.trim text ≠ ""

/-- `Iterator::max_by_key`: the last one of the greatest. -/
def maxByKey {α : Type*} (key : α → ℕ) : List α → Option α
  | [] => none
  | a :: as => some (as.foldl (fun best b => if key best ≤ key b then b else best) a)

def rowStamp (row : TelemetryRow) : ℕ := row.timestampMs.getD 0

def latestTelemetryRows (rows : List TelemetryRow) : List TelemetryRow :=
  match maxByKey rowStamp rows with
  | none => []
  | some latest =>
      match latest.runId.filter nonBlank with
      | some runId => rows.filter fun row => row.runId = some runId
      | none =>
          let latestTimestamp := some (rowStamp latest)
          match latest.outputDir.filter nonBlank with
          | some outputDir =>
              rows.filter fun row =>
                row.timestampMs = latestTimestamp ∧ row.outputDir = some outputDir
          | none => rows.filter fun row => row.timestampMs = latestTimestamp

/-! ## The report -/

/-- `f64::from(u32)`, exact. -/
def f64OfNat (n : ℕ) : Float := .ofModel (.pack (.ofInt Float.Model.Format.binary64 n))

def u32Max : ℕ := 2 ^ 32 - 1

def ratio (numerator denominator : ℕ) : Float :=
  f64OfNat (min numerator u32Max) / f64OfNat (min denominator u32Max)

/-- The `{:.3}` of a float: thousandths, halves to even. -/
def fixedThree (x : Float) : String :=
  let print (sign : Float.Model.UnpackedFloat.Sign) (thousandths : ℕ) : String :=
    (if sign.apply 1 < 0 then "-" else "") ++ toString (thousandths / 1000) ++ "." ++
      zeroPadded 3 (toString (thousandths % 1000))
  match x.toModel.unpack with
  | .notANumber => "NaN"
  | .infinity sign => if sign.apply 1 < 0 then "-inf" else "inf"
  | .zero sign => print sign 0
  | .finite sign mantissa exponent _ =>
      let unit := 2 ^ (-exponent).toNat
      let scaled := mantissa * 1000 * 2 ^ exponent.toNat
      let down := scaled / unit
      let twice := 2 * (scaled % unit)
      print sign (if unit < twice ∨ twice = unit ∧ down % 2 = 1 then down + 1 else down)

def telemetryEvalId (row : TelemetryRow) : String :=
  let caseId := row.caseId.getD "unknown_case"
  let assertionName := row.assertionName.getD "unknown_assertion"
  s!"{caseId}::{assertionName}"

structure EvalGateTelemetrySummary where
  totalEvals : ℕ
  passRate : Float
  failedEvalIds : List String
  failedCaseIds : List String
  telemetryTimestamp : Option String
  outputDir : Option String
  suitePath : Option String

structure EvalGateReport where
  suiteName : String
  allowed : Bool
  blocked : Bool
  gateConfigured : Bool
  threshold : Option Float
  passRate : Float
  totalEvals : ℕ
  failedEvals : ℕ
  failedEvalIds : List String
  failedCaseIds : List String
  telemetryTimestamp : Option String
  outputDir : Option String
  suitePath : Option String
  message : String
  deriving DecidableEq

def EvalGateTelemetrySummary.intoReport (summary : EvalGateTelemetrySummary) (suiteName : String)
    (allowed gateConfigured : Bool) (threshold : Option Float) (message : String) :
    EvalGateReport where
  suiteName := suiteName
  allowed := allowed
  blocked := !allowed
  gateConfigured := gateConfigured
  threshold := threshold
  passRate := summary.passRate
  totalEvals := summary.totalEvals
  failedEvals := summary.failedEvalIds.length
  failedEvalIds := summary.failedEvalIds
  failedCaseIds := summary.failedCaseIds
  telemetryTimestamp := summary.telemetryTimestamp
  outputDir := summary.outputDir
  suitePath := summary.suitePath
  message := message

def emptyEvalGateReport (suiteName : String) : EvalGateReport where
  suiteName := suiteName
  allowed := false
  blocked := true
  gateConfigured := false
  threshold := none
  passRate := f64OfNat 0
  totalEvals := 0
  failedEvals := 0
  failedEvalIds := []
  failedCaseIds := []
  telemetryTimestamp := none
  outputDir := none
  suitePath := none
  message := s!"no eval telemetry found for suite '{suiteName}'; run the suite with --telemetry first"

def passed (row : TelemetryRow) : Bool := row.status = some "pass"

def summarizeLatestGateTelemetry (latestRows : List TelemetryRow) : EvalGateTelemetrySummary :=
  let failedRows := latestRows.filter fun row => !passed row
  { totalEvals := latestRows.length
    passRate := ratio (latestRows.countP passed) latestRows.length
    failedEvalIds := failedRows.map telemetryEvalId
    failedCaseIds := ((failedRows.filterMap TelemetryRow.caseId).insertionSort (· ≤ ·)).dedup
    telemetryTimestamp := latestRows.head?.bind TelemetryRow.timestamp
    outputDir := latestRows.head?.bind TelemetryRow.outputDir
    suitePath := latestRows.head?.bind TelemetryRow.suitePath }

def gateAllowedMessage (threshold : Option Float) (passRate : Float) : Bool × String :=
  match threshold with
  | some threshold =>
      let allowed : Bool := threshold ≤ passRate
      let printed := fixedThree threshold
      (allowed,
        if allowed then s!"latest eval telemetry passed gate threshold {printed}"
        else s!"latest eval telemetry below gate threshold {printed}; inspect failed_eval_ids " ++
          "before relying on this suite")
  | none => (true, "no gate threshold configured; advisory gate allowed by default")

def latestRunIncompleteMessage (rows : List TelemetryRow) (currentSuiteHash : String) :
    Option String :=
  match (rows.head?.bind TelemetryRow.suiteHash).filter nonBlank with
  | none => some ("latest eval telemetry does not include suite_hash; rerun the full suite with " ++
      "--telemetry before checking the gate")
  | some recordedSuiteHash =>
      if recordedSuiteHash ≠ currentSuiteHash then
        some ("latest eval telemetry was produced from a different suite file version; rerun the " ++
          "full suite with --telemetry before checking the gate")
      else
        match rows.head?.bind TelemetryRow.runCaseCount with
        | none => some ("latest eval telemetry does not include run_case_count; rerun the full " ++
            "suite with --telemetry before checking the gate")
        | some runCaseCount =>
            match rows.head?.bind TelemetryRow.suiteCaseCount with
            | none => some ("latest eval telemetry does not include suite_case_count; rerun the " ++
                "full suite with --telemetry before checking the gate")
            | some suiteCaseCount =>
                if runCaseCount ≠ suiteCaseCount then
                  some (s!"latest eval telemetry covers {runCaseCount} of {suiteCaseCount} suite " ++
                    "cases; rerun the full suite with --telemetry before checking the gate")
                else
                  match rows.head?.bind TelemetryRow.runAssertionCount with
                  | none => some ("latest eval telemetry does not include run_assertion_count; " ++
                      "rerun the suite with --telemetry before checking the gate")
                  | some expected =>
                      if expected = rows.length then none
                      else
                        some (s!"latest eval telemetry is incomplete: found {rows.length} of " ++
                          s!"{expected} assertion rows; rerun the suite with --telemetry or " ++
                          "increase --telemetry-retention")

inductive GateConfigStatus where
  | configured (threshold : Float) (suiteHash : String)
  | unconfigured
  | unavailable (message : String)

def gateConfigStatusFromSuitePath (env : GateEnv) (path : Option String) :
    Result GateConfigStatus :=
  match path.filter nonBlank with
  | none =>
      .ok (.unavailable
        "latest telemetry did not include suite_path; rerun the suite with --telemetry")
  | some path =>
      if env.pathExists path then
        (env.loadSuiteWithHash path).map fun loaded =>
          match loaded.1 with
          | some threshold => .configured threshold loaded.2
          | none => .unconfigured
      else
        .ok (.unavailable (s!"suite config '{path}' could not be read; rerun the suite with " ++
          "--telemetry from the current checkout"))

def gateReport (suiteName : String) (latestRows : List TelemetryRow) (gate : GateConfigStatus) :
    EvalGateReport :=
  let summary := summarizeLatestGateTelemetry latestRows
  match gate with
  | .unavailable message => summary.intoReport suiteName false false none message
  | .unconfigured =>
      let allowed := gateAllowedMessage none summary.passRate
      summary.intoReport suiteName allowed.1 false none allowed.2
  | .configured threshold suiteHash =>
      match latestRunIncompleteMessage latestRows suiteHash with
      | some message => summary.intoReport suiteName false true (some threshold) message
      | none =>
          let allowed := gateAllowedMessage (some threshold) summary.passRate
          summary.intoReport suiteName allowed.1 true (some threshold) allowed.2

def buildEvalGateReport (env : GateEnv) (suiteName : String) (rows : List TelemetryRow) :
    Result EvalGateReport :=
  let latestRows := latestTelemetryRows rows
  if latestRows = [] then .ok (emptyEvalGateReport suiteName)
  else
    (gateConfigStatusFromSuitePath env (summarizeLatestGateTelemetry latestRows).suitePath).map
      (gateReport suiteName latestRows)

def buildEvalGateReportForSuite (env : GateEnv) (suiteName : String) (file : File) :
    Result EvalGateReport :=
  (readTelemetryRowsForSuite env suiteName file).bind (buildEvalGateReport env suiteName)

/-! ## What an allowed report rests on -/

/-- Where every line parses, the rows are those of the file, in their order. -/
theorem readLines_eq (env : GateEnv) (suiteName : String) {index : ℕ}
    {texts : List (List TelemetryRow)} {rows : List TelemetryRow}
    (h : readLines env suiteName index texts = .ok rows) :
    rows = texts.flatten.filter fun row => row.suiteName = some suiteName := by
  induction texts generalizing index rows with
  | nil => exact (Except.ok.inj h).symm
  | cons line texts ih =>
      cases line with
      | nil =>
          rw [readLines] at h
          exact ih h
      | cons row line =>
          cases line with
          | nil =>
              rw [readLines] at h
              cases hrest : readLines env suiteName (index + 1) texts with
              | error error =>
                  rw [hrest] at h
                  cases h
              | ok rest =>
                  rw [hrest] at h
                  rw [← Except.ok.inj h, ih hrest, List.flatten_cons, List.singleton_append,
                    List.filter_cons]
                  simp only [decide_eq_true_eq]
          | cons second line =>
              rw [readLines] at h
              · cases h
              · simp
              · simp

theorem readTelemetryRowsForSuite_eq {env : GateEnv} {suiteName : String} {file : File}
    {rows : List TelemetryRow} (h : readTelemetryRowsForSuite env suiteName file = .ok rows) :
    rows = (rowsOf file).filter fun row => row.suiteName = some suiteName := by
  rw [← flatten_lines]
  exact readLines_eq env suiteName h

theorem foldl_max_spec {α : Type*} (key : α → ℕ) (as : List α) (a : α) :
    let best := as.foldl (fun best b => if key best ≤ key b then b else best) a
    best ∈ a :: as ∧ ∀ b ∈ a :: as, key b ≤ key best := by
  induction as generalizing a with
  | nil => simp
  | cons b as ih =>
      intro best
      obtain ⟨hmem, hmax⟩ := ih (if key a ≤ key b then b else a)
      have hbest : best = as.foldl (fun best b => if key best ≤ key b then b else best)
          (if key a ≤ key b then b else a) := rfl
      rw [← hbest] at hmem hmax
      have hfirst := hmax _ List.mem_cons_self
      constructor
      · split at hmem
        · exact List.mem_cons_of_mem a hmem
        · cases List.mem_cons.mp hmem with
          | inl heq => exact List.mem_cons.mpr (.inl heq)
          | inr hrest => exact List.mem_cons_of_mem a (List.mem_cons_of_mem b hrest)
      · intro c hc
        cases List.mem_cons.mp hc with
        | inl heq =>
            rw [heq]
            split at hfirst
            · omega
            · exact hfirst
        | inr hc =>
            cases List.mem_cons.mp hc with
            | inl heq =>
                rw [heq]
                split at hfirst
                · exact hfirst
                · omega
            | inr hrest => exact hmax c (List.mem_cons_of_mem _ hrest)

theorem maxByKey_spec {α : Type*} {key : α → ℕ} {as : List α} {a : α}
    (h : maxByKey key as = some a) : a ∈ as ∧ ∀ b ∈ as, key b ≤ key a := by
  cases as with
  | nil => cases h
  | cons first as =>
      rw [← Option.some.inj h]
      exact foldl_max_spec key as first

/-- The latest rows of a suite whose rows all carry a run id. -/
theorem latestTelemetryRows_spec {rows : List TelemetryRow} (h : latestTelemetryRows rows ≠ [])
    (hid : ∀ row ∈ rows, ∃ runId, row.runId = some runId ∧ nonBlank runId = true) :
    ∃ latest ∈ rows, (∀ row ∈ rows, rowStamp row ≤ rowStamp latest) ∧
      latestTelemetryRows rows = rows.filter fun row => row.runId = latest.runId := by
  unfold latestTelemetryRows at h ⊢
  cases hmax : maxByKey rowStamp rows with
  | none =>
      rw [hmax] at h
      exact absurd rfl h
  | some latest =>
      obtain ⟨hmem, hnewest⟩ := maxByKey_spec hmax
      obtain ⟨runId, hrunId, hblank⟩ := hid latest hmem
      refine ⟨latest, hmem, hnewest, ?_⟩
      simp only [hrunId, Option.filter_some, hblank, if_true]

theorem latestRunIncompleteMessage_eq_none {rows : List TelemetryRow} {suiteHash : String}
    (h : latestRunIncompleteMessage rows suiteHash = none) :
    ∃ first, rows.head? = some first ∧ first.suiteHash = some suiteHash ∧
      first.runAssertionCount = some rows.length := by
  unfold latestRunIncompleteMessage at h
  cases hfirst : rows.head? with
  | none => simp [hfirst] at h
  | some first =>
      refine ⟨first, rfl, ?_⟩
      rw [hfirst] at h
      simp only [Option.bind_some] at h
      split at h
      · cases h
      · rename_i recorded hrecorded
        split at h
        · cases h
        · rename_i hhash
          split at h
          · cases h
          · split at h
            · cases h
            · split at h
              · cases h
              · split at h
                · cases h
                · rename_i expected hexpected
                  split at h
                  · rename_i hcount
                    rw [hexpected, hcount, (Option.filter_eq_some_iff.mp hrecorded).1,
                      of_not_not hhash]
                    exact ⟨rfl, rfl⟩
                  · cases h

/-- A configured gate that allows found a complete run of the current suite file, and a
rate that reaches the threshold. -/
theorem gateReport_allowed {suiteName : String} {rows : List TelemetryRow}
    {gate : GateConfigStatus} (hconfigured : (gateReport suiteName rows gate).gateConfigured = true)
    (hallowed : (gateReport suiteName rows gate).allowed = true) :
    ∃ threshold suiteHash, gate = .configured threshold suiteHash ∧
      latestRunIncompleteMessage rows suiteHash = none ∧
      (gateReport suiteName rows gate).threshold = some threshold ∧
      (gateReport suiteName rows gate).passRate = ratio (rows.countP passed) rows.length ∧
      threshold ≤ ratio (rows.countP passed) rows.length := by
  cases gate with
  | unavailable message => cases hconfigured
  | unconfigured => cases hconfigured
  | configured threshold suiteHash =>
      refine ⟨threshold, suiteHash, rfl, ?_⟩
      unfold gateReport at hallowed ⊢
      simp only at hallowed ⊢
      cases hmessage : latestRunIncompleteMessage rows suiteHash with
      | some message =>
          rw [hmessage] at hallowed
          cases hallowed
      | none =>
          rw [hmessage] at hallowed
          exact ⟨rfl, rfl, rfl, of_decide_eq_true hallowed⟩

theorem buildEvalGateReport_configured {env : GateEnv} {suiteName : String}
    {rows : List TelemetryRow} {report : EvalGateReport}
    (h : buildEvalGateReport env suiteName rows = .ok report)
    (hconfigured : report.gateConfigured = true) :
    latestTelemetryRows rows ≠ [] ∧
      ∃ gate, gateConfigStatusFromSuitePath env
          ((latestTelemetryRows rows).head?.bind TelemetryRow.suitePath) = .ok gate ∧
        report = gateReport suiteName (latestTelemetryRows rows) gate := by
  unfold buildEvalGateReport at h
  simp only at h
  split at h
  · rw [← Except.ok.inj h] at hconfigured
    cases hconfigured
  · rename_i hrows
    refine ⟨hrows, ?_⟩
    cases hgate : gateConfigStatusFromSuitePath env
        (summarizeLatestGateTelemetry (latestTelemetryRows rows)).suitePath with
    | error error =>
        rw [hgate] at h
        cases h
    | ok gate =>
        rw [hgate] at h
        exact ⟨gate, hgate, (Except.ok.inj h).symm⟩

theorem gateConfigStatus_configured {env : GateEnv} {path : String} {threshold : Float}
    {suiteHash : String}
    (h : gateConfigStatusFromSuitePath env (some path) = .ok (.configured threshold suiteHash)) :
    env.loadSuiteWithHash path = .ok (some threshold, suiteHash) := by
  unfold gateConfigStatusFromSuitePath at h
  cases hpath : (some path).filter nonBlank with
  | none =>
      rw [hpath] at h
      cases h
  | some kept =>
      have hkept : path = kept := Option.some.inj (Option.filter_eq_some_iff.mp hpath).1
      rw [hpath] at h
      simp only at h
      rw [← hkept] at h
      split at h
      · cases hload : env.loadSuiteWithHash path with
        | error error =>
            rw [hload] at h
            cases h
        | ok loaded =>
            obtain ⟨gate, loadedHash⟩ := loaded
            rw [hload] at h
            cases gate with
            | none => cases h
            | some loadedThreshold =>
                obtain ⟨rfl, rfl⟩ := GateConfigStatus.configured.inj (Except.ok.inj h)
                rfl
      · cases h

end DbtNova.EvalGate
