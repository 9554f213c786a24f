import DbtNova.Binary64
import DbtNova.MetaAccessors
import DbtNova.WarmStart

/-!
# Test coverage figures

`get_test_coverage` of `tools/coverage.rs` and `build_test_context` of `tools/context.rs`. The
entity of an id is its payload, which a read returns, lacks or fails to return.
-/
namespace DbtNova.TestCoverage
open JsonValue Text
open WarmStart (Visit inKeyOrder)

def defaultTestCoverageColumnsLimit : ℕ := 50
def testContextColumnsWithoutTestsLimit : ℕ := 20
def usizeMax : ℕ := 2 ^ 64 - 1

structure ManifestSearch (ε : Type*) where
  testsByEntity : String → List String
  testsByColumn : String → List String
  getEntity : String → Except ε (Option JsonValue)
  resolveSingleId : String → Option String → Except ε String
  entityNotFound : String → Option String → ε

structure GetTestCoverageParams where
  idOrName : String
  resourceType : Option String := none
  includeFull : Bool := true
  columnsLimit : Option ℕ := none

/-- What is listed of one test. The last three are listed only in full. -/
structure TestInfo where
  uniqueId : String
  name : Option JsonValue
  testType : String
  columnName : Option JsonValue
  severity : Option JsonValue := none
  tags : Option JsonValue := none
  testMetadata : Option JsonValue := none

structure CoverageGap where
  gapType : String
  severity : String
  column : Option String := none
  columnCount : Option ℕ := none
  message : String
deriving DecidableEq

structure CoverageSummary where
  totalTests : ℕ
  schemaTests : ℕ
  dataTests : ℕ
  testTypes : String → ℕ
  columnsTested : ℕ
  columnsTotal : ℕ
  coveragePercentage : ℕ

structure CoverageReport where
  uniqueId : String
  name : Option String
  resourceType : Option String
  summary : CoverageSummary
  schemaTests : List TestInfo
  dataTests : List TestInfo
  columnsWithoutTests : List String
  columnsWithoutTestsTruncated : Bool
  columnsWithoutTestsTotal : ℕ
  coverageGaps : List CoverageGap

structure TestSummary where
  uniqueId : String
  name : String
  testType : String
  columnName : Option String

structure TestContext where
  totalTests : ℕ
  schemaTests : ℕ
  dataTests : ℕ
  coveragePercentage : ℕ
  columnsTested : ℕ
  columnsTotal : ℕ
  columnsWithoutTests : List String
  columnsWithoutTestsTruncated : Option Bool
  byType : String → ℕ
  gaps : List CoverageGap
  tests : List TestSummary

/-! ## One test, one column -/

def testTypeFromJson (test : JsonValue) : String :=
  ((test.get "test_metadata").bind (·.getStr "name")).getD "custom"

def isSchemaTest (test : JsonValue) : Bool := (test.get "test_metadata").any (!·.isNull)

def parseBoolLike : Option JsonValue → Option Bool
  | some (.bool flag) => some flag
  | some (.string text) =>
      if eqIgnoreAsciiCase text "true" then some true
      else if eqIgnoreAsciiCase text "false" then some false
      else none
  | _ => none

def columnPrimaryKeyBool (column : JsonValue) : Bool :=
  (parseBoolLike (EntityMeta.columnMetaFieldJson column "primary_key")).getD false

def columnsOf (entity : JsonValue) : List (String × JsonValue) :=
  ((entity.get "columns").bind asObject).getD []

/-- Sorted, as `get_column_names` leaves them. -/
def columnNames (entity : JsonValue) : List String :=
  ((columnsOf entity).map Prod.fst).insertionSort (· ≤ ·)

def testInfo (includeFull : Bool) (testId : String) (test : JsonValue) : TestInfo :=
  { uniqueId := testId
    name := test.get "name"
    testType := testTypeFromJson test
    columnName := test.get "column_name"
    severity := if includeFull then (test.get "config").bind (·.get "severity") else none
    tags := if includeFull then test.get "tags" else none
    testMetadata := if includeFull then test.get "test_metadata" else none }

def testSummary (testId : String) (test : JsonValue) : TestSummary :=
  { uniqueId := testId
    name := (test.getStr "name").getD ""
    testType := testTypeFromJson test
    columnName := test.getStr "column_name" }

def bump (counts : String → ℕ) (key : String) : String → ℕ :=
  fun k => if k = key then counts k + 1 else counts k

/-- A set insert for the column that a schema test names. -/
def insertColumn (columns : Finset String) (test : JsonValue) : Finset String :=
  match test.getStr "column_name" with
  | some column => insert column columns
  | none => columns

/-! ## The percentages -/

/-- The quotient, the product with 100 and the two counts are each rounded to 53 bits. -/
def sharePct (share : ℚ) : ℤ :=
  Binary64.roundHalfAway (Binary64.round (Binary64.round share * (100 : ℕ)))

/-- The percentage of `get_test_coverage`. -/
def coveragePct (tested total : ℕ) : ℕ :=
  if 0 < total then
    min (sharePct (Binary64.round tested / Binary64.round total)).toNat usizeMax
  else 0

/-- The percentage of `get_context`. -/
def contextPct (tested total : ℕ) : ℕ :=
  if total = 0 then 100 else (min (tested * 100) usizeMax + total / 2) / total

namespace ManifestSearch
variable {ε : Type*} (search : ManifestSearch ε)

/-! ## The tool `get_test_coverage` -/

structure CoverageTally where
  schemaTests : List TestInfo := []
  dataTests : List TestInfo := []
  testTypes : String → ℕ := fun _ => 0
  columnsTested : Finset String := ∅

def countTest (includeFull : Bool) (tally : CoverageTally) (testId : String) :
    Except ε CoverageTally :=
  (search.getEntity testId).map fun found =>
    match found with
    | none => tally
    | some test =>
        let testTypes := bump tally.testTypes (testTypeFromJson test)
        if isSchemaTest test then
          { tally with
            testTypes := testTypes
            columnsTested := insertColumn tally.columnsTested test
            schemaTests := tally.schemaTests ++ [testInfo includeFull testId test] }
        else
          { tally with
            testTypes := testTypes
            dataTests := tally.dataTests ++ [testInfo includeFull testId test] }

def testExists (testName : String) : List String → Except ε Bool
  | [] => .ok false
  | testId :: testIds =>
      (search.getEntity testId).bind fun found =>
        if (found.bind fun test => (test.get "test_metadata").bind (·.getStr "name")) =
            some testName then .ok true
        else testExists testName testIds

def lacksTest (testName columnName : String) : CoverageGap :=
  { gapType := s!"missing_{testName}_test"
    severity := "high"
    column := some columnName
    message := s!"Primary key column '{columnName}' lacks a {testName} test" }

def primaryKeyGaps (entityId : String) :
    List (String × JsonValue) → Except ε (List CoverageGap)
  | [] => .ok []
  | (columnName, column) :: columns =>
      if columnPrimaryKeyBool column then do
        let columnTests := search.testsByColumn s!"{entityId}:{columnName}"
        let hasUnique ← search.testExists "unique" columnTests
        let hasNotNull ← search.testExists "not_null" columnTests
        let gaps ← primaryKeyGaps entityId columns
        return (if hasUnique then [] else [lacksTest "unique" columnName]) ++
          (if hasNotNull then [] else [lacksTest "not_null" columnName]) ++ gaps
      else primaryKeyGaps entityId columns

def untestedColumn (column : String) : CoverageGap :=
  { gapType := "untested_column"
    severity := "low"
    column := some column
    message := s!"Column '{column}' has no tests" }

def untestedGaps (total : ℕ) (columnsWithoutTests : List String) : List CoverageGap :=
  if 0 < total ∧ total ≤ 5 then columnsWithoutTests.map untestedColumn
  else if 5 < total then
    [{ gapType := "many_untested_columns"
       severity := "medium"
       columnCount := some total
       message := s!"{total} columns have no tests" }]
  else []

/-- The columns of the entity that are not in the set, in the order of one hash table. -/
def untestedColumns (visit : Visit) (entity : JsonValue) (columnsTested : Finset String) :
    List String :=
  visit.order (inKeyOrder ((columnNames entity).toFinset \ columnsTested))

def testCoverageOf (visit : Visit) (params : GetTestCoverageParams) (entityId : String)
    (entity : JsonValue) : Except ε CoverageReport := do
  let testIds := search.testsByEntity entityId
  let tally ← testIds.foldlM (search.countTest params.includeFull) {}
  let untested := untestedColumns visit entity tally.columnsTested
  let limit := params.columnsLimit.getD defaultTestCoverageColumnsLimit
  let truncated := decide (0 < limit ∧ limit < untested.length)
  let columnsWithoutTests := if truncated then untested.take limit else untested
  let keyGaps ← search.primaryKeyGaps entityId (columnsOf entity)
  let totalColumns := (columnNames entity).toFinset.card
  return {
    uniqueId := entityId
    name := entity.getStr "name"
    resourceType := entity.getStr "resource_type"
    summary :=
      { totalTests := testIds.length
        schemaTests := tally.schemaTests.length
        dataTests := tally.dataTests.length
        testTypes := tally.testTypes
        columnsTested := tally.columnsTested.card
        columnsTotal := totalColumns
        coveragePercentage := coveragePct tally.columnsTested.card totalColumns }
    schemaTests := tally.schemaTests
    dataTests := tally.dataTests
    columnsWithoutTests := columnsWithoutTests
    columnsWithoutTestsTruncated := truncated
    columnsWithoutTestsTotal := untested.length
    coverageGaps := keyGaps ++ untestedGaps untested.length columnsWithoutTests }

def getTestCoverage (visit : Visit) (params : GetTestCoverageParams) : Except ε CoverageReport :=
  (search.resolveSingleId params.idOrName params.resourceType).bind fun entityId =>
    (search.getEntity entityId).bind fun found =>
      match found with
      | none => .error (search.entityNotFound entityId params.resourceType)
      | some entity => search.testCoverageOf visit params entityId entity

/-! ## The tests in `get_context` -/

structure ContextTally where
  schemaTests : ℕ := 0
  dataTests : ℕ := 0
  byType : String → ℕ := fun _ => 0
  tests : List TestSummary := []
  columnsTested : Finset String := ∅

def summarizeTest (tally : ContextTally) (testId : String) : Except ε ContextTally :=
  (search.getEntity testId).map fun found =>
    match found with
    | none => tally
    | some test =>
        let byType := bump tally.byType (testTypeFromJson test)
        let tests := tally.tests ++ [testSummary testId test]
        if isSchemaTest test then
          { tally with
            byType := byType
            schemaTests := tally.schemaTests + 1
            columnsTested := insertColumn tally.columnsTested test
            tests := tests }
        else
          { tally with
            byType := byType
            dataTests := tally.dataTests + 1
            tests := tests }

def contextUntested (entity : Option JsonValue) (columnsTested : Finset String) : List String :=
  (entity.map columnNames).getD [] |>.filter (· ∉ columnsTested)

def missingKeyTest (column : String) : CoverageGap :=
  { gapType := "missing_pk_test"
    severity := "high"
    column := some column
    message := s!"Primary key column '{column}' lacks tests" }

def contextGaps (entity : Option JsonValue) (columnsTested : Finset String)
    (columnsWithoutTests : List String) : List CoverageGap :=
  let keys := (((entity.map columnsOf).getD []).filter fun column =>
    columnPrimaryKeyBool column.2).map Prod.fst
  (keys.filter (· ∉ columnsTested)).map missingKeyTest ++
    (columnsWithoutTests.filter (· ∉ keys)).map untestedColumn

def buildTestContext (entityId : String) : Except ε TestContext := do
  let testIds := search.testsByEntity entityId
  let tally ← testIds.foldlM search.summarizeTest {}
  let entity ← search.getEntity entityId
  let totalColumns := (entity.map columnNames).getD [] |>.length
  let untested := contextUntested entity tally.columnsTested
  let truncated := decide (testContextColumnsWithoutTestsLimit < untested.length)
  let columnsWithoutTests :=
    if truncated then untested.take testContextColumnsWithoutTestsLimit else untested
  return {
    totalTests := testIds.length
    schemaTests := tally.schemaTests
    dataTests := tally.dataTests
    coveragePercentage := contextPct tally.columnsTested.card totalColumns
    columnsTested := tally.columnsTested.card
    columnsTotal := totalColumns
    columnsWithoutTests := columnsWithoutTests
    columnsWithoutTestsTruncated := if truncated then some true else none
    byType := tally.byType
    gaps := contextGaps entity tally.columnsTested columnsWithoutTests
    tests := tally.tests }

end ManifestSearch

/-! ## Where the two percentages agree -/

/-- Both counts below `2 ^ 44`, the share is none of four; there is no shorter description for
the larger ones. -/
def RoundsAlike (tested total : ℕ) : Prop :=
  if total < 2 ^ 44 then ∀ half ∈ [29, 57, 113, 115], 200 * tested ≠ half * total
  else coveragePct tested total = contextPct tested total

instance (tested total : ℕ) : Decidable (RoundsAlike tested total) := by
  unfold RoundsAlike
  infer_instance

section Percentages
variable {tested total : ℕ}

theorem contextPct_eq (htotal : 0 < total) (hle : tested ≤ total) (hlt : total < 2 ^ 44) :
    (contextPct tested total : ℤ) =
      Binary64.roundHalfAway (((tested * 100 : ℕ) : ℚ) / total) := by
  have hmin : min (tested * 100) usizeMax = tested * 100 := by
    unfold usizeMax
    omega
  rw [contextPct, if_neg htotal.ne', hmin, Binary64.roundHalfAway_div _ htotal]

theorem abs_sharePct_sub_lt {share : ℚ} (hshare : 0 ≤ share) (hle : share ≤ 1) :
    |Binary64.round (Binary64.round share * (100 : ℕ)) - share * 100| < 1 / 2 ^ 45 := by
  have hquotient := Binary64.abs_round_sub_le hshare
  obtain ⟨hlow, hhigh⟩ := abs_le.mp hquotient
  have hsmall : share / 2 ^ 53 ≤ share := div_le_self hshare (by norm_num)
  have hround : 0 ≤ Binary64.round share * (100 : ℕ) := by
    push_cast
    linarith
  obtain ⟨hlow', hhigh'⟩ := abs_le.mp (Binary64.abs_round_sub_le hround)
  push_cast at hlow' hhigh' ⊢
  rw [abs_lt]
  constructor <;> linarith

theorem coveragePct_eq (htotal : 0 < total) (hle : tested ≤ total) (hlt : total < 2 ^ 44) :
    coveragePct tested total = min (sharePct ((tested : ℚ) / total)).toNat usizeMax := by
  have htotal' : total < 2 ^ 53 := hlt.trans (by decide)
  rw [coveragePct, if_pos htotal, Binary64.round_natCast (hle.trans_lt htotal'),
    Binary64.round_natCast htotal']

theorem contextPct_le (htotal : 0 < total) (hle : tested ≤ total) :
    contextPct tested total ≤ 100 := by
  have hcapped : min (tested * 100) usizeMax ≤ total * 100 :=
    (min_le_left _ _).trans (Nat.mul_le_mul_right 100 hle)
  rw [contextPct, if_neg htotal.ne', ← Nat.lt_succ_iff, Nat.div_lt_iff_lt_mul htotal]
  omega

/-- Away from the halves the error of the two roundings is too small to show. -/
theorem percentages_agree (htotal : 0 < total) (hle : tested ≤ total) (hlt : total < 2 ^ 44)
    (hoff : ¬ 2 * total ∣ 200 * tested + total) :
    coveragePct tested total = contextPct tested total := by
  have hpos : (0 : ℚ) < total := Nat.cast_pos.mpr htotal
  have hshare : (tested : ℚ) / total ≤ 1 := (div_le_one hpos).mpr (Nat.cast_le.mpr hle)
  have hnear := abs_sharePct_sub_lt (div_nonneg (Nat.cast_nonneg tested) hpos.le) hshare
  have hstep : (1 : ℚ) / 2 ^ 45 ≤ 1 / (2 * total : ℕ) := by
    apply one_div_le_one_div_of_le (by exact_mod_cast Nat.mul_pos two_pos htotal)
    exact_mod_cast (by omega : 2 * total ≤ 2 ^ 45)
  have hhalf : (tested : ℚ) / total * 100 + 1 / 2 =
      (200 * tested + total : ℕ) / (2 * total : ℕ) := by
    push_cast
    field_simp
    ring
  have hsame : sharePct ((tested : ℚ) / total) = contextPct tested total := by
    rw [contextPct_eq htotal hle hlt, sharePct,
      Binary64.roundHalfAway_eq_of_near (Nat.mul_pos two_pos htotal) hhalf hoff
        (hnear.trans_le hstep)]
    congr 1
    push_cast
    ring
  have hcontext := contextPct_le htotal hle
  rw [coveragePct_eq htotal hle hlt, hsame]
  unfold usizeMax
  omega

/-- The halves: four of them come out below. -/
theorem sharePct_half : ∀ k < 100,
    min (sharePct (((2 * k + 1 : ℕ) : ℚ) / (200 : ℕ))).toNat usizeMax =
      if k ∈ [14, 28, 56, 57] then k else k + 1 := by
  decide +kernel

theorem contextPct_half {k : ℕ} (htotal : 0 < total) (hle : tested ≤ total)
    (hlt : total < 2 ^ 44) (hhalf : 200 * tested = (2 * k + 1) * total) :
    contextPct tested total = k + 1 := by
  have hpos : (0 : ℚ) < total := Nat.cast_pos.mpr htotal
  have hshare : ((tested * 100 : ℕ) : ℚ) / total + 1 / 2 = (k + 1 : ℤ) := by
    have hcast : (200 : ℚ) * tested = (2 * k + 1) * total := by exact_mod_cast hhalf
    push_cast
    field_simp
    linarith
  have hcontext := contextPct_eq htotal hle hlt
  rw [Binary64.roundHalfAway, hshare, Int.floor_intCast] at hcontext
  exact_mod_cast hcontext

theorem coveragePct_half {k : ℕ} (htotal : 0 < total) (hle : tested ≤ total)
    (hlt : total < 2 ^ 44) (hhalf : 200 * tested = (2 * k + 1) * total) (hk : k < 100) :
    coveragePct tested total = if k ∈ [14, 28, 56, 57] then k else k + 1 := by
  have hpos : (0 : ℚ) < total := Nat.cast_pos.mpr htotal
  have hshare : (tested : ℚ) / total = ((2 * k + 1 : ℕ) : ℚ) / (200 : ℕ) := by
    have hcast : (200 : ℚ) * tested = (2 * k + 1) * total := by exact_mod_cast hhalf
    push_cast
    field_simp
    linarith
  rw [coveragePct_eq htotal hle hlt, hshare, sharePct_half k hk]

theorem percentages_agree_iff (htotal : 0 < total) (hle : tested ≤ total) :
    coveragePct tested total = contextPct tested total ↔ RoundsAlike tested total := by
  unfold RoundsAlike
  split_ifs with hlt
  · by_cases hoff : 2 * total ∣ 200 * tested + total
    · obtain ⟨c, hc⟩ := hoff
      cases c with
      | zero => omega
      | succ k =>
          have hhalf : 200 * tested = (2 * k + 1) * total := by nlinarith
          have hk : k < 100 := by nlinarith
          have hunique : ∀ half, 200 * tested = half * total ↔ 2 * k + 1 = half := by
            intro half
            rw [hhalf, Nat.mul_left_inj htotal.ne']
          rw [contextPct_half htotal hle hlt hhalf, coveragePct_half htotal hle hlt hhalf hk]
          simp only [List.mem_cons, List.not_mem_nil, or_false, ne_eq, hunique,
            forall_eq_or_imp, forall_eq]
          split <;> omega
    · have hagree := percentages_agree htotal hle hlt hoff
      refine ⟨fun _ half hmem heq => hoff ?_, fun _ => hagree⟩
      have hodd : ∃ k, half = 2 * k + 1 := by
        simp only [List.mem_cons, List.not_mem_nil, or_false] at hmem
        exact ⟨half / 2, by omega⟩
      obtain ⟨k, rfl⟩ := hodd
      exact ⟨k + 1, by rw [heq]; ring⟩
  · rfl

end Percentages

/-! ## What the two tools count -/

namespace ManifestSearch
variable {ε : Type*} {search : ManifestSearch ε}

/-- The column that a stored schema test names. -/
def testedColumn (search : ManifestSearch ε) (testId : String) : Option String :=
  match search.getEntity testId with
  | .ok (some test) => if isSchemaTest test then test.getStr "column_name" else none
  | _ => none

/-- The columns named by the schema tests of the index, whoever they are attached to. -/
def namedColumns (search : ManifestSearch ε) (entityId : String) : Finset String :=
  ((search.testsByEntity entityId).filterMap search.testedColumn).toFinset

theorem insertColumn_eq (columns : Finset String) (test : JsonValue) :
    insertColumn columns test = columns ∪ (test.getStr "column_name").toFinset := by
  unfold insertColumn
  cases test.getStr "column_name" with
  | none => simp
  | some column =>
      ext other
      simp

theorem countTest_columns {includeFull : Bool} {tally next : CoverageTally} {testId : String}
    (h : search.countTest includeFull tally testId = .ok next) :
    next.columnsTested = tally.columnsTested ∪ (search.testedColumn testId).toFinset := by
  unfold countTest at h
  unfold testedColumn
  cases hread : search.getEntity testId with
  | error error =>
      rw [hread] at h
      contradiction
  | ok found =>
      rw [hread] at h
      obtain rfl := Except.ok.inj h
      cases found with
      | none => simp
      | some test => cases htest : isSchemaTest test <;> simp [htest, insertColumn_eq]

theorem summarizeTest_columns {tally next : ContextTally} {testId : String}
    (h : search.summarizeTest tally testId = .ok next) :
    next.columnsTested = tally.columnsTested ∪ (search.testedColumn testId).toFinset := by
  unfold summarizeTest at h
  unfold testedColumn
  cases hread : search.getEntity testId with
  | error error =>
      rw [hread] at h
      contradiction
  | ok found =>
      rw [hread] at h
      obtain rfl := Except.ok.inj h
      cases found with
      | none => simp
      | some test => cases htest : isSchemaTest test <;> simp [htest, insertColumn_eq]

/-- A run over the tests collects what each step adds. -/
theorem foldlM_columns {τ : Type*} {step : τ → String → Except ε τ} {columns : τ → Finset String}
    {added : String → Option String}
    (hstep : ∀ {tally next testId}, step tally testId = .ok next →
      columns next = columns tally ∪ (added testId).toFinset)
    {testIds : List String} {tally last : τ} (h : testIds.foldlM step tally = .ok last) :
    columns last = columns tally ∪ (testIds.filterMap added).toFinset := by
  induction testIds generalizing tally with
  | nil =>
      obtain rfl := Except.ok.inj h
      simp
  | cons testId testIds ih =>
      rw [List.foldlM_cons] at h
      cases hnext : step tally testId with
      | error error =>
          rw [hnext] at h
          contradiction
      | ok next =>
          rw [hnext] at h
          rw [ih h, hstep hnext, Finset.union_assoc]
          congr 1
          cases hadded : added testId with
          | none => simp [hadded]
          | some column =>
              ext other
              simp [hadded]

theorem untestedColumns_length (visit : Visit) (entity : JsonValue) (tested : Finset String) :
    (untestedColumns visit entity tested).length =
      ((columnNames entity).toFinset \ tested).card := by
  rw [untestedColumns, (visit.perm _).length_eq, Finset.length_sort]

/-- The counts of one report, from the entity and the columns that its tests name. -/
structure CountsOf (named : Finset String) (entity : JsonValue) (report : CoverageReport) :
    Prop where
  tested : report.summary.columnsTested = named.card
  total : report.summary.columnsTotal = (columnNames entity).toFinset.card
  untested : report.columnsWithoutTestsTotal = ((columnNames entity).toFinset \ named).card
  percentage : report.summary.coveragePercentage =
    coveragePct named.card (columnNames entity).toFinset.card

theorem testCoverageOf_counts {visit : Visit} {params : GetTestCoverageParams} {entityId : String}
    {entity : JsonValue} {report : CoverageReport}
    (h : search.testCoverageOf visit params entityId entity = .ok report) :
    CountsOf (search.namedColumns entityId) entity report := by
  unfold testCoverageOf at h
  cases htally : (search.testsByEntity entityId).foldlM (search.countTest params.includeFull) {} with
  | error error =>
      simp only [htally] at h
      contradiction
  | ok tally =>
      have hnamed : tally.columnsTested = search.namedColumns entityId := by
        rw [foldlM_columns countTest_columns htally, Finset.empty_union, namedColumns]
      cases hgaps : search.primaryKeyGaps entityId (columnsOf entity) with
      | error error =>
          simp only [htally, hgaps] at h
          contradiction
      | ok gaps =>
          simp only [htally, hgaps] at h
          obtain rfl := Except.ok.inj h
          rw [← hnamed]
          exact ⟨rfl, rfl, untestedColumns_length visit entity tally.columnsTested, rfl⟩

/-- The same of the tests in a context, where the list is that before it is cut. -/
structure ContextCountsOf (named : Finset String) (entity : JsonValue) (context : TestContext) :
    Prop where
  tested : context.columnsTested = named.card
  total : context.columnsTotal = (columnNames entity).length
  percentage : context.coveragePercentage = contextPct named.card (columnNames entity).length
  listed : context.columnsWithoutTests <+: contextUntested (some entity) named

theorem buildTestContext_counts {entityId : String} {entity : JsonValue} {context : TestContext}
    (hentity : search.getEntity entityId = .ok (some entity))
    (h : search.buildTestContext entityId = .ok context) :
    ContextCountsOf (search.namedColumns entityId) entity context := by
  unfold buildTestContext at h
  cases htally : (search.testsByEntity entityId).foldlM search.summarizeTest {} with
  | error error =>
      simp only [htally] at h
      contradiction
  | ok tally =>
      have hnamed : tally.columnsTested = search.namedColumns entityId := by
        rw [foldlM_columns summarizeTest_columns htally, Finset.empty_union, namedColumns]
      simp only [htally, hentity] at h
      obtain rfl := Except.ok.inj h
      rw [← hnamed]
      refine ⟨rfl, rfl, rfl, ?_⟩
      dsimp only
      split
      · exact List.take_prefix _ _
      · exact List.prefix_refl _

end ManifestSearch

/-! ## The tests of the index -/

section Index
open ManifestParse
open WarmStart (EntityStore TestIndexes attachTest addDependency indexTest)
variable {entities : EntityStore} {testId other entityId : String} {test : JsonValue}

/-- Attached to the entity, or depending on it. -/
def IndexedFor (test : JsonValue) (entityId : String) : Prop :=
  test.getStr "attached_node" = some entityId ∨
    entityId ∈ ManifestAccumulator.dependencyIds test

theorem mem_push {index : String → List String} {key : String} :
    testId ∈ ManifestAccumulator.push index key other entityId ↔
      testId ∈ index entityId ∨ (testId = other ∧ entityId = key) := by
  unfold ManifestAccumulator.push
  split_ifs with hkey <;> simp [hkey]

theorem mem_addDependency {index : String → List String} {depId : String} :
    testId ∈ addDependency other index depId entityId ↔
      testId ∈ index entityId ∨ (testId = other ∧ entityId = depId) := by
  unfold addDependency
  split_ifs with hmem
  · constructor
    · exact Or.inl
    · rintro (h | ⟨rfl, rfl⟩)
      · exact h
      · exact hmem
  · exact mem_push

theorem mem_addDependencies {deps : List String} {index : String → List String} :
    testId ∈ deps.foldl (addDependency other) index entityId ↔
      testId ∈ index entityId ∨ (testId = other ∧ entityId ∈ deps) := by
  induction deps generalizing index with
  | nil => simp
  | cons depId deps ih =>
      rw [List.foldl_cons, ih, mem_addDependency, List.mem_cons, or_assoc, ← and_or_left]

theorem mem_attachTest {indexes : TestIndexes}
    (h : testId ∈ (attachTest other test indexes).testsByEntity entityId) :
    testId ∈ indexes.testsByEntity entityId ∨ (testId = other ∧ IndexedFor test entityId) := by
  unfold attachTest at h
  cases hattached : test.getStr "attached_node" with
  | some attached =>
      simp only [hattached, mem_push] at h
      exact h.imp_right fun ⟨hid, hentity⟩ => ⟨hid, .inl (by rw [hattached, hentity])⟩
  | none =>
      cases hfirst : ((ManifestPruner.dependsOnNodes test).getD []).findSome? asStr with
      | none =>
          simp only [hattached, hfirst] at h
          exact .inl h
      | some attached =>
          simp only [hattached, hfirst, mem_push] at h
          obtain ⟨node, hnode, htext⟩ := List.exists_of_findSome?_eq_some hfirst
          exact h.imp_right fun ⟨hid, hentity⟩ =>
            ⟨hid, .inr (List.mem_filterMap.mpr ⟨node, hnode, by rw [htext, hentity]⟩)⟩

theorem mem_attachTest_of_attached {indexes : TestIndexes}
    (h : testId ∈ indexes.testsByEntity entityId ∨
      (testId = other ∧ test.getStr "attached_node" = some entityId)) :
    testId ∈ (attachTest other test indexes).testsByEntity entityId := by
  unfold attachTest
  cases hattached : test.getStr "attached_node" with
  | some attached =>
      simp only [mem_push]
      exact h.imp_right fun ⟨hid, hentity⟩ => ⟨hid, Option.some.inj (hentity.symm.trans hattached)⟩
  | none =>
      obtain h | ⟨-, hentity⟩ := h
      · cases ((ManifestPruner.dependsOnNodes test).getD []).findSome? asStr with
        | none => exact h
        | some attached =>
            simp only [mem_push]
            exact .inl h
      · rw [hattached] at hentity
        contradiction

/-- One test is added for the entity that it is attached to and for all it depends on. -/
theorem mem_indexTest {indexes : TestIndexes} :
    testId ∈ (indexTest entities indexes other).testsByEntity entityId ↔
      testId ∈ indexes.testsByEntity entityId ∨
        (testId = other ∧ ∃ test, entities.lookup other = some test ∧ IndexedFor test entityId) := by
  unfold indexTest
  cases hlookup : entities.lookup other with
  | none => simp
  | some test =>
      simp only [mem_addDependencies, Option.some.injEq, exists_eq_left']
      constructor
      · rintro (h | ⟨hid, hdep⟩)
        · exact mem_attachTest h
        · exact .inr ⟨hid, .inr hdep⟩
      · rintro (h | ⟨hid, hattached | hdep⟩)
        · exact .inl (mem_attachTest_of_attached (.inl h))
        · exact .inl (mem_attachTest_of_attached (.inr ⟨hid, hattached⟩))
        · exact .inr ⟨hid, hdep⟩

theorem mem_testsByEntity {tests : List String} {indexes : TestIndexes} :
    testId ∈ (tests.foldl (indexTest entities) indexes).testsByEntity entityId ↔
      testId ∈ indexes.testsByEntity entityId ∨
        (testId ∈ tests ∧ ∃ test, entities.lookup testId = some test ∧ IndexedFor test entityId) := by
  induction tests generalizing indexes with
  | nil => simp
  | cons first tests ih =>
      rw [List.foldl_cons, ih, mem_indexTest, List.mem_cons, or_assoc, or_and_right]
      apply or_congr_right
      apply or_congr_left
      constructor
      · rintro ⟨rfl, h⟩
        exact ⟨rfl, h⟩
      · rintro ⟨rfl, h⟩
        exact ⟨rfl, h⟩

/-- The two tools over a store and the indexes built over it. -/
def ManifestSearch.ofStore (entities : EntityStore) (tests : List String) :
    ManifestSearch String where
  testsByEntity := (tests.foldl (indexTest entities) ⟨fun _ => [], fun _ => []⟩).testsByEntity
  testsByColumn := (tests.foldl (indexTest entities) ⟨fun _ => [], fun _ => []⟩).testsByColumn
  getEntity := fun uniqueId => .ok (entities.lookup uniqueId)
  resolveSingleId := fun idOrName _ => .ok idOrName
  entityNotFound := fun uniqueId _ => uniqueId

/-- A test that only depends on the entity counts for it with the column it names. -/
theorem mem_namedColumns_ofStore {tests : List String} {column : String} :
    column ∈ (ManifestSearch.ofStore entities tests).namedColumns entityId ↔
      ∃ testId ∈ tests, ∃ test, entities.lookup testId = some test ∧ IndexedFor test entityId ∧
        isSchemaTest test = true ∧ test.getStr "column_name" = some column := by
  simp only [ManifestSearch.namedColumns, List.mem_toFinset, List.mem_filterMap,
    ManifestSearch.ofStore, mem_testsByEntity, List.not_mem_nil, false_or]
  constructor
  · rintro ⟨testId, ⟨hmem, test, hlookup, hindexed⟩, hcolumn⟩
    simp only [ManifestSearch.testedColumn, hlookup] at hcolumn
    split_ifs at hcolumn with hschema
    exact ⟨testId, hmem, test, hlookup, hindexed, hschema, hcolumn⟩
  · rintro ⟨testId, hmem, test, hlookup, hindexed, hschema, hcolumn⟩
    refine ⟨testId, ⟨hmem, test, hlookup, hindexed⟩, ?_⟩
    simp only [ManifestSearch.testedColumn, hlookup, hschema, if_true]
    exact hcolumn

end Index

/-! ## Consistent figures -/

/-- The figures of the two tools. The list of the context is the one before it is cut. -/
structure Consistent (report : CoverageReport) (context : TestContext) (untested : List String) :
    Prop where
  report_columns : report.summary.columnsTested + report.columnsWithoutTestsTotal =
    report.summary.columnsTotal
  context_columns : context.columnsTested + untested.length = context.columnsTotal
  report_le : report.summary.coveragePercentage ≤ 100
  context_le : context.coveragePercentage ≤ 100
  same : report.summary.coveragePercentage = context.coveragePercentage

/-- The tests name columns of the entity, it has some, and the share of them that is named
rounds alike. -/
structure Accountable (named : Finset String) (columns : List String) : Prop where
  named_mem : ∀ column ∈ named, column ∈ columns
  columns_ne : columns ≠ []
  rounds : RoundsAlike named.card columns.length

theorem columnNames_nodup {entity : JsonValue} (h : entity.Ordered) :
    (columnNames entity).Nodup := by
  rw [columnNames, (List.perm_insertionSort _ _).nodup_iff]
  unfold columnsOf
  cases hcolumns : entity.get "columns" with
  | none => simp
  | some columns =>
      have hordered := h.get hcolumns
      cases columns with
      | object fields => exact hordered.1.nodup
      | _ => simp [asObject]

theorem card_sdiff_eq_iff {named columns : Finset String} :
    named.card + (columns \ named).card = columns.card ↔ named ⊆ columns := by
  rw [add_comm, Finset.card_sdiff_add_card]
  constructor
  · intro h
    have heq := Finset.eq_of_subset_of_card_le Finset.subset_union_left h.le
    exact Finset.union_eq_left.mp heq.symm
  · intro h
    rw [Finset.union_eq_left.mpr h]

theorem contextUntested_length {entity : JsonValue} (h : entity.Ordered) (named : Finset String) :
    (ManifestSearch.contextUntested (some entity) named).length =
      ((columnNames entity).toFinset \ named).card := by
  have hnodup := columnNames_nodup h
  rw [ManifestSearch.contextUntested, Option.map_some, Option.getD_some,
    ← List.toFinset_card_of_nodup (hnodup.filter _)]
  congr 1
  ext column
  simp

/-- The figures of the two tools are consistent exactly when every column that a schema test of
the index names is a column of the entity, the entity has columns, and the share of those that
are named is none that the two rounds differently. -/
theorem coverage_figures_consistent_iff {ε : Type*} (search : ManifestSearch ε) (visit : Visit)
    (params : GetTestCoverageParams) {entityId : String} {entity : JsonValue}
    (hid : search.resolveSingleId params.idOrName params.resourceType = .ok entityId)
    (hentity : search.getEntity entityId = .ok (some entity)) (hordered : entity.Ordered)
    {report : CoverageReport} (hreport : search.getTestCoverage visit params = .ok report)
    {context : TestContext} (hcontext : search.buildTestContext entityId = .ok context) :
    Consistent report context
        (ManifestSearch.contextUntested (some entity) (search.namedColumns entityId)) ↔
      Accountable (search.namedColumns entityId) (columnNames entity) := by
  have hreport' : search.testCoverageOf visit params entityId entity = .ok report := by
    rw [ManifestSearch.getTestCoverage, hid] at hreport
    simpa [Except.bind, hentity] using hreport
  have hcounts := ManifestSearch.testCoverageOf_counts hreport'
  have hsummary := ManifestSearch.buildTestContext_counts hentity hcontext
  have hcard := List.toFinset_card_of_nodup (columnNames_nodup hordered)
  generalize search.namedColumns entityId = named at *
  have hsplit : named.card + ((columnNames entity).toFinset \ named).card =
      (columnNames entity).length ↔ ∀ column ∈ named, column ∈ columnNames entity := by
    rw [← hcard, card_sdiff_eq_iff]
    simp [Finset.subset_iff]
  have hle : (∀ column ∈ named, column ∈ columnNames entity) →
      named.card ≤ (columnNames entity).length := fun h => (hsplit.mpr h) ▸ Nat.le_add_right _ _
  constructor
  · intro h
    have hmem := h.report_columns
    rw [hcounts.tested, hcounts.untested, hcounts.total, hcard, hsplit] at hmem
    have hsame := h.same
    rw [hcounts.percentage, hsummary.percentage, hcard] at hsame
    have hne : columnNames entity ≠ [] := by
      intro hnil
      rw [hnil] at hsame
      simp [coveragePct, contextPct] at hsame
    have hpos := List.length_pos_of_ne_nil hne
    exact ⟨hmem, hne, (percentages_agree_iff hpos (hle hmem)).mp hsame⟩
  · intro h
    have hpos := List.length_pos_of_ne_nil h.columns_ne
    have hsame := (percentages_agree_iff hpos (hle h.named_mem)).mpr h.rounds
    have hcapped := contextPct_le hpos (hle h.named_mem)
    refine ⟨?_, ?_, ?_, ?_, ?_⟩
    · rw [hcounts.tested, hcounts.untested, hcounts.total, hcard, hsplit]
      exact h.named_mem
    · rw [hsummary.tested, contextUntested_length hordered, hsummary.total, hsplit]
      exact h.named_mem
    · rw [hcounts.percentage, hcard, hsame]
      exact hcapped
    · rw [hsummary.percentage]
      exact hcapped
    · rw [hcounts.percentage, hsummary.percentage, hcard, hsame]

/-! ## A test between two models -/

def orders : JsonValue :=
  .object [("columns", .object [("customer_id", .object [])]), ("name", .string "orders"),
    ("resource_type", .string "model")]

def customers : JsonValue :=
  .object [("columns", .object [("id", .object [])]), ("name", .string "customers"),
    ("resource_type", .string "model")]

/-- The relationships test of `orders.customer_id` to the customers. -/
def ordersHaveCustomers : JsonValue :=
  .object [("attached_node", .string "model.shop.orders"), ("column_name", .string "customer_id"),
    ("depends_on", .object
      [("nodes", .array [.string "model.shop.customers", .string "model.shop.orders"])]),
    ("test_metadata", .object [("name", .string "relationships")])]

def shop : WarmStart.EntityStore :=
  [("model.shop.orders", orders), ("model.shop.customers", customers),
    ("test.shop.orders_have_customers", ordersHaveCustomers)]

def shopSearch : ManifestSearch String :=
  ManifestSearch.ofStore shop ["test.shop.orders_have_customers"]

def inOrder : Visit := ⟨id, List.Perm.refl⟩

theorem orders_ordered : orders.Ordered := by
  have hkeys : ["columns", "name", "resource_type"].Pairwise (· < ·) := by decide
  exact ⟨hkeys, ⟨List.pairwise_singleton _ _, ⟨List.Pairwise.nil, trivial⟩, trivial⟩, trivial,
    trivial, trivial⟩

theorem coverage_figures_consistent_orders :
    ∃ report context,
      shopSearch.getTestCoverage inOrder { idOrName := "model.shop.orders" } = .ok report ∧
      shopSearch.buildTestContext "model.shop.orders" = .ok context ∧
      Consistent report context (ManifestSearch.contextUntested (some orders)
        (shopSearch.namedColumns "model.shop.orders")) := by
  refine ⟨_, _, rfl, rfl, ?_⟩
  apply (coverage_figures_consistent_iff shopSearch inOrder { idOrName := "model.shop.orders" } rfl
    rfl ?_ rfl rfl).mpr
  · exact
      { named_mem := by decide
        columns_ne := by decide
        rounds := by decide }
  · exact orders_ordered

/-- The test counts for the customers too, under a name that is no column of theirs. -/
theorem foreign_column_counted :
    ∃ report context,
      shopSearch.getTestCoverage inOrder { idOrName := "model.shop.customers" } = .ok report ∧
      shopSearch.buildTestContext "model.shop.customers" = .ok context ∧
      ¬ Consistent report context (ManifestSearch.contextUntested (some customers)
        (shopSearch.namedColumns "model.shop.customers")) := by
  refine ⟨_, _, rfl, rfl, fun h => ?_⟩
  exact absurd h.report_columns (by decide +kernel)

end DbtNova.TestCoverage
