import Mathlib.Tactic.Common

/-!
# Template markers outside literals and comments

The scan of `tools/recipes/jinja_scan.rs` over the bytes of a query: the template markers that
stand outside quoted literals and comments, in the order of their first occurrence.
-/
namespace DbtNova.JinjaScan

inductive RecipeSqlScanState
  | normal
  | singleQuote
  | doubleQuote
  | dollarQuote
  | lineComment
  | blockComment
  deriving DecidableEq

/-- The variables of the loop. -/
structure Scan where
  i : ℕ
  state : RecipeSqlScanState
  markers : List String
  dollarQuoteDelimiter : Option (List UInt8)
  singleQuoteBackslashEscape : Bool
  deriving DecidableEq

def byteAt (bytes : List UInt8) (i : ℕ) (c : Char) : Bool := bytes[i]? == some c.toUInt8

def isIdentifierChar (ch : UInt8) : Bool := (Char.ofUInt8 ch).isAlphanum || ch == '_'.toUInt8

/-- The rest of a delimiter behind its first `$`. -/
def delimiterTail : List UInt8 → Option (List UInt8)
  | [] => none
  | ch :: rest =>
      if ch = '$'.toUInt8 then some [ch]
      else if isIdentifierChar ch then (delimiterTail rest).map (ch :: ·)
      else none

def parseDollarQuoteDelimiter (sql : List UInt8) (start : ℕ) : Option (List UInt8) :=
  if byteAt sql start '$' then (delimiterTail (sql.drop (start + 1))).map ('$'.toUInt8 :: ·)
  else none

def pushUniqueJinjaMarker (markers : List String) (marker : String) : List String :=
  if markers.contains marker then markers else markers ++ [marker]

def detectJinjaMarker (bytes : List UInt8) (i : ℕ) (markers : List String) : List String :=
  if byteAt bytes i '\x7b' then
    if byteAt bytes (i + 1) '\x7b' then pushUniqueJinjaMarker markers "\x7b\x7b"
    else if byteAt bytes (i + 1) '%' then pushUniqueJinjaMarker markers "\x7b%"
    else if byteAt bytes (i + 1) '#' then pushUniqueJinjaMarker markers "\x7b#"
    else markers
  else markers

def allowsBackslashEscapedQuote (bytes : List UInt8) : ℕ → Bool
  | 0 => false
  | prefixIndex + 1 =>
      (byteAt bytes prefixIndex 'e' || byteAt bytes prefixIndex 'E') &&
        match prefixIndex with
        | 0 => true
        | before + 1 => !(bytes[before]?.any isIdentifierChar)

def stepNormalState (bytes : List UInt8) (scan : Scan) : Scan :=
  let i := scan.i
  if byteAt bytes i '-' && byteAt bytes (i + 1) '-' then
    { scan with i := i + 2, state := .lineComment }
  else if byteAt bytes i '/' && byteAt bytes (i + 1) '*' then
    { scan with i := i + 2, state := .blockComment }
  else if byteAt bytes i '\'' then
    { scan with
      i := i + 1
      state := .singleQuote
      singleQuoteBackslashEscape := allowsBackslashEscapedQuote bytes i }
  else if byteAt bytes i '"' then { scan with i := i + 1, state := .doubleQuote }
  else
    match parseDollarQuoteDelimiter bytes i with
    | some delimiter =>
        { scan with
          i := i + delimiter.length
          state := .dollarQuote
          dollarQuoteDelimiter := some delimiter }
    | none =>
        { scan with
          i := i + 1
          state := .normal
          markers := detectJinjaMarker bytes i scan.markers }

/-- The next index and state inside a single-quoted literal. -/
def stepSingleQuoteState (bytes : List UInt8) (i : ℕ) (backslashEscapeEnabled : Bool) :
    ℕ × RecipeSqlScanState :=
  if byteAt bytes i '\'' && byteAt bytes (i + 1) '\'' then (i + 2, .singleQuote)
  else if backslashEscapeEnabled && byteAt bytes i '\\' then
    (min (i + 2) bytes.length, .singleQuote)
  else if byteAt bytes i '\'' then (i + 1, .normal)
  else (i + 1, .singleQuote)

def stepDoubleQuoteState (bytes : List UInt8) (i : ℕ) : ℕ × RecipeSqlScanState :=
  if byteAt bytes i '"' && byteAt bytes (i + 1) '"' then (i + 2, .doubleQuote)
  else if byteAt bytes i '"' then (i + 1, .normal)
  else (i + 1, .doubleQuote)

def stepLineCommentState (bytes : List UInt8) (i : ℕ) : ℕ × RecipeSqlScanState :=
  if byteAt bytes i '\n' then (i + 1, .normal) else (i + 1, .lineComment)

def stepBlockCommentState (bytes : List UInt8) (i : ℕ) : ℕ × RecipeSqlScanState :=
  if byteAt bytes i '*' && byteAt bytes (i + 1) '/' then (i + 2, .normal)
  else (i + 1, .blockComment)

def stepDollarQuoteState (bytes : List UInt8) (scan : Scan) : Scan :=
  let i := scan.i
  match scan.dollarQuoteDelimiter with
  | some delimiter =>
      if (bytes.drop i).take delimiter.length = delimiter then
        { scan with
          i := i + delimiter.length, state := .normal, dollarQuoteDelimiter := none }
      else { scan with i := i + 1, state := .dollarQuote }
  | none => { scan with i := i + 1, state := .dollarQuote }

def moveTo (scan : Scan) (next : ℕ × RecipeSqlScanState) : Scan :=
  { scan with i := next.1, state := next.2 }

/-- One round of the loop. -/
def step (bytes : List UInt8) (scan : Scan) : Scan :=
  match scan.state with
  | .normal => stepNormalState bytes scan
  | .singleQuote =>
      let next := moveTo scan
        (stepSingleQuoteState bytes scan.i scan.singleQuoteBackslashEscape)
      if next.state = .singleQuote then next
      else { next with singleQuoteBackslashEscape := false }
  | .doubleQuote => moveTo scan (stepDoubleQuoteState bytes scan.i)
  | .lineComment => moveTo scan (stepLineCommentState bytes scan.i)
  | .blockComment => moveTo scan (stepBlockCommentState bytes scan.i)
  | .dollarQuote => stepDollarQuoteState bytes scan

/-- At most `rounds` rounds of the loop. -/
def scanFrom (bytes : List UInt8) : ℕ → Scan → Scan
  | 0, scan => scan
  | rounds + 1, scan =>
      if scan.i < bytes.length then scanFrom bytes rounds (step bytes scan) else scan

def initialScan : Scan := ⟨0, .normal, [], none, false⟩

def recipeQueryJinjaMarkers (sql : List UInt8) : List String :=
  (scanFrom sql sql.length initialScan).markers

/-! ## The loop ends -/

section Progress
variable {bytes : List UInt8} {scan : Scan}

/-- The delimiter that ends a literal is not empty. -/
def Closable (scan : Scan) : Prop := scan.dollarQuoteDelimiter ≠ some []

theorem parseDollarQuoteDelimiter_ne_nil (start : ℕ) :
    parseDollarQuoteDelimiter bytes start ≠ some [] := by
  unfold parseDollarQuoteDelimiter
  split
  · intro h
    obtain ⟨tail, -, htail⟩ := Option.map_eq_some_iff.mp h
    contradiction
  · exact Option.some_ne_none [] ∘ Eq.symm

theorem stepNormalState_progress (h : Closable scan) :
    scan.i < (stepNormalState bytes scan).i ∧ Closable (stepNormalState bytes scan) := by
  unfold stepNormalState
  dsimp only
  split
  · exact ⟨by simp, h⟩
  · split
    · exact ⟨by simp, h⟩
    · split
      · exact ⟨Nat.lt_succ_self _, h⟩
      · split
        · exact ⟨Nat.lt_succ_self _, h⟩
        · cases hdelimiter : parseDollarQuoteDelimiter bytes scan.i with
          | none => exact ⟨Nat.lt_succ_self _, h⟩
          | some delimiter =>
              have hne : delimiter ≠ [] := fun heq =>
                parseDollarQuoteDelimiter_ne_nil scan.i (heq ▸ hdelimiter)
              exact ⟨Nat.lt_add_of_pos_right (List.length_pos_iff.mpr hne),
                fun heq => hne (Option.some.inj heq)⟩

theorem stepSingleQuoteState_progress {i : ℕ} (h : i < bytes.length) (escape : Bool) :
    i < (stepSingleQuoteState bytes i escape).1 := by
  unfold stepSingleQuoteState
  split
  · simp
  · split
    · exact Nat.lt_min.mpr ⟨Nat.lt_add_of_pos_right Nat.two_pos, h⟩
    · split <;> exact Nat.lt_succ_self _

theorem stepDoubleQuoteState_progress (i : ℕ) : i < (stepDoubleQuoteState bytes i).1 := by
  unfold stepDoubleQuoteState
  split
  · simp
  · split <;> exact Nat.lt_succ_self _

theorem stepLineCommentState_progress (i : ℕ) : i < (stepLineCommentState bytes i).1 := by
  unfold stepLineCommentState
  split <;> exact Nat.lt_succ_self _

theorem stepBlockCommentState_progress (i : ℕ) : i < (stepBlockCommentState bytes i).1 := by
  unfold stepBlockCommentState
  split
  · simp
  · exact Nat.lt_succ_self _

theorem stepDollarQuoteState_progress (h : Closable scan) :
    scan.i < (stepDollarQuoteState bytes scan).i ∧
      Closable (stepDollarQuoteState bytes scan) := by
  unfold stepDollarQuoteState
  dsimp only
  split
  · rename_i delimiter hdelimiter
    have hne : delimiter ≠ [] := fun heq => h (heq ▸ hdelimiter)
    split
    · exact ⟨Nat.lt_add_of_pos_right (List.length_pos_iff.mpr hne), (Option.some_ne_none []).symm⟩
    · exact ⟨Nat.lt_succ_self _, h⟩
  · exact ⟨Nat.lt_succ_self _, h⟩

theorem step_progress (h : Closable scan) (hi : scan.i < bytes.length) :
    scan.i < (step bytes scan).i ∧ Closable (step bytes scan) := by
  unfold step
  cases scan.state with
  | normal => exact stepNormalState_progress h
  | singleQuote =>
      dsimp only
      split
      · exact ⟨stepSingleQuoteState_progress hi _, h⟩
      · exact ⟨stepSingleQuoteState_progress hi _, h⟩
  | doubleQuote => exact ⟨stepDoubleQuoteState_progress _, h⟩
  | lineComment => exact ⟨stepLineCommentState_progress _, h⟩
  | blockComment => exact ⟨stepBlockCommentState_progress _, h⟩
  | dollarQuote => exact stepDollarQuoteState_progress h

theorem scanFrom_ends (rounds : ℕ) (h : Closable scan)
    (hrounds : bytes.length ≤ scan.i + rounds) :
    bytes.length ≤ (scanFrom bytes rounds scan).i := by
  induction rounds generalizing scan with
  | zero => exact hrounds
  | succ rounds ih =>
      rw [scanFrom]
      split
      · rename_i hi
        obtain ⟨hlt, hclosable⟩ : scan.i < (step bytes scan).i ∧ _ := step_progress h hi
        exact ih hclosable (by omega)
      · rename_i hi
        exact Nat.not_lt.mp hi

/-- The loop passes every byte within as many rounds as there are bytes. -/
theorem recipeQueryJinjaMarkers_ends (sql : List UInt8) :
    sql.length ≤ (scanFrom sql sql.length initialScan).i :=
  scanFrom_ends sql.length (Option.some_ne_none []).symm (Nat.le_add_left _ _)

end Progress

end DbtNova.JinjaScan
