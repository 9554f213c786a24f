import DbtNova.Error
import DbtNova.Utf8
import Mathlib.Data.List.Sort

/-!
# The defining expression of a projected column

A column is looked up in the select items that the parser finds, and otherwise in the
text between SELECT and FROM. The scanners go over bytes and slice the text at byte
offsets. Where they slice at an ASCII byte the offset is the bound of a character; the
search for FROM slices at every byte outside quotes and parentheses, which panics inside
a wider character. The parser is a parameter.
-/
namespace DbtNova.ColumnDefinition
open Utf8

abbrev Str := List Char

structure SqlColumnDefinition where
  expression : Str
  identifiers : List Str
  confidence : String
  deriving DecidableEq, Repr

/-! ## Select items -/

/-- An expression by what is read of it: `entered` is one whose identifiers are those of its
parts, in order, and whose name is not asked for. -/
inductive SqlExpr where
  | identifier (value : Str)
  | compoundIdentifier (values : List Str)
  | nested (inner : SqlExpr)
  | cast (inner : SqlExpr)
  | entered (parts : List SqlExpr)
  | other

/-- The items with an expression carry it as it is printed. -/
inductive SelectItem where
  | exprWithAlias (expr : SqlExpr) (printed label : Str)
  | unnamedExpr (expr : SqlExpr) (printed : Str)
  | other

mutual

def collectIdentifiers : SqlExpr → List Str
  | .identifier value => [value]
  | .compoundIdentifier values =>
      let full := ['.'].intercalate values
      values.getLast?.toList ++ if full.isEmpty then [] else [full]
  | .nested inner | .cast inner => collectIdentifiers inner
  | .entered parts => collectPartIdentifiers parts
  | .other => []

def collectPartIdentifiers : List SqlExpr → List Str
  | [] => []
  | part :: parts => collectIdentifiers part ++ collectPartIdentifiers parts

end

def outputNameForExpr : SqlExpr → Option Str
  | .identifier value => some value
  | .compoundIdentifier values => values.getLast?
  | .nested inner | .cast inner => outputNameForExpr inner
  | .entered _ | .other => none

def trimMatches (p : Char → Bool) (s : Str) : Str :=
  ((s.dropWhile p).reverse.dropWhile p).reverse

def isNameQuote (c : Char) : Bool := c == '\x60' || c == '"' || c == '[' || c == ']'

def namesEqual (left right : Str) : Bool :=
  lower (trimMatches isNameQuote left) == lower (trimMatches isNameQuote right)

/-- The first of the names that differ in case only. -/
def dedupeIdentifiers (identifiers : List Str) : List Str :=
  (identifiers.foldl (fun (seen, out) identifier =>
    if lower identifier ∈ seen then (seen, out)
    else (lower identifier :: seen, out ++ [identifier])) (([], []) : List Str × List Str)).2

def definitionFromSelectItem (target : Str) (confidence : String) :
    SelectItem → Option SqlColumnDefinition
  | .exprWithAlias expr printed label =>
      if namesEqual label target then
        some ⟨printed, dedupeIdentifiers (collectIdentifiers expr), confidence⟩
      else none
  | .unnamedExpr expr printed => (outputNameForExpr expr).bind fun name =>
      if namesEqual name target then
        some ⟨printed, dedupeIdentifiers (collectIdentifiers expr), confidence⟩
      else none
  | .other => none

/-! ## Macro calls -/

def isQuote (b : UInt8) : Bool := b == '\''.toUInt8 || b == '"'.toUInt8

def isIdentChar (b : UInt8) : Bool := (Char.ofUInt8 b).isAlphanum || b == '_'.toUInt8

def isAsciiWhitespace (b : UInt8) : Bool :=
  b == ' '.toUInt8 || b == '\t'.toUInt8 || b == '\n'.toUInt8 || b == '\x0c'.toUInt8 ||
    b == '\r'.toUInt8

def boundaryOk (bytes : List UInt8) (start stop : ℕ) : Bool :=
  (start == 0 || !bytes[start - 1]?.any isIdentChar) &&
    (bytes.length ≤ stop || !bytes[stop]?.any isIdentChar)

structure ParenScan where
  depth : ℕ
  inSingle : Bool
  inDouble : Bool
  escaped : Bool

def matchingParenFrom : List UInt8 → ℕ → ParenScan → Option ℕ
  | [], _, _ => none
  | b :: rest, i, scan =>
      if scan.inSingle then
        if b == '\\'.toUInt8 && !scan.escaped then
          matchingParenFrom rest (i + 1) { scan with escaped := true }
        else matchingParenFrom rest (i + 1)
          { scan with inSingle := b != '\''.toUInt8 || scan.escaped, escaped := false }
      else if scan.inDouble then
        if b == '\\'.toUInt8 && !scan.escaped then
          matchingParenFrom rest (i + 1) { scan with escaped := true }
        else matchingParenFrom rest (i + 1)
          { scan with inDouble := b != '"'.toUInt8 || scan.escaped, escaped := false }
      else if b == '\''.toUInt8 then matchingParenFrom rest (i + 1) { scan with inSingle := true }
      else if b == '"'.toUInt8 then matchingParenFrom rest (i + 1) { scan with inDouble := true }
      else if b == '('.toUInt8 then
        matchingParenFrom rest (i + 1) { scan with depth := scan.depth + 1 }
      else if b == ')'.toUInt8 then
        if scan.depth - 1 = 0 then some i
        else matchingParenFrom rest (i + 1) { scan with depth := scan.depth - 1 }
      else matchingParenFrom rest (i + 1) scan

def findMatchingParen (bytes : List UInt8) (openIdx : ℕ) : Option ℕ :=
  matchingParenFrom (bytes.drop openIdx) openIdx ⟨0, false, false, false⟩

/-- An open argument has its quote, its start and whether the next byte is escaped. -/
def quotedArgsFrom (input : Str) :
    List UInt8 → ℕ → Option (UInt8 × ℕ × Bool) → Checked (List Str)
  | [], _, _ => .ok []
  | b :: rest, i, none =>
      if isQuote b then quotedArgsFrom input rest (i + 1) (some (b, i + 1, false))
      else quotedArgsFrom input rest (i + 1) none
  | b :: rest, i, some (quote, start, escaped) =>
      if b == '\\'.toUInt8 && !escaped then
        quotedArgsFrom input rest (i + 1) (some (quote, start, true))
      else if b == quote && !escaped then do
        let arg ← slice input start i
        let args ← quotedArgsFrom input rest (i + 1) none
        return arg :: args
      else quotedArgsFrom input rest (i + 1) (some (quote, start, false))

def parseQuotedArgs (input : Str) : Checked (List Str) :=
  quotedArgsFrom input (encode input) 0 none

structure MacroCall where
  start : ℕ
  stop : ℕ
  args : List Str

/-- The parenthesis behind a name. -/
def openParen (bytes : List UInt8) (macroEnd : ℕ) : Option ℕ :=
  let openIdx := macroEnd + ((bytes.drop macroEnd).takeWhile isAsciiWhitespace).length
  if bytes[openIdx]? = some '('.toUInt8 then some openIdx else none

def macroCall (rawSql : Str) (start openIdx closeIdx : ℕ) : Checked MacroCall := do
  let argText ← slice rawSql (openIdx + 1) closeIdx
  let args ← parseQuotedArgs argText
  return ⟨start, closeIdx + 1, args⟩

/-- Every turn moves the cursor on, so the length of the text is fuel enough. -/
def macroCallsFrom (rawSql macroName : Str) : ℕ → ℕ → Checked (List MacroCall)
  | 0, _ => .ok []
  | fuel + 1, cursor =>
      if cursor < byteLen (lower rawSql) then do
        let tail ← sliceFrom (lower rawSql) cursor
        match find macroName tail with
        | none => return []
        | some found =>
            let macroEnd := cursor + found + byteLen macroName
            if !boundaryOk (encode (lower rawSql)) (cursor + found) macroEnd then
              macroCallsFrom rawSql macroName fuel macroEnd
            else match openParen (encode rawSql) macroEnd with
              | none => macroCallsFrom rawSql macroName fuel macroEnd
              | some openIdx => match findMatchingParen (encode rawSql) openIdx with
                | none => return []
                | some closeIdx => do
                    let call ← macroCall rawSql (cursor + found) openIdx closeIdx
                    let calls ← macroCallsFrom rawSql macroName fuel (closeIdx + 1)
                    return call :: calls
      else .ok []

def extractMacroCalls (rawSql macroName : Str) : Checked (List MacroCall) :=
  macroCallsFrom rawSql macroName (byteLen rawSql) 0

/-! ## The text for the parser -/

def sanitizeIdentifier (value : Str) : Str :=
  let trimmed := Text.trimChars value
  if trimmed.isEmpty then "__dbt_ref__".toList
  else
    let out := trimmed.map fun c => if c.isAlphanum || c == '_' then c else '_'
    if out.head?.any Char.isDigit then '_' :: out else out

def replacementFor (call : MacroCall) : Str :=
  match call.args.getLast? with
  | none => "__dbt_ref__".toList
  | some name => sanitizeIdentifier name

/-- Calls inside a replaced one are passed over. -/
def replaceCallsFrom (rawSql : Str) : List MacroCall → ℕ → Checked Str
  | [], cursor => sliceFrom rawSql cursor
  | call :: calls, cursor =>
      if call.start < cursor || byteLen rawSql < call.start || byteLen rawSql < call.stop ||
          call.stop < call.start then
        replaceCallsFrom rawSql calls cursor
      else do
        let kept ← slice rawSql cursor call.start
        let tail ← replaceCallsFrom rawSql calls call.stop
        return kept ++ replacementFor call ++ tail

def normalizeSqlForParser (rawSql : Str) : Checked Str := do
  let refs ← extractMacroCalls rawSql "ref".toList
  let sources ← extractMacroCalls rawSql "source".toList
  let calls := (refs ++ sources).insertionSort fun a b => a.start ≤ b.start
  let out ← replaceCallsFrom rawSql calls 0
  return out.map fun c => if c == '\x7b' || c == '\x7d' || c == '%' then ' ' else c

/-! ## The text between SELECT and FROM -/

/-- Whether a byte is in quotes or parentheses. A quote ends at the next one of its kind. -/
structure Level where
  depth : ℕ
  inSingle : Bool
  inDouble : Bool
  deriving DecidableEq, Repr

def Level.isOutside (level : Level) : Bool :=
  level.depth == 0 && !level.inSingle && !level.inDouble

def Level.step (level : Level) (b : UInt8) : Level :=
  if level.inSingle then { level with inSingle := b != '\''.toUInt8 }
  else if level.inDouble then { level with inDouble := b != '"'.toUInt8 }
  else if b == '\''.toUInt8 then { level with inSingle := true }
  else if b == '"'.toUInt8 then { level with inDouble := true }
  else if b == '('.toUInt8 then { level with depth := level.depth + 1 }
  else if b == ')'.toUInt8 then { level with depth := level.depth - 1 }
  else level

/-- The bytes that a scan at this level looks at besides quotes and parentheses. -/
def Level.looksAt (level : Level) (b : UInt8) : Bool :=
  level.isOutside && !isQuote b && b != '('.toUInt8 && b != ')'.toUInt8

def projectionFrom (rawSql : Str) (projectionStart : ℕ) :
    List UInt8 → ℕ → Level → Checked (Option Str)
  | [], _, _ => .ok none
  | b :: rest, cursor, level =>
      if level.looksAt b then do
        let tail ← sliceFrom (lower rawSql) cursor
        if " from ".toList.isPrefixOf tail then do
          let projection ← slice rawSql projectionStart cursor
          return some projection
        else projectionFrom rawSql projectionStart rest (cursor + 1) level
      else projectionFrom rawSql projectionStart rest (cursor + 1) (level.step b)

def outerProjectionText (rawSql : Str) : Checked (Option Str) :=
  match find "select".toList (lower rawSql) with
  | none => .ok none
  | some selectStart =>
      let projectionStart := selectStart + byteLen "select".toList
      projectionFrom rawSql projectionStart ((encode rawSql).drop projectionStart)
        projectionStart ⟨0, false, false⟩

def commaPartsFrom (input : Str) : List UInt8 → (idx start : ℕ) → Level → Checked (List Str)
  | [], _, start, _ => do
      let tail ← sliceFrom input start
      return if (Text.trimChars tail).isEmpty then [] else [Text.trimChars tail]
  | b :: rest, idx, start, level =>
      if level.looksAt b && b == ','.toUInt8 then do
        let part ← slice input start idx
        let parts ← commaPartsFrom input rest (idx + 1) (idx + 1) level
        return Text.trimChars part :: parts
      else commaPartsFrom input rest (idx + 1) start (level.step b)

def splitTopLevelCommas (input : Str) : Checked (List Str) :=
  commaPartsFrom input (encode input) 0 0 ⟨0, false, false⟩

/-- The text before a suffix, in lower case. -/
def beforeSuffix (trimmed suffix : Str) : Checked (Option Str) :=
  if suffix.isSuffixOf (lower trimmed) then do
    let expression ← sliceTo trimmed (byteLen trimmed - byteLen suffix)
    return some expression
  else .ok none

def expressionBeforeAlias (item target : Str) : Checked (Option Str) := do
  let trimmed := Text.trimChars item
  let named ← beforeSuffix trimmed (" as ".toList ++ lower target)
  match named with
  | some expression => return some expression
  | none => beforeSuffix trimmed (' ' :: lower target)

def keywords : List String :=
  ["and", "as", "case", "cast", "count", "date", "distinct", "else", "end", "false", "from", "if",
    "in", "is", "null", "nullif", "or", "over", "partition", "select", "sum", "then", "true",
    "when"]

/-- The identifiers of a token that has ended. -/
def tokenIdentifiers (token : Str) : List Str :=
  if token.head?.any (fun first => first.isAlpha || first == '_') then
    let normalized := trimMatches (· == '.') token
    if normalized.isEmpty || (keywords.map String.toList).contains (lower normalized) then []
    else [normalized]
  else []

def identifiersFrom : Str → (token : Str) → List Str
  | [], token => tokenIdentifiers token
  | c :: rest, token =>
      if c.isAlphanum || c == '_' || c == '.' then identifiersFrom rest (token ++ [c])
      else tokenIdentifiers token ++ identifiersFrom rest []

def identifiersFromText (input : Str) : List Str := dedupeIdentifiers (identifiersFrom input [])

def definitionFromItems (target : Str) : List Str → Checked (Option SqlColumnDefinition)
  | [] => .ok none
  | item :: items => do
      let found ← expressionBeforeAlias item target
      match found with
      | none => definitionFromItems target items
      | some expression =>
          return some ⟨Text.trimChars expression, identifiersFromText expression, "best_effort"⟩

def findSelectColumnDefinitionBestEffort (rawSql target : Str) :
    Checked (Option SqlColumnDefinition) := do
  let found ← outerProjectionText rawSql
  match found with
  | none => return none
  | some projection =>
      let items ← splitTopLevelCommas projection
      definitionFromItems target items

/-! ## The lookup -/

/-- The parser finds statements, each with the items of its SELECT, or fails. -/
abbrev ParseSql := Str → Option (List (List SelectItem))

def definitionInStatements (parseSql : ParseSql) (normalizedSql target : Str) :
    Option SqlColumnDefinition :=
  (parseSql normalizedSql).bind fun statements =>
    statements.findSome? fun items => items.findSome? (definitionFromSelectItem target "exact")

def findSelectColumnDefinition (parseSql : ParseSql) (rawSql columnName : Str) :
    Checked (Option SqlColumnDefinition) :=
  let target := Text.trimChars columnName
  if target.isEmpty then .ok none
  else do
    let normalizedSql ← normalizeSqlForParser rawSql
    match definitionInStatements parseSql normalizedSql target with
    | some definition => return some definition
    | none => findSelectColumnDefinitionBestEffort rawSql target

/-! ## Slices at ASCII bytes -/

section Ascii
variable {bytes rest : List UInt8} {b : UInt8} {i j : ℕ}

theorem drop_cons (h : bytes.drop i = b :: rest) :
    bytes[i]? = some b ∧ bytes.drop (i + 1) = rest := by
  constructor
  · rw [← List.head?_drop, h]
    rfl
  · rw [← List.drop_drop, h]
    rfl

theorem quote_lt (h : isQuote b = true) : b.toNat < 128 := by
  unfold isQuote at h
  rw [Bool.or_eq_true, beq_iff_eq, beq_iff_eq] at h
  obtain rfl | rfl := h
  · decide
  · decide

/-- The scan ends at a closing parenthesis. -/
theorem matchingParenFrom_spec {scan : ParenScan} (hrest : bytes.drop i = rest)
    (h : matchingParenFrom rest i scan = some j) : i ≤ j ∧ bytes[j]? = some ')'.toUInt8 := by
  induction rest generalizing i scan with
  | nil => cases h
  | cons b rest ih =>
      obtain ⟨hbyte, hnext⟩ := drop_cons hrest
      have hlater : ∀ {scan}, matchingParenFrom rest (i + 1) scan = some j →
          i ≤ j ∧ bytes[j]? = some ')'.toUInt8 := fun hfound =>
        ⟨Nat.le_of_succ_le (ih hnext hfound).1, (ih hnext hfound).2⟩
      unfold matchingParenFrom at h
      split_ifs at h with hsingle hescape hdouble hescape' hquote hdquote hopen hclose hdepth
      · exact hlater h
      · exact hlater h
      · exact hlater h
      · exact hlater h
      · exact hlater h
      · exact hlater h
      · exact hlater h
      · rw [beq_iff_eq] at hclose
        rw [← Option.some.inj h]
        exact ⟨Nat.le_refl i, hclose ▸ hbyte⟩
      · exact hlater h
      · exact hlater h

theorem findMatchingParen_spec (hopen : bytes[i]? = some '('.toUInt8)
    (h : findMatchingParen bytes i = some j) : i < j ∧ bytes[j]? = some ')'.toUInt8 := by
  obtain ⟨hle, hclose⟩ := matchingParenFrom_spec rfl h
  refine ⟨lt_of_le_of_ne hle fun heq => ?_, hclose⟩
  rw [heq, hclose] at hopen
  exact absurd hopen (by decide)

end Ascii

section Scans
variable {input : Str}

/-- An argument that is open began behind its quote. -/
def OpenArg (input : Str) (i : ℕ) : Option (UInt8 × ℕ × Bool) → Prop
  | none => True
  | some (quote, start, _) => isQuote quote = true ∧ IsBoundary input start ∧ start ≤ i

theorem quotedArgsFrom_ok {rest : List UInt8} {i : ℕ} {arg : Option (UInt8 × ℕ × Bool)}
    (hrest : (encode input).drop i = rest) (harg : OpenArg input i arg) :
    ∃ args, quotedArgsFrom input rest i arg = .ok args := by
  induction rest generalizing i arg with
  | nil =>
      cases arg <;> exact ⟨[], rfl⟩
  | cons b rest ih =>
      obtain ⟨hbyte, hnext⟩ := drop_cons hrest
      cases arg with
      | none =>
          unfold quotedArgsFrom
          split_ifs with hquote
          · exact ih hnext ⟨hquote, (isBoundary_of_ascii hbyte (quote_lt hquote)).2, Nat.le_refl _⟩
          · exact ih hnext trivial
      | some arg =>
          obtain ⟨quote, start, escaped⟩ := arg
          obtain ⟨hquote, hstart, hle⟩ := harg
          have hopen : ∀ escaped, OpenArg input (i + 1) (some (quote, start, escaped)) :=
            fun _ => ⟨hquote, hstart, Nat.le_succ_of_le hle⟩
          unfold quotedArgsFrom
          split_ifs with hescape hclose
          · exact ih hnext (hopen true)
          · rw [Bool.and_eq_true, beq_iff_eq] at hclose
            have hbound := (isBoundary_of_ascii hbyte (quote_lt (hclose.1 ▸ hquote))).1
            obtain ⟨part, hpart⟩ := slice_ok hstart hbound hle
            have hclosed : OpenArg input (i + 1) none := trivial
            obtain ⟨args, hargs⟩ := ih hnext hclosed
            exact ⟨part :: args, bind_eq_ok.mpr ⟨part, hpart, bind_eq_ok.mpr ⟨args, hargs, rfl⟩⟩⟩
          · exact ih hnext (hopen false)

theorem parseQuotedArgs_ok (input : Str) : ∃ args, parseQuotedArgs input = .ok args :=
  quotedArgsFrom_ok rfl trivial

theorem looksAt_step {level : Level} {b : UInt8} (h : level.looksAt b = true) :
    level.step b = level := by
  unfold Level.looksAt Level.isOutside isQuote at h
  simp only [Bool.and_eq_true, Bool.not_eq_true', Bool.or_eq_false_iff, bne_iff_ne, ne_eq] at h
  obtain ⟨⟨⟨⟨⟨-, hsingle⟩, hdouble⟩, hquote, hdquote⟩, hopen⟩, hclose⟩ := h
  unfold Level.step
  rw [hsingle, hdouble, hquote, hdquote, beq_eq_false_iff_ne.mpr hopen,
    beq_eq_false_iff_ne.mpr hclose]
  rfl

theorem commaPartsFrom_ok {rest : List UInt8} {idx start : ℕ} {level : Level}
    (hrest : (encode input).drop idx = rest) (hstart : IsBoundary input start)
    (hle : start ≤ idx) : ∃ parts, commaPartsFrom input rest idx start level = .ok parts := by
  induction rest generalizing idx start level with
  | nil =>
      obtain ⟨tail, htail⟩ := sliceFrom_ok_iff.mpr hstart
      exact ⟨_, bind_eq_ok.mpr ⟨tail, htail, rfl⟩⟩
  | cons b rest ih =>
      obtain ⟨hbyte, hnext⟩ := drop_cons hrest
      unfold commaPartsFrom
      split_ifs with hcomma
      · rw [Bool.and_eq_true, beq_iff_eq] at hcomma
        obtain ⟨hhere, hbehind⟩ := isBoundary_of_ascii hbyte (hcomma.2 ▸ by decide)
        obtain ⟨part, hpart⟩ := slice_ok hstart hhere hle
        have hrest := @ih (idx + 1) (idx + 1) level hnext hbehind (Nat.le_refl _)
        obtain ⟨parts, hparts⟩ := hrest
        exact ⟨_, bind_eq_ok.mpr ⟨part, hpart, bind_eq_ok.mpr ⟨parts, hparts, rfl⟩⟩⟩
      · exact ih hnext hstart (Nat.le_succ_of_le hle)

theorem splitTopLevelCommas_ok (input : Str) : ∃ parts, splitTopLevelCommas input = .ok parts :=
  commaPartsFrom_ok rfl (isBoundary_zero input) (Nat.le_refl 0)

theorem beforeSuffix_ok (trimmed suffix : Str) :
    ∃ found, beforeSuffix trimmed suffix = .ok found := by
  unfold beforeSuffix
  split_ifs with hsuffix
  · obtain ⟨front, hfront⟩ := List.isSuffixOf_iff_suffix.mp hsuffix
    have hbound : IsBoundary trimmed (byteLen trimmed - byteLen suffix) := by
      rw [← isBoundary_lower, ← byteLen_lower trimmed, ← hfront, byteLen_append,
        Nat.add_sub_cancel]
      exact isBoundary_front front suffix
    obtain ⟨expression, hexpression⟩ := sliceTo_ok hbound
    exact ⟨some expression, bind_eq_ok.mpr ⟨expression, hexpression, rfl⟩⟩
  · exact ⟨none, rfl⟩

theorem expressionBeforeAlias_ok (item target : Str) :
    ∃ found, expressionBeforeAlias item target = .ok found := by
  obtain ⟨named, hnamed⟩ :=
    beforeSuffix_ok (Text.trimChars item) (" as ".toList ++ lower target)
  obtain ⟨bare, hbare⟩ := beforeSuffix_ok (Text.trimChars item) (' ' :: lower target)
  cases named with
  | none => exact ⟨bare, bind_eq_ok.mpr ⟨none, hnamed, hbare⟩⟩
  | some expression => exact ⟨some expression, bind_eq_ok.mpr ⟨_, hnamed, rfl⟩⟩

theorem definitionFromItems_ok (target : Str) (items : List Str) :
    ∃ definition, definitionFromItems target items = .ok definition := by
  induction items with
  | nil => exact ⟨none, rfl⟩
  | cons item items ih =>
      obtain ⟨found, hfound⟩ := expressionBeforeAlias_ok item target
      cases found with
      | none =>
          obtain ⟨definition, hdefinition⟩ := ih
          exact ⟨definition, bind_eq_ok.mpr ⟨none, hfound, hdefinition⟩⟩
      | some expression => exact ⟨_, bind_eq_ok.mpr ⟨_, hfound, rfl⟩⟩

end Scans

/-! ## The text for the parser is always built -/

section Calls
variable {rawSql macroName : Str}

def CallInText (rawSql : Str) (call : MacroCall) : Prop :=
  IsBoundary rawSql call.start ∧ IsBoundary rawSql call.stop

theorem openParen_spec {bytes : List UInt8} {macroEnd openIdx : ℕ}
    (h : openParen bytes macroEnd = some openIdx) : bytes[openIdx]? = some '('.toUInt8 := by
  unfold openParen at h
  simp only at h
  split_ifs at h with hopen
  rw [← Option.some.inj h]
  exact hopen

theorem openParen_le {bytes : List UInt8} {macroEnd openIdx : ℕ}
    (h : openParen bytes macroEnd = some openIdx) : macroEnd ≤ openIdx := by
  unfold openParen at h
  simp only at h
  split_ifs at h with hopen
  rw [← Option.some.inj h]
  exact Nat.le_add_right _ _

theorem macroCall_ok {start openIdx closeIdx : ℕ} (hstart : IsBoundary rawSql start)
    (hopen : (encode rawSql)[openIdx]? = some '('.toUInt8)
    (hclose : findMatchingParen (encode rawSql) openIdx = some closeIdx) :
    IsBoundary rawSql (closeIdx + 1) ∧
      ∃ call, macroCall rawSql start openIdx closeIdx = .ok call ∧ CallInText rawSql call := by
  obtain ⟨hlt, hparen⟩ := findMatchingParen_spec hopen hclose
  obtain ⟨hhere, hbehind⟩ := isBoundary_of_ascii hparen (by decide)
  obtain ⟨argText, hargText⟩ :=
    slice_ok (isBoundary_of_ascii hopen (by decide)).2 hhere (Nat.succ_le_of_lt hlt)
  obtain ⟨args, hargs⟩ := parseQuotedArgs_ok argText
  exact ⟨hbehind, _, bind_eq_ok.mpr ⟨argText, hargText, bind_eq_ok.mpr ⟨args, hargs, rfl⟩⟩,
    hstart, hbehind⟩

theorem macroCallsFrom_ok {fuel cursor : ℕ} (hcursor : IsBoundary rawSql cursor) :
    ∃ calls, macroCallsFrom rawSql macroName fuel cursor = .ok calls ∧
      ∀ call ∈ calls, CallInText rawSql call := by
  have hnone : ∀ call ∈ ([] : List MacroCall), CallInText rawSql call :=
    fun _ h => absurd h List.not_mem_nil
  induction fuel generalizing cursor with
  | zero => exact ⟨[], rfl, hnone⟩
  | succ fuel ih =>
      unfold macroCallsFrom
      split_ifs with hlt
      · obtain ⟨tail, htail⟩ := sliceFrom_ok_iff.mpr (isBoundary_lower.mpr hcursor)
        simp only [bind_eq_ok, htail, Except.ok.injEq, exists_eq_left']
        cases hfind : find macroName tail with
        | none => exact ⟨[], rfl, hnone⟩
        | some found =>
            obtain ⟨hfound, hfoundEnd⟩ := isBoundary_find hfind
            have hstart := isBoundary_lower.mp (isBoundary_sliceFrom htail hfound)
            have hend := isBoundary_lower.mp (isBoundary_sliceFrom htail hfoundEnd)
            rw [← Nat.add_assoc] at hend
            simp only
            split_ifs with hboundary
            · exact ih hend
            · cases hopen : openParen (encode rawSql) (cursor + found + byteLen macroName) with
              | none => exact ih hend
              | some openIdx =>
                  simp only
                  cases hclose : findMatchingParen (encode rawSql) openIdx with
                  | none => exact ⟨[], rfl, hnone⟩
                  | some closeIdx =>
                      obtain ⟨hbehind, call, hcall, hin⟩ :=
                        macroCall_ok hstart (openParen_spec hopen) hclose
                      obtain ⟨calls, hcalls, hall⟩ := ih hbehind
                      exact ⟨call :: calls,
                        bind_eq_ok.mpr ⟨call, hcall, bind_eq_ok.mpr ⟨calls, hcalls, rfl⟩⟩,
                        List.forall_mem_cons.mpr ⟨hin, hall⟩⟩
      · exact ⟨[], rfl, hnone⟩

/-- Each turn goes on behind the name it found. -/
theorem macroCallsFrom_fuel (hname : 0 < byteLen macroName) {fuel cursor : ℕ}
    (hfuel : byteLen rawSql ≤ cursor + fuel) :
    macroCallsFrom rawSql macroName (fuel + 1) cursor =
      macroCallsFrom rawSql macroName fuel cursor := by
  induction fuel generalizing cursor with
  | zero =>
      rw [macroCallsFrom, macroCallsFrom, if_neg]
      rw [byteLen_lower]
      omega
  | succ fuel ih =>
      rw [macroCallsFrom, macroCallsFrom]
      split_ifs with hlt
      · cases htail : sliceFrom (lower rawSql) cursor with
        | error panic => rfl
        | ok tail =>
            simp only [bind, Except.bind]
            cases hfind : find macroName tail with
            | none => rfl
            | some found =>
                have hnext : ∀ k, macroCallsFrom rawSql macroName (fuel + 1)
                    (cursor + found + byteLen macroName + k) =
                      macroCallsFrom rawSql macroName fuel
                        (cursor + found + byteLen macroName + k) := fun k => ih (by omega)
                simp only
                split_ifs with hboundary
                · exact hnext 0
                · cases hopen : openParen (encode rawSql)
                      (cursor + found + byteLen macroName) with
                  | none => exact hnext 0
                  | some openIdx =>
                      simp only
                      cases hclose : findMatchingParen (encode rawSql) openIdx with
                      | none => rfl
                      | some closeIdx =>
                          have hlt := (findMatchingParen_spec (openParen_spec hopen) hclose).1
                          have hle := openParen_le hopen
                          obtain ⟨k, hk⟩ := Nat.exists_eq_add_of_le
                            (show cursor + found + byteLen macroName ≤ closeIdx + 1 by omega)
                          simp only [hk, hnext k]
      · rfl

/-- More fuel than the length of the text changes nothing. -/
theorem extractMacroCalls_fuel (hname : 0 < byteLen macroName) (k : ℕ) :
    macroCallsFrom rawSql macroName (byteLen rawSql + k) 0 =
      extractMacroCalls rawSql macroName := by
  induction k with
  | zero => rfl
  | succ k ih =>
      rw [← Nat.add_assoc, macroCallsFrom_fuel hname (by omega), ih]

theorem extractMacroCalls_ok (rawSql macroName : Str) :
    ∃ calls, extractMacroCalls rawSql macroName = .ok calls ∧
      ∀ call ∈ calls, CallInText rawSql call :=
  macroCallsFrom_ok (isBoundary_zero rawSql)

theorem replaceCallsFrom_ok {calls : List MacroCall} {cursor : ℕ}
    (hcalls : ∀ call ∈ calls, CallInText rawSql call) (hcursor : IsBoundary rawSql cursor) :
    ∃ out, replaceCallsFrom rawSql calls cursor = .ok out := by
  induction calls generalizing cursor with
  | nil => exact sliceFrom_ok_iff.mpr hcursor
  | cons call calls ih =>
      obtain ⟨⟨hstart, hstop⟩, hrest⟩ := List.forall_mem_cons.mp hcalls
      unfold replaceCallsFrom
      split_ifs with hskip
      · exact ih hrest hcursor
      · simp only [Bool.or_eq_true, decide_eq_true_eq, not_or, not_lt] at hskip
        obtain ⟨kept, hkept⟩ := slice_ok hcursor hstart hskip.1.1.1
        obtain ⟨tail, htail⟩ := ih hrest hstop
        exact ⟨_, bind_eq_ok.mpr ⟨kept, hkept, bind_eq_ok.mpr ⟨tail, htail, rfl⟩⟩⟩

theorem normalizeSqlForParser_ok (rawSql : Str) :
    ∃ out, normalizeSqlForParser rawSql = .ok out := by
  obtain ⟨refs, hrefs, hrefsIn⟩ := extractMacroCalls_ok rawSql "ref".toList
  obtain ⟨sources, hsources, hsourcesIn⟩ := extractMacroCalls_ok rawSql "source".toList
  have hsorted : ∀ call ∈ (refs ++ sources).insertionSort fun a b => a.start ≤ b.start,
      CallInText rawSql call := by
    intro call hcall
    cases List.mem_append.mp ((List.mem_insertionSort _).mp hcall) with
    | inl hmem => exact hrefsIn call hmem
    | inr hmem => exact hsourcesIn call hmem
  obtain ⟨out, hout⟩ := replaceCallsFrom_ok hsorted (isBoundary_zero rawSql)
  exact ⟨_, bind_eq_ok.mpr ⟨refs, hrefs, bind_eq_ok.mpr ⟨sources, hsources,
    bind_eq_ok.mpr ⟨out, hout, rfl⟩⟩⟩⟩

end Calls

/-! ## The search for FROM -/

/-- Every wide character of the text is in quotes or parentheses, or behind a FROM that is
in none. -/
def HidesWide (level : Level) (projection : Str) : Prop :=
  ∀ front c rest, projection = front ++ c :: rest → 128 ≤ c.toNat →
    ((encode front).foldl Level.step level).isOutside = true →
      ∃ before behind, front = before ++ behind ∧
        ((encode before).foldl Level.step level).isOutside = true ∧
        " from ".toList <+: lower (behind ++ c :: rest)

section Projection
variable {rawSql : Str} {projectionStart : ℕ} {level : Level}

theorem hidesWide_nil : HidesWide level [] := fun _ _ _ h =>
  absurd h.symm (List.append_ne_nil_of_right_ne_nil _ (List.cons_ne_nil _ _))

/-- A FROM at the head hides all that follows. -/
theorem hidesWide_of_from {projection : Str} (houtside : level.isOutside = true)
    (hfrom : " from ".toList <+: lower projection) : HidesWide level projection :=
  fun front _ _ h _ _ => ⟨[], front, rfl, houtside, h ▸ hfrom⟩

/-- Where no FROM stands at the head, the next characters decide. -/
theorem hidesWide_cons {c : Char} {rest : Str} (hwide : 128 ≤ c.toNat → level.isOutside = false)
    (hfrom : ¬ (level.isOutside = true ∧ " from ".toList <+: lower (c :: rest))) :
    HidesWide level (c :: rest) ↔
      HidesWide ((String.utf8EncodeChar c).foldl Level.step level) rest := by
  constructor
  · intro h front d back hrest hd houtside
    obtain ⟨before, behind, hsplit, hbefore, hlead⟩ := h (c :: front) d back
      (by rw [hrest, List.cons_append]) hd (by rwa [encode_cons, List.foldl_append])
    cases before with
    | nil =>
        rw [List.nil_append] at hsplit
        rw [← hsplit, List.cons_append, ← hrest] at hlead
        exact absurd ⟨hbefore, hlead⟩ hfrom
    | cons e before =>
        rw [List.cons_append] at hsplit
        obtain ⟨rfl, hfront⟩ := List.cons.inj hsplit
        rw [encode_cons, List.foldl_append] at hbefore
        exact ⟨before, behind, hfront, hbefore, hlead⟩
  · intro h front d back hrest hd houtside
    cases front with
    | nil =>
        obtain ⟨rfl, rfl⟩ := List.cons.inj hrest
        rw [encode_nil, List.foldl_nil, hwide hd] at houtside
        cases houtside
    | cons e front =>
        rw [List.cons_append] at hrest
        obtain ⟨rfl, hback⟩ := List.cons.inj hrest
        rw [encode_cons, List.foldl_append] at houtside
        obtain ⟨before, behind, hfront, hbefore, hlead⟩ := h front d back hback hd houtside
        refine ⟨c :: before, behind, by rw [hfront, List.cons_append], ?_, hlead⟩
        rwa [encode_cons, List.foldl_append]

/-- A FROM begins with a blank. -/
theorem blank_of_from {c : Char} {rest : Str} (h : " from ".toList <+: lower (c :: rest)) :
    c = ' ' := by
  obtain ⟨tail, htail⟩ := h
  have hhead : ' ' = c.toLower := (List.cons.inj htail).1
  have hnat := congrArg Char.toNat hhead
  have hspace : ' '.toNat = 32 := rfl
  rw [Text.toNat_toLower] at hnat
  apply Char.toNat_inj.mp
  split_ifs at hnat with hrange
  · omega
  · exact hnat.symm

theorem not_hidesWide {c : Char} {rest : Str} (hwide : 128 ≤ c.toNat)
    (houtside : level.isOutside = true) : ¬ HidesWide level (c :: rest) := by
  intro h
  obtain ⟨before, behind, hsplit, -, hlead⟩ := h [] c rest rfl hwide houtside
  obtain ⟨-, rfl⟩ := List.append_eq_nil_iff.mp hsplit.symm
  rw [blank_of_from hlead] at hwide
  exact absurd hwide (by decide)

theorem isQuote_wide {b : UInt8} (h : 128 ≤ b.toNat) : isQuote b = false := by
  rw [Bool.eq_false_iff]
  intro hquote
  have hlt := quote_lt hquote
  omega

theorem byte_ne {b d : UInt8} (h : 128 ≤ b.toNat) (hd : d.toNat < 128) : b ≠ d := by
  rintro rfl
  omega

theorem looksAt_wide {b : UInt8} (h : 128 ≤ b.toNat) : level.looksAt b = level.isOutside := by
  unfold Level.looksAt
  rw [isQuote_wide h, bne_iff_ne.mpr (byte_ne h (by decide)),
    bne_iff_ne.mpr (byte_ne h (by decide))]
  simp only [Bool.not_false, Bool.and_true]

theorem step_wide {b : UInt8} (h : 128 ≤ b.toNat) : level.step b = level := by
  have hne : ∀ d : UInt8, d.toNat < 128 → (b == d) = false := fun d hd =>
    beq_eq_false_iff_ne.mpr (byte_ne h hd)
  obtain ⟨depth, inSingle, inDouble⟩ := level
  unfold Level.step
  simp only [bne, hne _ (show ('\''.toUInt8).toNat < 128 by decide),
    hne _ (show ('"'.toUInt8).toNat < 128 by decide),
    hne _ (show ('('.toUInt8).toNat < 128 by decide),
    hne _ (show (')'.toUInt8).toNat < 128 by decide)]
  cases inSingle <;> cases inDouble <;> rfl

theorem foldl_wide {bytes : List UInt8} (h : ∀ b ∈ bytes, 128 ≤ b.toNat) :
    bytes.foldl Level.step level = level := by
  induction bytes with
  | nil => rfl
  | cons b bytes ih =>
      rw [List.forall_mem_cons] at h
      rw [List.foldl_cons, step_wide h.1, ih h.2]

/-- In quotes and parentheses the bytes of a wide character are passed over. -/
theorem projectionFrom_wide {bytes rest : List UInt8} {cursor : ℕ}
    (h : ∀ b ∈ bytes, 128 ≤ b.toNat) (hinside : level.isOutside = false) :
    projectionFrom rawSql projectionStart (bytes ++ rest) cursor level =
      projectionFrom rawSql projectionStart rest (cursor + bytes.length) level := by
  induction bytes generalizing cursor with
  | nil => rfl
  | cons b bytes ih =>
      rw [List.forall_mem_cons] at h
      rw [List.cons_append, projectionFrom, looksAt_wide h.1, hinside, if_neg Bool.false_ne_true,
        step_wide h.1, ih h.2, List.length_cons, Nat.add_right_comm, Nat.add_assoc]

/-- Where the scan looks, it slices; the slice is there at the bound of a character. -/
theorem projectionFrom_looks {front back : Str} {b : UInt8} {rest : List UInt8}
    (hlooks : level.looksAt b = true) :
    projectionFrom (front ++ back) projectionStart (b :: rest) (byteLen front) level =
      if " from ".toList.isPrefixOf (lower back) then
        (slice (front ++ back) projectionStart (byteLen front)).map some
      else projectionFrom (front ++ back) projectionStart rest (byteLen front + 1) level := by
  have hlower : lower (front ++ back) = lower front ++ lower back := List.map_append
  rw [projectionFrom, if_pos hlooks, hlower, ← byteLen_lower front, sliceFrom_front]
  rfl

/-- Outside, the second byte of a wide character is looked at. -/
theorem projectionFrom_panics {front back : Str} {c : Char} (hwide : 128 ≤ c.toNat)
    (houtside : level.isOutside = true) {rest : List UInt8} :
    ¬ ∃ found, projectionFrom (front ++ c :: back) projectionStart
      (String.utf8EncodeChar c ++ rest) (byteLen front) level = .ok found := by
  obtain ⟨htwo, hbytes⟩ := utf8EncodeChar_wide hwide
  have hinside : ¬ IsBoundary (lower (front ++ c :: back)) (byteLen front + 1) := fun h =>
    not_isBoundary_inside Nat.one_pos htwo (isBoundary_lower.mp h)
  have hfrom : ¬ " from ".toList.isPrefixOf (lower (c :: back)) = true := fun h => by
    rw [blank_of_from (List.isPrefixOf_iff_prefix.mp h)] at hwide
    exact absurd hwide (by decide)
  rw [← String.length_utf8EncodeChar] at htwo
  rintro ⟨found, hfound⟩
  cases hencode : String.utf8EncodeChar c with
  | nil =>
      rw [hencode] at htwo
      cases htwo
  | cons b bytes =>
      cases bytes with
      | nil =>
          rw [hencode] at htwo
          exact absurd htwo (Nat.not_succ_le_self 1)
      | cons b' bytes =>
          rw [hencode] at hbytes hfound
          rw [List.forall_mem_cons, List.forall_mem_cons] at hbytes
          obtain ⟨hb, hb', -⟩ := hbytes
          rw [List.cons_append, projectionFrom_looks ((looksAt_wide hb).trans houtside),
            if_neg hfrom, List.cons_append, projectionFrom,
            if_pos ((looksAt_wide hb').trans houtside)] at hfound
          obtain ⟨tail, htail, -⟩ := bind_eq_ok.mp hfound
          exact hinside (sliceFrom_ok_iff.mp ⟨tail, htail⟩)

/-- The search ends well exactly when it meets no wide character outside. -/
theorem projectionFrom_ok_iff {front back : Str}
    (hstart : IsBoundary (front ++ back) projectionStart) (hle : projectionStart ≤ byteLen front) :
    (∃ found, projectionFrom (front ++ back) projectionStart (encode back) (byteLen front) level =
      .ok found) ↔ HidesWide level back := by
  induction back generalizing front level with
  | nil => exact iff_of_true ⟨none, rfl⟩ hidesWide_nil
  | cons c back ih =>
      have happend : front ++ c :: back = (front ++ [c]) ++ back := by
        rw [List.append_assoc, List.singleton_append]
      have hnext : projectionStart ≤ byteLen (front ++ [c]) := by
        rw [byteLen_append]
        exact Nat.le_add_right_of_le hle
      have hlen : byteLen (front ++ [c]) = byteLen front + c.utf8Size := by
        rw [byteLen_append, byteLen_cons]
        rfl
      have ihNext : ∀ level : Level, (∃ found, projectionFrom (front ++ c :: back) projectionStart
          (encode back) (byteLen front + c.utf8Size) level = .ok found) ↔
            HidesWide level back := by
        intro level
        rw [happend, ← hlen]
        exact ih (happend ▸ hstart) hnext
      rw [encode_cons]
      by_cases hascii : c.toNat < 128
      · rw [utf8Size_ascii hascii] at ihNext
        rw [utf8EncodeChar_ascii hascii, List.singleton_append]
        by_cases hlooks : level.looksAt (UInt8.ofNat c.toNat) = true
        · have houtside : level.isOutside = true := by
            unfold Level.looksAt at hlooks
            simp only [Bool.and_eq_true] at hlooks
            exact hlooks.1.1.1
          rw [projectionFrom_looks hlooks]
          split_ifs with hfrom
          · obtain ⟨part, hpart⟩ := slice_ok hstart (isBoundary_front front (c :: back)) hle
            rw [hpart]
            exact iff_of_true ⟨some part, rfl⟩
              (hidesWide_of_from houtside (List.isPrefixOf_iff_prefix.mp hfrom))
          · rw [ihNext, hidesWide_cons (fun hwide => absurd hascii (Nat.not_lt.mpr hwide))
              (fun h => hfrom (List.isPrefixOf_iff_prefix.mpr h.2)), utf8EncodeChar_ascii hascii,
              List.foldl_cons, List.foldl_nil, looksAt_step hlooks]
        · rw [projectionFrom, if_neg hlooks, ihNext,
            hidesWide_cons (fun hwide => absurd hascii (Nat.not_lt.mpr hwide)),
            utf8EncodeChar_ascii hascii, List.foldl_cons, List.foldl_nil]
          -- the head of a FROM is a blank, which the scan would look at
          rintro ⟨houtside, hfrom⟩
          rw [blank_of_from hfrom] at hlooks
          apply hlooks
          unfold Level.looksAt
          rw [houtside]
          rfl
      · have hwide : 128 ≤ c.toNat := Nat.not_lt.mp hascii
        obtain ⟨htwo, hbytes⟩ := utf8EncodeChar_wide hwide
        cases houtside : level.isOutside with
        | false =>
            rw [projectionFrom_wide hbytes houtside, String.length_utf8EncodeChar, ihNext,
              hidesWide_cons (fun _ => houtside) (fun h => by rw [houtside] at h; cases h.1),
              foldl_wide hbytes]
        | true =>
            refine iff_of_false ?_ (not_hidesWide hwide houtside)
            exact projectionFrom_panics hwide houtside

end Projection

/-- The text before and behind the first SELECT, in letters of either case. -/
def FirstSelect (rawSql before projection : Str) : Prop :=
  (∃ keyword, rawSql = before ++ keyword ++ projection ∧ lower keyword = "select".toList) ∧
    ∀ front keyword back, rawSql = front ++ keyword ++ back → lower keyword = "select".toList →
      before.length ≤ front.length

theorem FirstSelect.unique {rawSql before projection before' projection' : Str}
    (h : FirstSelect rawSql before projection) (h' : FirstSelect rawSql before' projection') :
    before = before' ∧ projection = projection' := by
  obtain ⟨⟨keyword, hraw, hkeyword⟩, hfirst⟩ := h
  obtain ⟨⟨keyword', hraw', hkeyword'⟩, hfirst'⟩ := h'
  have hbefore : before.length = before'.length :=
    Nat.le_antisymm (hfirst before' keyword' projection' hraw' hkeyword')
      (hfirst' before keyword projection hraw hkeyword)
  have hlength : keyword.length = keyword'.length := by
    have hsame := congrArg List.length (hkeyword.trans hkeyword'.symm)
    unfold lower at hsame
    rwa [List.length_map, List.length_map] at hsame
  rw [hraw, List.append_assoc, List.append_assoc] at hraw'
  obtain ⟨rfl, hrest⟩ := List.append_inj hraw' hbefore
  exact ⟨rfl, (List.append_inj hrest hlength).2⟩

theorem outerProjectionText_ok_iff (rawSql : Str) :
    (∃ found, outerProjectionText rawSql = .ok found) ↔
      ∀ before projection, FirstSelect rawSql before projection →
        HidesWide ⟨0, false, false⟩ projection := by
  unfold outerProjectionText
  cases hfind : find "select".toList (lower rawSql) with
  | none =>
      refine iff_of_true ⟨none, rfl⟩ fun before projection hfirst => ?_
      obtain ⟨⟨keyword, hraw, hkeyword⟩, -⟩ := hfirst
      refine absurd ?_ (find_none hfind (lower before) (lower projection))
      rw [hraw, ← hkeyword]
      unfold lower
      rw [List.map_append, List.map_append]
  | some selectStart =>
      obtain ⟨front, back, hlower, rfl, hfirst⟩ := find_spec hfind
      obtain ⟨whole, projection, rfl, hwhole, rfl⟩ := List.map_eq_append_iff.mp hlower
      obtain ⟨before, keyword, rfl, rfl, hkeyword⟩ := List.map_eq_append_iff.mp hwhole
      have hselect : FirstSelect (before ++ keyword ++ projection) before projection := by
        refine ⟨⟨keyword, rfl, hkeyword⟩, fun front' keyword' back' hraw hkeyword' => ?_⟩
        have hearlier := hfirst (lower front') (lower back') (by
          rw [hraw, ← hkeyword']
          unfold lower
          rw [List.map_append, List.map_append])
        unfold lower at hearlier
        rwa [List.length_map, List.length_map] at hearlier
      have hstart : byteLen (lower before) + byteLen "select".toList =
          byteLen (before ++ keyword) := by
        rw [byteLen_append, byteLen_lower, ← byteLen_lower keyword, ← hkeyword]
        rfl
      have hdrop : (encode (before ++ keyword ++ projection)).drop (byteLen (before ++ keyword)) =
          encode projection := by
        rw [encode_append, ← length_encode, List.drop_left]
      have hscan := @projectionFrom_ok_iff (byteLen (before ++ keyword)) ⟨0, false, false⟩
        (before ++ keyword) projection (isBoundary_front _ _) (Nat.le_refl _)
      have hstart' : byteLen (before.map Char.toLower) + byteLen "select".toList =
          byteLen (before ++ keyword) := hstart
      simp only [hstart', hdrop, hscan]
      constructor
      · intro hhides before' projection' hfirst'
        rwa [← (hselect.unique hfirst').2]
      · intro h
        exact h before projection hselect

theorem findSelectColumnDefinitionBestEffort_ok_iff (rawSql target : Str) :
    (∃ definition, findSelectColumnDefinitionBestEffort rawSql target = .ok definition) ↔
      ∃ found, outerProjectionText rawSql = .ok found := by
  unfold findSelectColumnDefinitionBestEffort
  constructor
  · rintro ⟨definition, h⟩
    obtain ⟨found, hfound, -⟩ := bind_eq_ok.mp h
    exact ⟨found, hfound⟩
  · rintro ⟨found, hfound⟩
    cases found with
    | none => exact ⟨none, bind_eq_ok.mpr ⟨none, hfound, rfl⟩⟩
    | some projection =>
        obtain ⟨items, hitems⟩ := splitTopLevelCommas_ok projection
        obtain ⟨definition, hdefinition⟩ := definitionFromItems_ok target items
        exact ⟨definition, bind_eq_ok.mpr ⟨some projection, hfound,
          bind_eq_ok.mpr ⟨items, hitems, hdefinition⟩⟩⟩

/-- The lookup returns exactly where it has no name to look up, where the parser finds the
column, or where the text from the first SELECT on shows no wide character before FROM. -/
theorem findSelectColumnDefinition_ok_iff (parseSql : ParseSql) (rawSql columnName : Str) :
    (∃ definition, findSelectColumnDefinition parseSql rawSql columnName = .ok definition) ↔
      Text.trimChars columnName = [] ∨
      (∃ normalizedSql, normalizeSqlForParser rawSql = .ok normalizedSql ∧
        (definitionInStatements parseSql normalizedSql (Text.trimChars columnName)).isSome = true) ∨
      ∀ before projection, FirstSelect rawSql before projection →
        HidesWide ⟨0, false, false⟩ projection := by
  obtain ⟨normalizedSql, hnormalized⟩ := normalizeSqlForParser_ok rawSql
  unfold findSelectColumnDefinition
  simp only [List.isEmpty_iff]
  split_ifs with htarget
  · exact iff_of_true ⟨none, rfl⟩ (Or.inl htarget)
  · simp only [bind_eq_ok, hnormalized, Except.ok.injEq, exists_eq_left', htarget, false_or]
    cases hparsed : definitionInStatements parseSql normalizedSql (Text.trimChars columnName) with
    | some definition => exact iff_of_true ⟨some definition, rfl⟩ (Or.inl rfl)
    | none =>
        rw [findSelectColumnDefinitionBestEffort_ok_iff, outerProjectionText_ok_iff]
        simp only [Option.isSome_none, Bool.false_eq_true, false_or]

/-- The parser reads a SELECT of one column. -/
def parseAccent : ParseSql := fun _ => some [[.unnamedExpr (.identifier ['é']) ['é']]]

theorem findSelectColumnDefinition_accent :
    findSelectColumnDefinition parseAccent "select é from t".toList "x".toList = .error {} := by
  decide

end DbtNova.ColumnDefinition
