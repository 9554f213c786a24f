import DbtNova.Error
import DbtNova.Text
import DbtNova.Json
import DbtNova.SqlLexer

/-!
# Runtime parameters of recipe queries

A template is scanned once from the left. `__NAME__` is replaced by the value
of a parameter, rendered by its declared type; every other character is copied.
Whether a string value gets quotes of its own is decided by the two characters
next to the placeholder, in the template and not in the text written so far.

The scan reads bytes in the source. All bytes it compares are ASCII, so reading
characters instead changes nothing. A parameter map is an association list in
which the first entry of a key counts.
-/
namespace DbtNova.RecipePlaceholder
open Text SqlLexer

abbrev ParameterMap := List (String × JsonValue)
abbrev TypeMap := List (String × String)

def normalizeRecipeQueryKey (value : String) : String := toAsciiLowercase (trim value)

/-- The spellings under which a name is looked up, in order. -/
def lookupKeys (key : String) : List String :=
  [key, toAsciiLowercase key, toAsciiUppercase key, normalizeRecipeQueryKey key]

def resolvePlaceholderValueType (key : String) (parameterTypes : Option TypeMap) :
    Option String :=
  parameterTypes.bind fun types => (lookupKeys key).findSome? fun c => types.lookup c

def getParameterValue (key : String) (parameters : ParameterMap) : Option JsonValue :=
  (lookupKeys key).findSome? fun c => parameters.lookup c

def isTokenChar (c : Char) : Bool := c.isAlphanum || c == '_'

/-- From the first character of the name to the closing `__`. -/
def scanName : List Char → Option (List Char × List Char)
  | c :: d :: cs =>
      if c = '_' ∧ d = '_' then some ([], cs)
      else if isTokenChar c then (scanName (d :: cs)).map fun p => (c :: p.1, p.2)
      else none
  | _ => none

/-- A placeholder at the head of the text: its name and what follows it. -/
def parsePlaceholderAt : List Char → Option (List Char × List Char)
  | '_' :: '_' :: c :: cs => if isTokenChar c then scanName (c :: cs) else none
  | _ => none

def isWrappedByQuote (before after : Option Char) (quote : Char) : Bool :=
  before == some quote && after == some quote

def escapeSqlSingleQuote (value : String) : String :=
  String.ofList (value.toList.flatMap fun c => if c = '\'' then ['\'', '\''] else [c])

def quoteOrEscapeString (value : String) (isStringlyQuoted : Bool) : String :=
  if isStringlyQuoted then escapeSqlSingleQuote value
  else "'" ++ escapeSqlSingleQuote value ++ "'"

def sanitizeSqlIdentifier (value : String) : Result String :=
  let normalized := trim value
  if normalized = "" then throw (.invalidParams "Identifier parameter is empty")
  else if normalized.toList.all
      (fun c => c.isAlphanum || c == '_' || c == '.' || c == '\x60' || c == '"') then
    pure normalized
  else throw (.invalidParams
    ("Identifier parameter contains invalid characters: " ++ normalized))

def stripSign : List Char → List Char
  | '+' :: cs | '-' :: cs => cs
  | cs => cs

/-- The exponent part of a float literal, possibly absent. -/
def isExponent : List Char → Bool
  | [] => true
  | c :: cs =>
      (c == 'e' || c == 'E') && !(stripSign cs).isEmpty && (stripSign cs).all Char.isDigit

/-- The texts `str::parse::<f64>` accepts. -/
def parsesAsF64 (text : List Char) : Bool :=
  let body := stripSign text
  let lower := body.map Char.toLower
  if lower = "inf".toList ∨ lower = "infinity".toList ∨ lower = "nan".toList then true
  else
    let whole := body.takeWhile Char.isDigit
    match body.dropWhile Char.isDigit with
    | '.' :: rest =>
        (!whole.isEmpty || !(rest.takeWhile Char.isDigit).isEmpty) &&
          isExponent (rest.dropWhile Char.isDigit)
    | rest => !whole.isEmpty && isExponent rest

def coerceIdentifier : JsonValue → Result String
  | .string text => sanitizeSqlIdentifier text
  | .number number => pure number
  | .bool flag => pure (if flag then "true" else "false")
  | value => throw (.invalidParams
      ("Identifier placeholder expects a string or numeric JSON value: " ++ value.toText))

def coerceNumber : JsonValue → Result String
  | .number number => pure number
  | .string text =>
      if parsesAsF64 text.toList then pure text
      else throw (.invalidParams ("Expected numeric value for placeholder, got: " ++ text))
  | .bool flag => pure (if flag then "1" else "0")
  | value => throw (.invalidParams
      ("Expected numeric value for placeholder: " ++ value.toText))

def coerceBoolean : JsonValue → Result String
  | .bool flag => pure (if flag then "true" else "false")
  | .string text =>
      let value := toAsciiLowercase (trim text)
      if value ∈ ["true", "t", "1"] then pure "true"
      else if value ∈ ["false", "f", "0"] then pure "false"
      else throw (.invalidParams
        ("Expected boolean string for placeholder, got: " ++ text))
  | .number number => pure (if number = "0" then "false" else "true")
  | value => throw (.invalidParams
      ("Expected boolean value for placeholder: " ++ value.toText))

def coerceRaw : JsonValue → String
  | .string text => text
  | value => value.toText

def coerceDefault (isQuoted : Bool) : JsonValue → String
  | .string text => quoteOrEscapeString text isQuoted
  | .bool flag => if flag then "true" else "false"
  | .number number => number
  | .null => "NULL"
  | value => quoteOrEscapeString value.toText isQuoted

def identifierTypes : List String := ["identifier", "ident", "id"]
def numberTypes : List String := ["number", "numeric", "int", "integer", "float", "decimal"]
def booleanTypes : List String := ["boolean", "bool"]
def rawTypes : List String := ["raw", "expression", "sql"]

def coercePlaceholderValue (value : JsonValue) (placeholderType : String) (isQuoted : Bool) :
    Result String :=
  if placeholderType ∈ identifierTypes then coerceIdentifier value
  else if placeholderType ∈ numberTypes then coerceNumber value
  else if placeholderType ∈ booleanTypes then coerceBoolean value
  else if placeholderType ∈ rawTypes then pure (coerceRaw value)
  else pure (coerceDefault isQuoted value)

/-- What the scan finds: a character to copy, or a placeholder and whether it
stands between two equal quotes. -/
inductive Piece where
  | char (c : Char)
  | placeholder (name : String) (quoted : Bool)
  deriving DecidableEq, Repr

/-- The scan. `skip` counts the characters of the last placeholder that are
still to be passed, which is the source's `i = end`. -/
def pieces : Option Char → ℕ → List Char → List Piece
  | _, _, [] => []
  | _, skip + 1, c :: cs => pieces (some c) skip cs
  | before, 0, c :: cs =>
      match parsePlaceholderAt (c :: cs) with
      | some (name, rest) =>
          .placeholder (String.ofList name)
              (isWrappedByQuote before rest.head? '\'' ||
                isWrappedByQuote before rest.head? '"') ::
            pieces (some c) (cs.length - rest.length) cs
      | none => .char c :: pieces (some c) 0 cs

def placeholderType (name : String) (parameterTypes : Option TypeMap) : String :=
  toAsciiLowercase ((resolvePlaceholderValueType name parameterTypes).getD "auto")

def renderPiece (parameters : ParameterMap) (parameterTypes : Option TypeMap) :
    Piece → Result (List Char)
  | .char c => pure [c]
  | .placeholder name quoted =>
      match getParameterValue name parameters with
      | none => throw (.invalidParams
          ("Missing runtime parameter for placeholder '__" ++ name ++ "__'"))
      | some value => do
          let text ← coercePlaceholderValue value (placeholderType name parameterTypes) quoted
          pure text.toList

/-- Render the pieces from the left; the first error ends the scan. -/
def renderPieces (parameters : ParameterMap) (parameterTypes : Option TypeMap) :
    List Piece → Result (List Char)
  | [] => pure []
  | p :: ps => do
      let text ← renderPiece parameters parameterTypes p
      let rest ← renderPieces parameters parameterTypes ps
      pure (text ++ rest)

def applyRuntimeParameterSubstitution (sql : String) (parameters : ParameterMap)
    (parameterTypes : Option TypeMap) : Result String :=
  if parameters.isEmpty then pure sql
  else do
    let output ← renderPieces parameters parameterTypes (pieces none 0 sql.toList)
    pure (String.ofList output)

/-! ## Templates with holes

For one parameter the template is a list of fixed texts and holes. A string
value fills every hole; the filled characters are marked. -/

inductive Segment where
  | text (chars : List Char)
  | hole (quoted : Bool)
  deriving DecidableEq, Repr

def plain (cs : List Char) : List Glyph := cs.map fun c => ⟨c, false⟩

def filled (value : String) (quoted : Bool) : List Glyph :=
  (quoteOrEscapeString value quoted).toList.map fun c => ⟨c, true⟩

def fill (value : String) : List Segment → List Glyph
  | [] => []
  | .text cs :: ss => plain cs ++ fill value ss
  | .hole quoted :: ss => filled value quoted ++ fill value ss

/-- A hole is sound inside a single-quoted literal when the template itself
supplies the quotes, and in code position when it does not. -/
def safeHole (quoted : Bool) : Mode → Bool
  | .quoted .single _ _ => quoted
  | .code | .dash | .slash | .quoteSeen _ _ _ => !quoted
  | .quoted .double _ _ | .lineComment | .blockComment | .blockStar => false

/-- Every hole is sound in the lexical position it has behind the text to its
left. Sound holes are stepped over as if they were filled by the empty value. -/
def safeFrom : State → List Segment → Bool
  | _, [] => true
  | s, .text cs :: ss => safeFrom (run s (plain cs)) ss
  | s, .hole quoted :: ss => safeHole quoted s.mode && safeFrom (run s (filled "" quoted)) ss

def escaped (cs : List Char) : List Glyph :=
  (cs.flatMap fun c => if c = '\'' then ['\'', '\''] else [c]).map fun c => ⟨c, true⟩

theorem filled_quoted (value : String) : filled value true = escaped value.toList := by
  simp [filled, quoteOrEscapeString, escapeSqlSingleQuote, escaped]

theorem filled_bare (value : String) :
    filled value false = ⟨'\'', true⟩ :: (escaped value.toList ++ [⟨'\'', true⟩]) := by
  simp [filled, quoteOrEscapeString, escapeSqlSingleQuote, escaped]

/-- Doubling every quote keeps an escaped text inside its literal. -/
theorem run_escaped (ts : List Token) (content cs : List Char) (m : Bool) :
    run ⟨ts, .quoted .single content m⟩ (escaped cs) =
      ⟨ts, .quoted .single (content ++ cs) (m || !cs.isEmpty)⟩ := by
  induction cs generalizing content m with
  | nil => simp [escaped]
  | cons c cs ih =>
      have hcons : escaped (c :: cs) = escaped [c] ++ escaped cs := by simp [escaped]
      have hhead : run ⟨ts, .quoted .single content m⟩ (escaped [c]) =
          ⟨ts, .quoted .single (content ++ [c]) true⟩ := by
        by_cases hc : c = '\''
        · simp [escaped, hc, step, Quote.char]
        · simp [escaped, hc, step, Quote.char]
      rw [hcons, run_append, hhead, ih]
      simp

/-- Reading an opening quote from any code position. -/
theorem step_open_quote {s : State} (hs : safeHole false s.mode = true) :
    ∃ ts content m, step s ⟨'\'', true⟩ = ⟨ts, .quoted .single content m⟩ ∧ m = true := by
  obtain ⟨ts, mode⟩ := s
  cases mode with
  | quoted q content m => cases q <;> simp [safeHole] at hs
  | quoteSeen q content m => cases q <;> simp [step, codeStep, Quote.char]
  | code | dash | slash => simp [step, codeStep]
  | lineComment | blockComment | blockStar => simp [safeHole] at hs

/-- A sound hole leads agreeing states to agreeing states, whatever fills it. -/
theorem run_filled_agree {s t : State} (h : s.Agree t) {quoted : Bool}
    (hs : safeHole quoted s.mode = true) (v w : String) :
    (run s (filled v quoted)).Agree (run t (filled w quoted)) := by
  cases quoted with
  | true =>
      obtain ⟨xs, mode⟩ := s
      obtain ⟨ys, mode'⟩ := t
      obtain ⟨htokens, hmode⟩ := h
      cases mode <;> simp only [safeHole, Bool.not_true, Bool.false_eq_true] at hs
      rename_i q content m
      cases q <;> simp only [Bool.false_eq_true] at hs
      cases mode' <;> simp only [Mode.Agree, reduceCtorEq] at hmode
      obtain ⟨rfl, hcontent⟩ := hmode
      rw [filled_quoted, filled_quoted, run_escaped, run_escaped]
      refine ⟨htokens, rfl, ?_⟩
      rcases hcontent with rfl | rfl | rfl
      · by_cases hv : v.toList = []
        · by_cases hw : w.toList = []
          · exact .inl (by rw [hv, hw])
          · exact .inr (.inr (by simp [hw]))
        · exact .inr (.inl (by simp [hv]))
      · exact .inr (.inl rfl)
      · exact .inr (.inr rfl)
  | false =>
      -- Both sides open the same literal; from there on it is marked.
      have hopen := step_agree h ⟨'\'', true⟩
      obtain ⟨ts, content, m, hstep, hm⟩ := step_open_quote hs
      rw [filled_bare, filled_bare, run_cons, run_cons]
      rw [hstep] at hopen ⊢
      generalize step t ⟨'\'', true⟩ = t' at hopen ⊢
      obtain ⟨ys, mode'⟩ := t'
      obtain ⟨htokens, hmode⟩ := hopen
      cases mode' <;> simp only [Mode.Agree, reduceCtorEq] at hmode
      obtain ⟨rfl, -⟩ := hmode
      rw [run_append, run_append, run_escaped, run_escaped]
      refine ⟨htokens, ?_⟩
      simp [step, Quote.char, Mode.Agree, ContentAgree, hm]

theorem safeHole_agree {m n : Mode} (h : m.Agree n) (quoted : Bool) :
    safeHole quoted m = safeHole quoted n := by
  cases m <;> cases n <;> simp only [Mode.Agree, reduceCtorEq] at h
  case quoted.quoted => obtain ⟨rfl, -⟩ := h; rename_i q _ _ _ _; cases q <;> rfl
  all_goals rfl

/-- Soundness only looks at the shape of the lexer's state. -/
theorem safeFrom_agree {s t : State} (h : s.Agree t) (ss : List Segment) :
    safeFrom s ss = safeFrom t ss := by
  induction ss generalizing s t with
  | nil => rfl
  | cons seg ss ih =>
      cases seg with
      | text cs => exact ih (run_agree h (plain cs))
      | hole quoted =>
          simp only [safeFrom, safeHole_agree h.2 quoted, ih (run_agree h _)]

/-- Sound holes keep the token structure for all pairs of values. -/
theorem fill_agree {s t : State} (h : s.Agree t) (ss : List Segment)
    (hs : safeFrom s ss = true) (v w : String) :
    (run s (fill v ss)).Agree (run t (fill w ss)) := by
  induction ss generalizing s t with
  | nil => simpa [fill] using h
  | cons seg ss ih =>
      cases seg with
      | text cs =>
          simp only [fill, run_append]
          exact ih (run_agree h (plain cs)) hs
      | hole quoted =>
          simp only [safeFrom, Bool.and_eq_true] at hs
          simp only [fill, run_append]
          refine ih (run_filled_agree h hs.1 v w) ?_
          have hempty := run_filled_agree s.agree_refl hs.1 "" v
          rw [← hs.2]
          exact (safeFrom_agree hempty ss).symm

/-- The text that leaves an unsound position and continues in code. -/
def breakout : Mode → List Char
  | .quoted .double _ _ => ['"']
  | .lineComment => ['\n']
  | .blockComment | .blockStar => ['*', '/']
  | _ => []

/-- How many tokens leaving an unsound position completes. -/
def completed : Mode → ℕ
  | .dash | .slash | .quoted _ _ _ | .quoteSeen _ _ _ => 1
  | .code | .lineComment | .blockComment | .blockStar => 0

/-- From an unsound hole a value can put a character of its choice into code. -/
theorem run_unsafe (s : State) (quoted : Bool) (hs : safeHole quoted s.mode = false) {c : Char}
    (hc : c = 'a' ∨ c = 'b') :
    ∃ us, us.length = s.tokens.length + completed s.mode ∧
      (run s (filled (String.ofList (breakout s.mode ++ [c])) quoted)).tokens =
        us ++ [.symbol c] := by
  obtain ⟨xs, mode⟩ := s
  cases quoted with
  | true =>
      simp only [filled_quoted, String.toList_ofList]
      cases mode with
      | code => exact ⟨xs, rfl, by rcases hc with rfl | rfl <;> rfl⟩
      | dash => exact ⟨xs ++ [.symbol '-'], by simp [completed],
          by rcases hc with rfl | rfl <;> rfl⟩
      | slash => exact ⟨xs ++ [.symbol '/'], by simp [completed],
          by rcases hc with rfl | rfl <;> rfl⟩
      | quoted q content m =>
          cases q with
          | single => simp [safeHole] at hs
          | double => exact ⟨xs ++ [.quoted .double true content (m || true)],
              by simp [completed], by rcases hc with rfl | rfl <;> rfl⟩
      | quoteSeen q content m =>
          exact ⟨xs ++ [.quoted q true content m], by simp [completed],
            by rcases hc with rfl | rfl <;> cases q <;> rfl⟩
      | lineComment => exact ⟨xs, rfl, by rcases hc with rfl | rfl <;> rfl⟩
      | blockComment => exact ⟨xs, rfl, by rcases hc with rfl | rfl <;> rfl⟩
      | blockStar => exact ⟨xs, rfl, by rcases hc with rfl | rfl <;> rfl⟩
  | false =>
      simp only [filled_bare, String.toList_ofList]
      cases mode with
      | quoted q content m =>
          cases q with
          | single => exact ⟨xs ++ [.quoted .single true content (m || true)],
              by simp [completed], by rcases hc with rfl | rfl <;> rfl⟩
          | double => exact
              ⟨xs ++ [.quoted .double true (content ++ ['\'']) (m || true || true)],
                by simp [completed], by rcases hc with rfl | rfl <;> rfl⟩
      | lineComment => exact ⟨xs, rfl, by rcases hc with rfl | rfl <;> rfl⟩
      | blockComment => exact ⟨xs, rfl, by rcases hc with rfl | rfl <;> rfl⟩
      | blockStar => exact ⟨xs, rfl, by rcases hc with rfl | rfl <;> rfl⟩
      | code | dash | slash | quoteSeen => simp [safeHole] at hs

theorem breakout_agree {m n : Mode} (h : m.Agree n) :
    breakout m = breakout n ∧ completed m = completed n := by
  cases m <;> cases n <;> simp only [Mode.Agree, reduceCtorEq] at h
  case quoted.quoted => obtain ⟨rfl, -⟩ := h; rename_i q _ _ _ _; cases q <;> exact ⟨rfl, rfl⟩
  all_goals exact ⟨rfl, rfl⟩

/-- The first unsound hole separates two values for good. -/
theorem fill_diverges (s₀ : State) (ss : List Segment) (hs : safeFrom s₀ ss = false) :
    ∃ v w, ∀ s t : State, s.Agree s₀ → t.Agree s₀ →
      ¬ SameStructure (run s (fill v ss)).finish (run t (fill w ss)).finish := by
  induction ss generalizing s₀ with
  | nil => simp [safeFrom] at hs
  | cons seg ss ih =>
      cases seg with
      | text cs =>
          obtain ⟨v, w, hvw⟩ := ih (run s₀ (plain cs)) hs
          refine ⟨v, w, fun s t hst hts => ?_⟩
          simp only [fill, run_append]
          exact hvw _ _ (run_agree hst _) (run_agree hts _)
      | hole quoted =>
          by_cases hsafe : safeHole quoted s₀.mode = true
          · -- A sound hole leaves the search to the holes behind it.
            have htail : safeFrom (run s₀ (filled "" quoted)) ss = false := by
              simpa [safeFrom, hsafe] using hs
            obtain ⟨v, w, hvw⟩ := ih _ htail
            refine ⟨v, w, fun s t hst hts => ?_⟩
            simp only [fill, run_append]
            have hs' := (safeHole_agree hst.2 quoted).trans hsafe
            have ht' := (safeHole_agree hts.2 quoted).trans hsafe
            exact hvw _ _ (run_filled_agree hst hs' v "") (run_filled_agree hts ht' w "")
          · have hunsafe : safeHole quoted s₀.mode = false := by simpa using hsafe
            refine ⟨String.ofList (breakout s₀.mode ++ ['a']),
              String.ofList (breakout s₀.mode ++ ['b']), fun s t hst hts => ?_⟩
            obtain ⟨us, hus, husrun⟩ := run_unsafe s quoted
              ((safeHole_agree hst.2 quoted).trans hunsafe) (.inl (rfl : 'a' = 'a'))
            obtain ⟨ws, hws, hwsrun⟩ := run_unsafe t quoted
              ((safeHole_agree hts.2 quoted).trans hunsafe) (.inr (rfl : 'b' = 'b'))
            rw [(breakout_agree hst.2).1] at husrun
            rw [(breakout_agree hts.2).1] at hwsrun
            have hlen : us.length = ws.length := by
              rw [hus, hws, (breakout_agree hst.2).2, (breakout_agree hts.2).2,
                List.Forall₂.length_eq hst.1, List.Forall₂.length_eq hts.1]
            have hdiv := diverged_symbol hlen (show 'a' ≠ 'b' by decide)
            rw [← husrun, ← hwsrun] at hdiv
            simp only [fill, run_append]
            exact hdiv.finish _ _

/-- A template keeps its token structure for all values of a parameter exactly
when every hole of that parameter is sound. -/
theorem fill_sameStructure_iff (ss : List Segment) :
    (∀ v w, SameStructure (lex (fill v ss)) (lex (fill w ss))) ↔ safeFrom start ss = true := by
  constructor
  · intro h
    by_contra hs
    obtain ⟨v, w, hvw⟩ := fill_diverges start ss (by simpa using hs)
    exact hvw start start start.agree_refl start.agree_refl (h v w)
  · intro hs v w
    exact finish_agree (fill_agree start.agree_refl ss hs v w)

/-! ## The substitution as a template for one parameter -/

/-- A placeholder reads the parameter stored under `key`: among the spellings of
its name, `key` is the first one that the map knows. -/
def resolvesTo (key : String) (others : ParameterMap) (name : String) : Bool :=
  (lookupKeys name).find? (fun c => c == key || (others.lookup c).isSome) == some key

def isDefaultType (t : String) : Bool :=
  !(identifierTypes ++ numberTypes ++ booleanTypes ++ rawTypes).contains t

/-- The parameter is rendered under the default type wherever it is read. -/
def defaultTyped (key : String) (others : ParameterMap) (types : Option TypeMap) :
    Piece → Bool
  | .char _ => true
  | .placeholder name _ =>
      !resolvesTo key others name || isDefaultType (placeholderType name types)

def segmentOf (key : String) (others : ParameterMap) (types : Option TypeMap) :
    Piece → Result Segment
  | .char c => pure (.text [c])
  | .placeholder name quoted =>
      if resolvesTo key others name then pure (.hole quoted)
      else do
        let text ← renderPiece ((key, .null) :: others) types (.placeholder name quoted)
        pure (.text text)

def segmentsOf (key : String) (others : ParameterMap) (types : Option TypeMap) :
    List Piece → Result (List Segment)
  | [] => pure []
  | p :: ps => do
      let seg ← segmentOf key others types p
      let ss ← segmentsOf key others types ps
      pure (seg :: ss)

def segments (sql key : String) (others : ParameterMap) (types : Option TypeMap) :
    Result (List Segment) :=
  segmentsOf key others types (pieces none 0 sql.toList)

/-- The rendered text with the characters of the parameter's value marked. -/
def markedOutput (sql key : String) (others : ParameterMap) (types : Option TypeMap)
    (value : String) : Result (List Glyph) :=
  (segments sql key others types).map (fill value)

theorem findSome_lookup_cons (key : String) (x : JsonValue) (others : ParameterMap)
    (keys : List String) :
    keys.findSome? (fun c => ((key, x) :: others).lookup c) =
      (keys.find? fun c => c == key || (others.lookup c).isSome).bind fun c =>
        if c = key then some x else others.lookup c := by
  induction keys with
  | nil => rfl
  | cons c keys ih =>
      by_cases hc : c = key
      · subst hc
        simp
      · have hb : (c == key) = false := by simpa using hc
        cases hl : others.lookup c with
        | none => simpa [List.findSome?_cons, List.find?_cons, List.lookup_cons, hb, hl] using ih
        | some y => simp [List.lookup_cons, hb, hl, hc]

theorem getParameterValue_hole {key name : String} {others : ParameterMap}
    (h : resolvesTo key others name = true) (x : JsonValue) :
    getParameterValue name ((key, x) :: others) = some x := by
  have hfind := beq_iff_eq.mp h
  rw [getParameterValue, findSome_lookup_cons, hfind]
  simp

theorem getParameterValue_other {key name : String} {others : ParameterMap}
    (h : resolvesTo key others name = false) (x y : JsonValue) :
    getParameterValue name ((key, x) :: others) =
      getParameterValue name ((key, y) :: others) := by
  rw [getParameterValue, getParameterValue, findSome_lookup_cons, findSome_lookup_cons]
  cases hfind : (lookupKeys name).find? fun c => c == key || (others.lookup c).isSome with
  | none => rfl
  | some c =>
      have hc : c ≠ key := by
        rintro rfl
        simp [resolvesTo, hfind] at h
      simp [hc]

theorem coercePlaceholderValue_default {t : String} (h : isDefaultType t = true)
    (v : String) (quoted : Bool) :
    coercePlaceholderValue (.string v) t quoted = .ok (quoteOrEscapeString v quoted) := by
  simp only [isDefaultType, Bool.not_eq_true', List.contains_eq_mem, decide_eq_false_iff_not,
    List.mem_append, not_or] at h
  simp [coercePlaceholderValue, coerceDefault, h, pure, Except.pure]

def text (gs : List Glyph) : List Char := gs.map Glyph.char

@[simp] theorem text_plain (cs : List Char) : text (plain cs) = cs := by
  simp [text, plain, Function.comp_def]

@[simp] theorem text_filled (v : String) (quoted : Bool) :
    text (filled v quoted) = (quoteOrEscapeString v quoted).toList := by
  simp [text, filled, Function.comp_def]

/-- A piece renders to the filling of its segment. -/
theorem renderPiece_eq {key : String} {others : ParameterMap} {types : Option TypeMap}
    {p : Piece} (hdefault : defaultTyped key others types p = true) (v : String) :
    renderPiece ((key, .string v) :: others) types p =
      (segmentOf key others types p).map fun seg => text (fill v [seg]) := by
  cases p with
  | char c => simp [renderPiece, segmentOf, fill, pure, Except.pure, Except.map]
  | placeholder name quoted =>
      by_cases hr : resolvesTo key others name = true
      · have htype : isDefaultType (placeholderType name types) = true := by
          simpa [defaultTyped, hr] using hdefault
        have ht := coercePlaceholderValue_default htype v quoted
        simp [renderPiece, segmentOf, hr, getParameterValue_hole hr, ht, fill, pure, Except.pure,
          Except.map, bind, Except.bind]
      · have hr' : resolvesTo key others name = false := by simpa using hr
        have hrender : renderPiece ((key, .string v) :: others) types (.placeholder name quoted) =
            renderPiece ((key, .null) :: others) types (.placeholder name quoted) := by
          simp only [renderPiece, getParameterValue_other hr' (.string v) .null]
        rw [hrender, segmentOf, hr']
        cases renderPiece ((key, .null) :: others) types (.placeholder name quoted) with
        | error e => rfl
        | ok cs => simp [fill, pure, Except.pure, Except.map, bind, Except.bind]

theorem fill_cons (v : String) (seg : Segment) (ss : List Segment) :
    fill v (seg :: ss) = fill v [seg] ++ fill v ss := by
  cases seg <;> simp [fill]

theorem renderPieces_eq {key : String} {others : ParameterMap} {types : Option TypeMap}
    {ps : List Piece} (hdefault : ∀ p ∈ ps, defaultTyped key others types p = true)
    (v : String) :
    renderPieces ((key, .string v) :: others) types ps =
      (segmentsOf key others types ps).map fun ss => text (fill v ss) := by
  induction ps with
  | nil => simp [renderPieces, segmentsOf, fill, text, pure, Except.pure, Except.map]
  | cons p ps ih =>
      have hp := renderPiece_eq (hdefault p List.mem_cons_self) v
      have hps := ih fun p h => hdefault p (List.mem_cons_of_mem _ h)
      simp only [renderPieces, segmentsOf, hp, hps]
      cases segmentOf key others types p with
      | error e => rfl
      | ok seg =>
          cases segmentsOf key others types ps with
          | error e => rfl
          | ok ss =>
              simp [fill_cons v seg ss, text, pure, Except.pure, Except.map, bind, Except.bind]

/-- The marks are bookkeeping only: erasing them gives the function's output. -/
theorem substitution_eq_markedOutput {sql key : String} {others : ParameterMap}
    {types : Option TypeMap}
    (hdefault : ∀ p ∈ pieces none 0 sql.toList, defaultTyped key others types p = true)
    (v : String) :
    applyRuntimeParameterSubstitution sql ((key, .string v) :: others) types =
      (markedOutput sql key others types v).map fun gs => String.ofList (text gs) := by
  simp only [applyRuntimeParameterSubstitution, List.isEmpty_cons, Bool.false_eq_true, if_false,
    renderPieces_eq hdefault v, markedOutput, segments]
  cases segmentsOf key others types (pieces none 0 sql.toList) with
  | error e => rfl
  | ok ss => rfl

/-- The two renderings differ only inside the quoted tokens that hold the value. -/
def StructurePreserved (sql key : String) (others : ParameterMap) (types : Option TypeMap) :
    Prop :=
  ∀ v w gs hs, markedOutput sql key others types v = .ok gs →
    markedOutput sql key others types w = .ok hs → SameStructure (lex gs) (lex hs)

/-- Every placeholder that reads the parameter stands in a sound position. -/
def SoundPositions (sql key : String) (others : ParameterMap) (types : Option TypeMap) :
    Prop :=
  ∃ ss, segments sql key others types = .ok ss ∧ safeFrom start ss = true

/-- Exactly the templates with sound positions keep their structure. -/
theorem substitution_structure_iff (sql key : String) (others : ParameterMap)
    (types : Option TypeMap)
    (hdefault : ∀ p ∈ pieces none 0 sql.toList, defaultTyped key others types p = true)
    (hok : ∃ v output,
      applyRuntimeParameterSubstitution sql ((key, .string v) :: others) types = .ok output) :
    (∀ v, applyRuntimeParameterSubstitution sql ((key, .string v) :: others) types =
        (markedOutput sql key others types v).map fun gs => String.ofList (text gs)) ∧
      (StructurePreserved sql key others types ↔ SoundPositions sql key others types) := by
  refine ⟨substitution_eq_markedOutput hdefault, ?_⟩
  obtain ⟨v₀, output, hout⟩ := hok
  rw [substitution_eq_markedOutput hdefault] at hout
  cases hss : segments sql key others types with
  | error e => simp [markedOutput, hss, Except.map] at hout
  | ok ss =>
      have hmarked : ∀ v, markedOutput sql key others types v = .ok (fill v ss) := by
        intro v
        simp [markedOutput, hss, Except.map]
      simp only [StructurePreserved, SoundPositions, hmarked, hss, Except.ok.injEq,
        exists_eq_left', ← fill_sameStructure_iff]
      constructor
      · intro h v w
        exact h v w _ _ rfl rfl
      · rintro h v w gs hs rfl rfl
        exact h v w

theorem quoted_country_structure :
    (∀ v, applyRuntimeParameterSubstitution "select '__COUNTRY__', __MIN__"
        [("COUNTRY", .string v), ("min", .number "3")] none =
        (markedOutput "select '__COUNTRY__', __MIN__" "COUNTRY" [("min", .number "3")] none
          v).map fun gs => String.ofList (text gs)) ∧
      (StructurePreserved "select '__COUNTRY__', __MIN__" "COUNTRY"
          [("min", .number "3")] none ↔
        SoundPositions "select '__COUNTRY__', __MIN__" "COUNTRY" [("min", .number "3")] none) :=
  substitution_structure_iff _ _ _ _ (by decide) ⟨"us", "select 'us', 3", by rfl⟩

/-- Inside a longer literal the added quotes close the literal. -/
theorem like_term_structure_broken :
    applyRuntimeParameterSubstitution "a like '%__TERM__%'" [("TERM", .string "x")] none =
        .ok "a like '%'x'%'" ∧
      applyRuntimeParameterSubstitution "a like '%__TERM__%'" [("TERM", .string "x or b")]
          none = .ok "a like '%'x or b'%'" ∧
      ¬ StructurePreserved "a like '%__TERM__%'" "TERM" [] none := by
  refine ⟨by rfl, by rfl, fun h => ?_⟩
  have hlex := h "x" "x or b" _ _ rfl rfl
  revert hlex
  decide

end DbtNova.RecipePlaceholder
