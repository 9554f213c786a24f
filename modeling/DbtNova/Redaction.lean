import DbtNova.Text

/-!
# Redaction of sensitive text

`redact_sensitive_text` of `utils/mod.rs` on lists of characters. A line that names an
authorization or a bearer token is cut; on the other lines each word is redacted on its own,
as a URI when a slash is in it, else as a key with a value. The Unicode case mapping of the
standard library is a parameter.
-/
namespace DbtNova.Redaction
open Text

theorem intercalate_append {sep : List Char} {texts others : List (List Char)} (h : texts ≠ [])
    (ho : others ≠ []) : List.intercalate sep (texts ++ others) =
      List.intercalate sep texts ++ sep ++ List.intercalate sep others := by
  induction texts with
  | nil => exact absurd rfl h
  | cons text texts ih =>
      cases texts with
      | nil =>
          rw [List.singleton_append, List.intercalate_cons_of_ne_nil ho,
            List.intercalate_singleton]
      | cons next texts =>
          have hne : (next :: texts) ++ others ≠ [] := List.cons_ne_nil _ _
          rw [List.cons_append, List.intercalate_cons_of_ne_nil hne,
            ih (List.cons_ne_nil _ _), List.intercalate_cons_cons]
          simp only [List.append_assoc]

def uriRedactKeys : List (List Char) :=
  ["token", "access_token", "apikey", "api_key", "secret", "password", "passwd", "pwd"].map
    String.toList

def textRedactKeys : List (List Char) :=
  ["token", "access_token", "apikey", "api_key", "secret", "password", "passwd", "pwd",
    "credential", "signature", "authorization", "auth", "session", "jwt"].map String.toList

def redacted : List Char := "[REDACTED]".toList

/-- The place of the first occurrence. -/
def findText (pattern : List Char) : List Char → Option ℕ
  | [] => if pattern.isEmpty then some 0 else none
  | c :: cs =>
      if pattern.isPrefixOf (c :: cs) then some 0 else (findText pattern cs).map (· + 1)

def containsText (pattern text : List Char) : Bool := (findText pattern text).isSome

theorem containsText_iff {pattern text : List Char} :
    containsText pattern text = true ↔ pattern <:+: text := by
  unfold containsText
  induction text with
  | nil =>
      unfold findText
      cases pattern with
      | nil => exact iff_of_true rfl List.infix_rfl
      | cons c cs =>
          apply iff_of_false Bool.false_ne_true
          intro h
          exact List.cons_ne_nil _ _ (List.infix_nil.mp h)
  | cons c cs ih =>
      unfold findText
      rw [List.infix_cons_iff, ← List.isPrefixOf_iff_prefix]
      by_cases h : pattern.isPrefixOf (c :: cs) = true
      · rw [if_pos h]
        exact iff_of_true rfl (Or.inl h)
      · rw [if_neg h, Option.isSome_map, ih]
        exact ⟨Or.inr, fun hor => hor.resolve_left h⟩

/-! ## URIs -/

section Uri
variable (toLowercase : List Char → List Char)

/-- The text up to a delimiter that is in it, and the mark. -/
def redactBehind (delimiter : Char) (text : List Char) : Option (List Char) :=
  if delimiter ∈ text then some (text.takeWhile (· ≠ delimiter) ++ delimiter :: redacted)
  else none

/-- Whether the next segment is to be redacted, and what replaces this one. -/
def redactSegment (lower segment : List Char) (hasNext : Bool) :
    List (List Char) → Bool × Option (List Char)
  | [] => (false, none)
  | key :: keys =>
      let next := lower == key && hasNext
      let replacement :=
        if containsText key lower then (redactBehind '=' segment).or (redactBehind ':' segment)
        else none
      match replacement with
      | some replacement => (next, some replacement)
      | none =>
          let others := redactSegment lower segment hasNext keys
          (next || others.1, others.2)

def sanitizeSegments (segment : List Char) : List (List Char) → List (List Char)
  | [] => [(redactSegment (toLowercase segment) segment false uriRedactKeys).2.getD segment]
  | next :: segments =>
      let found := redactSegment (toLowercase segment) segment true uriRedactKeys
      found.2.getD segment :: sanitizeSegments (if found.1 then redacted else next) segments

def sanitizeUriPath (path : List Char) : List Char :=
  if path = [] then []
  else
    match path.splitOn '/' with
    | [] => []
    | segment :: segments =>
        List.intercalate ['/'] (sanitizeSegments toLowercase segment segments)

/-- Scheme and rest of a URI. -/
def splitScheme (base : List Char) : List Char × List Char :=
  match findText "://".toList base with
  | some pos => (base.take (pos + 3), base.drop (pos + 3))
  | none => ([], base)

def sanitizeAuthority (authority : List Char) : List Char :=
  if '@' ∈ authority then redacted ++ '@' :: authority.rtakeWhile (· ≠ '@') else authority

def sanitizeUri (uri : List Char) : List Char :=
  let trimmed := trimChars uri
  if trimmed = [] then [] else
  let base := (trimmed.takeWhile (· ≠ '?')).takeWhile (· ≠ '#')
  let (scheme, rest) := splitScheme base
  let authority := sanitizeAuthority (rest.takeWhile (· ≠ '/'))
  let path := sanitizeUriPath toLowercase (rest.dropWhile (· ≠ '/'))
  let query := if '?' ∈ trimmed then '?' :: redacted else []
  scheme ++ authority ++ path ++ query

end Uri

/-! ## Words -/

def isLeadingWrapper (ch : Char) : Bool := ch ∈ ['"', '\'', '(', '[', '\x7b', '<']

def isTrailingWrapper (ch : Char) : Bool :=
  ch ∈ ['"', '\'', ')', ']', '\x7d', '>', ',', '.', ';']

def leadingWrappers (token : List Char) : List Char := token.takeWhile isLeadingWrapper

/-- The word without its wrappers. -/
def coreOf (token : List Char) : List Char :=
  (token.dropWhile isLeadingWrapper).rdropWhile isTrailingWrapper

def trailingWrappers (token : List Char) : List Char :=
  (token.dropWhile isLeadingWrapper).rtakeWhile isTrailingWrapper

def isKeyChar (ch : Char) : Bool := ch.isAlphanum || ch == '_' || ch == '-'

def trimKey (key : List Char) : List Char :=
  (key.dropWhile fun ch => !isKeyChar ch).rdropWhile fun ch => !isKeyChar ch

def isSensitiveTextKey (key : List Char) : Bool :=
  textRedactKeys.any fun sensitive => containsText sensitive (key.map Char.toLower)

def redactKeyValueAt (delimiter : Char) (token : List Char) : Option (List Char) :=
  if isSensitiveTextKey (trimKey (token.takeWhile (· ≠ delimiter))) then
    redactBehind delimiter token
  else none

def redactSensitiveKeyValue (token : List Char) : Option (List Char) :=
  (redactKeyValueAt '=' token).or (redactKeyValueAt ':' token)

section Text
variable (toLowercase : List Char → List Char)

def redactCore (core : List Char) : List Char :=
  if containsText "://".toList core || containsText ":/".toList core || core.contains '/' then
    sanitizeUri toLowercase core
  else
    match redactSensitiveKeyValue core with
    | some redacted => redacted
    | none => if '?' ∈ core then sanitizeUri toLowercase core else core

def redactSensitiveToken (token : List Char) : List Char :=
  if coreOf token = [] then token
  else leadingWrappers token ++ redactCore toLowercase (coreOf token) ++ trailingWrappers token

/-! ## Lines -/

/-- The number of characters that a line keeps behind which an authorization is named. -/
def authorizationCut (line : List Char) : Option ℕ :=
  (findText "authorization".toList (line.map Char.toLower)).bind fun start =>
    ((line.drop start).findIdx? fun ch => ch == ':' || ch == '=').map (start + · + 1)

def startLength (line : List Char) : ℕ := (line.takeWhile isWhitespace).length

def isBearerLine (line : List Char) : Bool :=
  "bearer ".toList.isPrefixOf ((line.map Char.toLower).drop (startLength line))

/-- The word that ends, when there is one. -/
def flushToken (token : List Char) : List Char :=
  if token = [] then [] else redactSensitiveToken toLowercase token

/-- The loop over a line, with the characters of the word it is in. -/
def redactWords (token : List Char) : List Char → List Char
  | [] => flushToken toLowercase token
  | ch :: line =>
      if isWhitespace ch then flushToken toLowercase token ++ ch :: redactWords [] line
      else redactWords (token ++ [ch]) line

section Words
variable {toLowercase}

theorem redactWords_cons_space {ch : Char} (hch : isWhitespace ch = true)
    (token line : List Char) : redactWords toLowercase token (ch :: line) =
      flushToken toLowercase token ++ ch :: redactWords toLowercase [] line := by
  rw [redactWords, if_pos hch]

theorem redactWords_cons_char {ch : Char} (hch : isWhitespace ch = false)
    (token line : List Char) : redactWords toLowercase token (ch :: line) =
      redactWords toLowercase (token ++ [ch]) line := by
  rw [redactWords, hch, if_neg Bool.false_ne_true]

/-- The loop starts afresh behind white space. -/
theorem redactWords_append_space {w : Char} (hw : isWhitespace w = true)
    (line rest token : List Char) : redactWords toLowercase token (line ++ w :: rest) =
      redactWords toLowercase token line ++ w :: redactWords toLowercase [] rest := by
  induction line generalizing token with
  | nil =>
      rw [List.nil_append, redactWords_cons_space hw]
      rfl
  | cons ch line ih =>
      rw [List.cons_append]
      cases hch : isWhitespace ch with
      | true =>
          rw [redactWords_cons_space hch, redactWords_cons_space hch, ih [], List.append_assoc,
            List.cons_append]
      | false => rw [redactWords_cons_char hch, redactWords_cons_char hch, ih (token ++ [ch])]

theorem redactWords_of_no_space {word : List Char} (token : List Char)
    (h : ∀ ch ∈ word, isWhitespace ch = false) :
    redactWords toLowercase token word = flushToken toLowercase (token ++ word) := by
  induction word generalizing token with
  | nil => rw [redactWords, List.append_nil]
  | cons ch word ih =>
      rw [redactWords_cons_char (h ch List.mem_cons_self),
        ih (token ++ [ch]) fun c hc => h c (List.mem_cons_of_mem _ hc), List.append_assoc,
        List.singleton_append]

end Words

def redactSensitiveLine (line : List Char) : List Char :=
  match authorizationCut line with
  | some cut => line.take cut ++ redacted
  | none =>
      if isBearerLine line then line.take (startLength line) ++ "Bearer ".toList ++ redacted
      else redactWords toLowercase [] line

def redactSensitiveText (text : List Char) : List Char :=
  List.intercalate ['\n'] ((text.splitOn '\n').map (redactSensitiveLine toLowercase))

theorem redactSensitiveText_of_line {line : List Char} (h : '\n' ∉ line) :
    redactSensitiveText toLowercase line = redactSensitiveLine toLowercase line := by
  unfold redactSensitiveText
  rw [List.splitOn_eq_singleton h, List.map_singleton, List.intercalate_singleton]

/-- The lines are redacted one by one. -/
theorem redactSensitiveText_append (text rest : List Char) :
    redactSensitiveText toLowercase (text ++ '\n' :: rest) =
      redactSensitiveText toLowercase text ++ '\n' :: redactSensitiveText toLowercase rest := by
  unfold redactSensitiveText
  rw [List.splitOn_append_cons_self, List.map_append, intercalate_append]
  · rw [List.append_assoc, List.singleton_append]
  · exact fun h => List.splitOn_ne_nil _ _ (List.map_eq_nil_iff.mp h)
  · exact fun h => List.splitOn_ne_nil _ _ (List.map_eq_nil_iff.mp h)

end Text

end DbtNova.Redaction
