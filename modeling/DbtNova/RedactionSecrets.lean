import DbtNova.Redaction

/-!
# Secrets in redacted text

What a word of the form `key=value` or `key:value` with a sensitive key becomes in the
redacted text, for every text around it. The branch a word takes is chosen by characters of
the value too: a slash in it makes the word a URI, of which the sanitizer keeps everything
but the part before an at sign, the segments of sensitive keys, the fragment and the query.
-/
namespace DbtNova.Redaction
open Text

/-! ## Sensitive keys -/

/-- A key that contains one of the words, in either case. -/
def SensitiveKey (key : List Char) : Prop :=
  ∃ word ∈ textRedactKeys, word <:+: key.map Char.toLower

theorem isSensitiveTextKey_iff {key : List Char} :
    isSensitiveTextKey key = true ↔ SensitiveKey key := by
  unfold isSensitiveTextKey SensitiveKey
  rw [List.any_eq_true]
  simp only [containsText_iff]

theorem isKeyChar_of_mem {word : List Char} (hword : word ∈ textRedactKeys) {ch : Char}
    (hch : ch ∈ word) : isKeyChar ch = true := by
  have hall : textRedactKeys.all (fun word => word.all isKeyChar) = true := by decide
  exact List.all_eq_true.mp (List.all_eq_true.mp hall word hword) ch hch

theorem textRedactKeys_ne_nil {word : List Char} (hword : word ∈ textRedactKeys) :
    word ≠ [] := by
  have hall : textRedactKeys.all (fun word => !word.isEmpty) = true := by decide
  intro h
  have hempty := List.all_eq_true.mp hall word hword
  rw [h] at hempty
  cases hempty

/-- A letter of a sensitive word stands for itself or for its capital, which are both
characters of keys. -/
theorem isKeyChar_of_toLower_mem {word : List Char} (hword : word ∈ textRedactKeys) {ch : Char}
    (hch : ch.toLower ∈ word) : isKeyChar ch = true := by
  cases hupper : ch.isUpper with
  | true =>
      have halnum : ch.isAlphanum = true := by
        change ((ch.isUpper || ch.isLower) || ch.isDigit) = true
        rw [hupper]
        rfl
      unfold isKeyChar
      rw [halnum]
      rfl
  | false =>
      have hsame : ch.toLower = ch := by
        unfold Char.toLower
        split
        · rename_i hrange
          have htrue : ch.isUpper = true := decide_eq_true hrange
          rw [hupper] at htrue
          cases htrue
        · rfl
      rw [hsame] at hch
      exact isKeyChar_of_mem hword hch

theorem infix_map_dropWhile_iff {f : Char → Char} {p : Char → Bool} {word : List Char}
    (hne : word ≠ []) (h : ∀ ch, f ch ∈ word → p ch = false) (key : List Char) :
    word <:+: (key.dropWhile p).map f ↔ word <:+: key.map f := by
  induction key with
  | nil => rfl
  | cons ch key ih =>
      by_cases hch : p ch = true
      · rw [List.dropWhile_cons_of_pos hch, ih, List.map_cons, List.infix_cons_iff]
        apply (or_iff_right _).symm
        intro hprefix
        cases word with
        | nil => exact hne rfl
        | cons w word =>
            obtain ⟨rfl, _⟩ := List.cons_prefix_cons.mp hprefix
            rw [h ch List.mem_cons_self] at hch
            cases hch
      · rw [List.dropWhile_cons_of_neg hch]

theorem infix_map_rdropWhile_iff {f : Char → Char} {p : Char → Bool} {word : List Char}
    (hne : word ≠ []) (h : ∀ ch, f ch ∈ word → p ch = false) (key : List Char) :
    word <:+: (key.rdropWhile p).map f ↔ word <:+: key.map f := by
  have hreverse := infix_map_dropWhile_iff 
    (fun hnil => hne (List.reverse_eq_nil_iff.mp hnil))
    (fun ch hch => h ch (List.mem_reverse.mp hch)) key.reverse
  unfold List.rdropWhile
  rw [← List.reverse_infix, ← List.map_reverse, List.reverse_reverse, hreverse,
    List.map_reverse, List.reverse_infix]

/-- Trimming a key takes no sensitive word from it. -/
theorem isSensitiveTextKey_trimKey (key : List Char) :
    isSensitiveTextKey (trimKey key) = isSensitiveTextKey key := by
  rw [Bool.eq_iff_iff, isSensitiveTextKey_iff, isSensitiveTextKey_iff]
  unfold SensitiveKey trimKey
  apply exists_congr
  intro word
  apply and_congr_right
  intro hword
  have hkey : ∀ ch, ch.toLower ∈ word → (!isKeyChar ch) = false := by
    intro ch hch
    rw [isKeyChar_of_toLower_mem hword hch]
    rfl
  rw [infix_map_rdropWhile_iff (textRedactKeys_ne_nil hword) hkey,
    infix_map_dropWhile_iff (textRedactKeys_ne_nil hword) hkey]

/-! ## What a URI keeps -/

/-- What is relied on of the case mapping of the standard library: the letters of ASCII are
mapped as `to_ascii_lowercase` does, the other characters of ASCII stay. -/
structure Lowercases (toLowercase : List Char → List Char) : Prop where
  ascii : ∀ text : List Char, (∀ ch ∈ text, ch.toNat < 128) →
    toLowercase text = text.map Char.toLower
  mem : ∀ text : List Char, ∀ ch ∈ text, ch.toNat < 128 → ch.toLower ∈ toLowercase text

section Uri
variable (toLowercase : List Char → List Char)

/-- A path segment, cut behind its first `=`, else behind its first `:`, when a sensitive
word is in it. -/
def keptSegment (segment : List Char) : List Char :=
  if uriRedactKeys.any (fun key => containsText key (toLowercase segment)) then
    ((redactBehind '=' segment).or (redactBehind ':' segment)).getD segment
  else segment

/-- The segment behind one that is a sensitive word goes as a whole. -/
def keptSegments (behindKey : Bool) : List (List Char) → List (List Char)
  | [] => []
  | segment :: segments =>
      if behindKey then redacted :: keptSegments false segments
      else keptSegment toLowercase segment ::
        keptSegments (uriRedactKeys.contains (toLowercase segment)) segments

variable {toLowercase}

theorem redactSegment_snd (lower segment : List Char) (hasNext : Bool)
    (keys : List (List Char)) : (redactSegment lower segment hasNext keys).2 =
      if keys.any (fun key => containsText key lower) then
        (redactBehind '=' segment).or (redactBehind ':' segment)
      else none := by
  induction keys with
  | nil => rfl
  | cons key keys ih =>
      unfold redactSegment
      rw [List.any_cons]
      cases hcontains : containsText key lower with
      | false =>
          rw [Bool.false_or, ← ih]
          rfl
      | true =>
          rw [Bool.true_or, if_pos rfl]
          cases hcut : (redactBehind '=' segment).or (redactBehind ':' segment) with
          | some replacement => rfl
          | none =>
              -- no delimiter: the rest of the keys finds none either
              change (redactSegment lower segment hasNext keys).2 = none
              rw [ih, hcut]
              split <;> rfl

theorem redactBehind_eq_none {delimiter : Char} {text : List Char} (h : delimiter ∉ text) :
    redactBehind delimiter text = none := if_neg h

/-- A segment that is a sensitive word has no delimiter, so that the loop over the keys comes
to the word. -/
theorem redactSegment_fst {lower segment : List Char} {keys : List (List Char)}
    (h : lower ∈ keys → (redactBehind '=' segment).or (redactBehind ':' segment) = none)
    (hasNext : Bool) :
    (redactSegment lower segment hasNext keys).1 = (keys.contains lower && hasNext) := by
  induction keys with
  | nil => rfl
  | cons key keys ih =>
      have hrest := ih fun hmem => h (List.mem_cons_of_mem _ hmem)
      unfold redactSegment
      rw [List.contains_cons, Bool.and_or_distrib_right]
      cases hreplacement : (if containsText key lower = true then
          (redactBehind '=' segment).or (redactBehind ':' segment) else none) with
      | none => exact congrArg ((lower == key && hasNext) || ·) hrest
      | some replacement =>
          have hnot : lower ∉ key :: keys := by
            intro hmem
            rw [h hmem, ite_self] at hreplacement
            cases hreplacement
          have hkeys : keys.contains lower = false := by
            rw [List.contains_eq_mem, decide_eq_false_iff_not]
            exact fun hmem => hnot (List.mem_cons_of_mem _ hmem)
          rw [hkeys, Bool.false_and, Bool.or_false]

theorem Lowercases.no_delimiter (hlower : Lowercases toLowercase) {segment : List Char}
    (h : toLowercase segment ∈ uriRedactKeys) :
    (redactBehind '=' segment).or (redactBehind ':' segment) = none := by
  have hall : uriRedactKeys.all (fun key => !key.contains '=' && !key.contains ':') = true := by
    decide
  have hkey := List.all_eq_true.mp hall _ h
  rw [Bool.and_eq_true, Bool.not_eq_true', Bool.not_eq_true', List.contains_eq_mem,
    List.contains_eq_mem, decide_eq_false_iff_not, decide_eq_false_iff_not] at hkey
  have heq : '=' ∉ segment := fun hmem => hkey.1 (hlower.mem segment '=' hmem (by decide))
  have hcolon : ':' ∉ segment := fun hmem => hkey.2 (hlower.mem segment ':' hmem (by decide))
  rw [redactBehind_eq_none heq, redactBehind_eq_none hcolon]
  rfl

theorem Lowercases.redacted (hlower : Lowercases toLowercase) :
    toLowercase redacted = redacted.map Char.toLower := by
  apply hlower.ascii
  have hall : Redaction.redacted.all (fun ch => decide (ch.toNat < 128)) = true := by
    decide
  exact fun ch hch => of_decide_eq_true (List.all_eq_true.mp hall ch hch)

theorem Lowercases.keptSegment_redacted (hlower : Lowercases toLowercase) :
    keptSegment toLowercase Redaction.redacted = Redaction.redacted := by
  unfold keptSegment
  rw [hlower.redacted]
  decide

theorem Lowercases.redacted_not_key (hlower : Lowercases toLowercase) :
    uriRedactKeys.contains (toLowercase Redaction.redacted) = false := by
  rw [hlower.redacted]
  decide

theorem redactSegment_getD (segment : List Char) (hasNext : Bool) :
    (redactSegment (toLowercase segment) segment hasNext uriRedactKeys).2.getD segment =
      keptSegment toLowercase segment := by
  rw [redactSegment_snd]
  unfold keptSegment
  split <;> rfl

/-- The loop over the segments, which writes to the segment ahead of it. -/
theorem Lowercases.sanitizeSegments_eq (hlower : Lowercases toLowercase)
    (segment : List Char) (segments : List (List Char)) :
    sanitizeSegments toLowercase segment segments =
      keptSegments toLowercase false (segment :: segments) := by
  induction segments generalizing segment with
  | nil =>
      unfold sanitizeSegments
      rw [redactSegment_getD]
      rfl
  | cons next segments ih =>
      have hkept : ∀ behindKey, keptSegments toLowercase behindKey (next :: segments) =
          keptSegments toLowercase false ((if behindKey then Redaction.redacted else next) ::
            segments) := by
        intro behindKey
        cases behindKey with
        | false => rfl
        | true =>
            simp only [keptSegments, if_pos, hlower.keptSegment_redacted,
              hlower.redacted_not_key, Bool.false_eq_true, if_false]
      simp only [sanitizeSegments]
      rw [redactSegment_getD, redactSegment_fst hlower.no_delimiter, Bool.and_true, ih,
        ← hkept]
      rfl

/-- The text of a URI before its query and its fragment. -/
def uriBase (uri : List Char) : List Char := (uri.takeWhile (· ≠ '?')).takeWhile (· ≠ '#')

def uriAuthority (uri : List Char) : List Char :=
  (splitScheme (uriBase uri)).2.takeWhile (· ≠ '/')

def uriSegments (uri : List Char) : List (List Char) :=
  ((splitScheme (uriBase uri)).2.dropWhile (· ≠ '/')).splitOn '/'

variable (toLowercase) in
/-- The scheme, the authority behind its last at sign, the path without the segments of
sensitive words, and the mark of a query. -/
def keptUri (uri : List Char) : List Char :=
  (splitScheme (uriBase uri)).1 ++ sanitizeAuthority (uriAuthority uri) ++
    List.intercalate ['/'] (keptSegments toLowercase false (uriSegments uri)) ++
    if '?' ∈ uri then '?' :: redacted else []

theorem trimChars_of_no_space {cs : List Char} (h : ∀ ch ∈ cs, isWhitespace ch = false) :
    trimChars cs = cs := by
  have hstart : ∀ text : List Char, (∀ ch ∈ text, isWhitespace ch = false) →
      trimStartChars text = text := by
    intro text htext
    cases text with
    | nil => rfl
    | cons ch text =>
        unfold trimStartChars
        rw [List.dropWhile_cons, htext ch List.mem_cons_self, if_neg Bool.false_ne_true]
  unfold trimChars
  rw [hstart cs h, hstart cs.reverse fun ch hch => h ch (List.mem_reverse.mp hch),
    List.reverse_reverse]

theorem keptSegment_nil : keptSegment toLowercase [] = [] := by
  unfold keptSegment
  split <;> rfl

theorem Lowercases.sanitizeUriPath_eq (hlower : Lowercases toLowercase) (path : List Char) :
    sanitizeUriPath toLowercase path =
      List.intercalate ['/'] (keptSegments toLowercase false (path.splitOn '/')) := by
  unfold sanitizeUriPath
  by_cases hpath : path = []
  · rw [if_pos hpath, hpath, List.splitOn_nil]
    unfold keptSegments keptSegments
    rw [if_neg Bool.false_ne_true, keptSegment_nil]
    rfl
  · rw [if_neg hpath]
    cases hsplit : path.splitOn '/' with
    | nil => exact absurd hsplit (List.splitOn_ne_nil _ _)
    | cons segment segments => rw [← hlower.sanitizeSegments_eq]

theorem Lowercases.sanitizeUri_trimChars (hlower : Lowercases toLowercase) (uri : List Char) :
    sanitizeUri toLowercase uri = keptUri toLowercase (trimChars uri) := by
  unfold sanitizeUri
  by_cases huri : trimChars uri = []
  · rw [if_pos huri, huri]
    unfold keptUri uriSegments
    change [] = List.intercalate ['/'] (keptSegments toLowercase false [[]]) ++ []
    unfold keptSegments keptSegments
    rw [if_neg Bool.false_ne_true, keptSegment_nil]
    rfl
  · rw [if_neg huri]
    unfold keptUri uriSegments
    rw [← hlower.sanitizeUriPath_eq]
    rfl

theorem Lowercases.sanitizeUri_eq (hlower : Lowercases toLowercase) {uri : List Char}
    (hspace : ∀ ch ∈ uri, isWhitespace ch = false) :
    sanitizeUri toLowercase uri = keptUri toLowercase uri := by
  rw [hlower.sanitizeUri_trimChars, trimChars_of_no_space hspace]

/-- A URI that has nothing the sanitizer cuts or replaces. -/
structure PlainUri (toLowercase : List Char → List Char) (uri : List Char) : Prop where
  no_query : '?' ∉ uri
  no_fragment : '#' ∉ uri
  no_user : '@' ∉ uriAuthority uri
  no_key : ∀ segment ∈ uriSegments uri, ∀ key ∈ uriRedactKeys,
    ¬ key <:+: toLowercase segment

theorem keptSegments_of_no_key {segments : List (List Char)}
    (h : ∀ segment ∈ segments, ∀ key ∈ uriRedactKeys, ¬ key <:+: toLowercase segment) :
    keptSegments toLowercase false segments = segments := by
  induction segments with
  | nil => rfl
  | cons segment segments ih =>
      have hsegment := h segment List.mem_cons_self
      have hany : uriRedactKeys.any (fun key => containsText key (toLowercase segment)) =
          false := by
        rw [List.any_eq_false]
        intro key hkey hcontains
        exact hsegment key hkey (containsText_iff.mp hcontains)
      have hkey : uriRedactKeys.contains (toLowercase segment) = false := by
        rw [List.contains_eq_mem, decide_eq_false_iff_not]
        exact fun hmem => hsegment _ hmem List.infix_rfl
      unfold keptSegments
      rw [if_neg Bool.false_ne_true, hkey, ih fun s hs => h s (List.mem_cons_of_mem _ hs)]
      unfold keptSegment
      rw [hany, if_neg Bool.false_ne_true]

theorem takeWhile_ne_of_not_mem {ch : Char} {text : List Char} (h : ch ∉ text) :
    text.takeWhile (· ≠ ch) = text := by
  rw [List.takeWhile_eq_self_iff]
  intro c hc
  exact decide_eq_true fun heq => h (heq ▸ hc)

theorem splitScheme_append (base : List Char) :
    (splitScheme base).1 ++ (splitScheme base).2 = base := by
  unfold splitScheme
  cases findText "://".toList base with
  | none => rfl
  | some pos => exact List.take_append_drop _ _

/-- The sanitizer leaves a plain URI as it is. -/
theorem PlainUri.keptUri_eq {uri : List Char} (h : PlainUri toLowercase uri) :
    keptUri toLowercase uri = uri := by
  have hbase : uriBase uri = uri := by
    unfold uriBase
    rw [takeWhile_ne_of_not_mem h.no_query, takeWhile_ne_of_not_mem h.no_fragment]
  unfold keptUri sanitizeAuthority
  rw [if_neg h.no_user, if_neg h.no_query, keptSegments_of_no_key h.no_key, List.append_nil]
  unfold uriSegments uriAuthority
  rw [List.intercalate_splitOn, List.append_assoc, List.takeWhile_append_dropWhile,
    splitScheme_append, hbase]

end Uri

/-! ## What a word keeps -/

/-- A key and a value with a delimiter between them, where the key is a sensitive one. -/
structure IsSecret (core key : List Char) (delimiter : Char) (value : List Char) : Prop where
  core_eq : core = key ++ delimiter :: value
  delimiter_eq : delimiter = '=' ∨ delimiter = ':'
  key_free : delimiter ∉ key
  sensitive : SensitiveKey key
  value_ne : value ≠ []
  not_redacted : value ≠ redacted

/-- The text up to the first `=` when the key before it is sensitive, else up to the first
`:`. -/
def keptKey (core : List Char) : List Char :=
  if '=' ∈ core ∧ isSensitiveTextKey (core.takeWhile (· ≠ '=')) then
    core.takeWhile (· ≠ '=') ++ ['=']
  else core.takeWhile (· ≠ ':') ++ [':']

section Words
variable {toLowercase : List Char → List Char}

variable (toLowercase) in
/-- What is left of a word that is a key and a value. -/
def keptCore (core : List Char) : List Char :=
  if '/' ∈ core then keptUri toLowercase core else keptKey core ++ redacted

theorem takeWhile_append_cons {delimiter : Char} {key value : List Char}
    (h : delimiter ∉ key) : (key ++ delimiter :: value).takeWhile (· ≠ delimiter) = key := by
  rw [List.takeWhile_append_of_pos, List.takeWhile_cons_of_neg, List.append_nil]
  · exact fun hne => of_decide_eq_true hne rfl
  · exact fun ch hch => decide_eq_true fun heq => h (heq ▸ hch)

theorem redactKeyValueAt_eq (delimiter : Char) (core : List Char) :
    redactKeyValueAt delimiter core =
      if delimiter ∈ core ∧ isSensitiveTextKey (core.takeWhile (· ≠ delimiter)) then
        some (core.takeWhile (· ≠ delimiter) ++ [delimiter] ++ redacted)
      else none := by
  unfold redactKeyValueAt redactBehind
  rw [isSensitiveTextKey_trimKey]
  by_cases hmem : delimiter ∈ core
  · simp only [hmem, true_and, if_true, List.append_assoc, List.singleton_append]
  · simp only [hmem, false_and, if_false, ite_self]

/-- A word with a sensitive key is cut at one of its delimiters. -/
theorem IsSecret.redactSensitiveKeyValue_eq {core key value : List Char} {delimiter : Char}
    (h : IsSecret core key delimiter value) :
    redactSensitiveKeyValue core = some (keptKey core ++ redacted) := by
  have hmem : delimiter ∈ core := by
    rw [h.core_eq]
    exact List.mem_append_right _ List.mem_cons_self
  have hkey : core.takeWhile (· ≠ delimiter) = key := by
    rw [h.core_eq]
    exact takeWhile_append_cons h.key_free
  have hsensitive : isSensitiveTextKey (core.takeWhile (· ≠ delimiter)) = true := by
    rw [hkey]
    exact isSensitiveTextKey_iff.mpr h.sensitive
  unfold redactSensitiveKeyValue keptKey
  rw [redactKeyValueAt_eq, redactKeyValueAt_eq]
  by_cases hequals : '=' ∈ core ∧ isSensitiveTextKey (core.takeWhile (· ≠ '='))
  · rw [if_pos hequals, if_pos hequals]
    rfl
  · rw [if_neg hequals, if_neg hequals]
    cases h.delimiter_eq with
    | inl heq =>
        rw [heq] at hmem hsensitive
        exact absurd ⟨hmem, hsensitive⟩ hequals
    | inr heq =>
        rw [heq] at hmem hsensitive
        rw [if_pos ⟨hmem, hsensitive⟩]
        rfl

theorem containsText_eq_false {text pattern : List Char} (h : '/' ∉ text) (hmem : '/' ∈ pattern) :
    containsText pattern text = false := by
  cases hcontains : containsText pattern text with
  | false => rfl
  | true => exact absurd ((containsText_iff.mp hcontains).subset hmem) h

theorem redactCore_of_slash {core : List Char} (h : '/' ∈ core) :
    redactCore toLowercase core = sanitizeUri toLowercase core := by
  have hcontains : core.contains '/' = true := by
    rw [List.contains_eq_mem]
    exact decide_eq_true h
  unfold redactCore
  rw [hcontains, Bool.or_true, if_pos rfl]

theorem redactCore_of_no_slash {core kept : List Char} (h : '/' ∉ core)
    (hkept : redactSensitiveKeyValue core = some kept) :
    redactCore toLowercase core = kept := by
  have hcontains : core.contains '/' = false := by
    rw [List.contains_eq_mem]
    exact decide_eq_false h
  unfold redactCore
  rw [containsText_eq_false h (by decide), containsText_eq_false h (by decide), hcontains, hkept]
  rfl

theorem IsSecret.redactCore_eq (hlower : Lowercases toLowercase) {core key value : List Char}
    {delimiter : Char} (h : IsSecret core key delimiter value)
    (hspace : ∀ ch ∈ core, isWhitespace ch = false) :
    redactCore toLowercase core = keptCore toLowercase core := by
  unfold keptCore
  by_cases hslash : '/' ∈ core
  · rw [if_pos hslash, redactCore_of_slash hslash]
    exact hlower.sanitizeUri_eq hspace
  · rw [if_neg hslash]
    exact redactCore_of_no_slash hslash h.redactSensitiveKeyValue_eq

theorem coreOf_subtext (word : List Char) : coreOf word <:+: word := by
  unfold coreOf
  exact (List.rdropWhile_prefix _ _).isInfix.trans (List.dropWhile_suffix _).isInfix

theorem IsSecret.core_ne_nil {core key value : List Char} {delimiter : Char}
    (h : IsSecret core key delimiter value) : core ≠ [] := by
  rw [h.core_eq]
  exact List.append_ne_nil_of_right_ne_nil _ (List.cons_ne_nil _ _)

theorem IsSecret.value_suffix {core key value : List Char} {delimiter : Char}
    (h : IsSecret core key delimiter value) : value <:+ core := by
  rw [h.core_eq]
  exact (List.suffix_cons _ _).trans (List.suffix_append _ _)

theorem IsSecret.redactSensitiveToken_eq (hlower : Lowercases toLowercase)
    {word key value : List Char} {delimiter : Char}
    (h : IsSecret (coreOf word) key delimiter value)
    (hspace : ∀ ch ∈ word, isWhitespace ch = false) :
    redactSensitiveToken toLowercase word =
      leadingWrappers word ++ keptCore toLowercase (coreOf word) ++ trailingWrappers word := by
  unfold redactSensitiveToken
  rw [if_neg h.core_ne_nil, h.redactCore_eq hlower fun ch hch =>
    hspace ch ((coreOf_subtext word).subset hch)]

theorem wrappers_append (word : List Char) :
    leadingWrappers word ++ coreOf word ++ trailingWrappers word = word := by
  unfold leadingWrappers coreOf trailingWrappers
  rw [List.append_assoc, List.rdropWhile_append_rtakeWhile, List.takeWhile_append_dropWhile]

/-- A word that is taken for a plain URI is printed as it is, whatever its key says. -/
theorem PlainUri.redactSensitiveToken_eq (hlower : Lowercases toLowercase) {word : List Char}
    (h : PlainUri toLowercase (coreOf word)) (hslash : '/' ∈ coreOf word)
    (hspace : ∀ ch ∈ word, isWhitespace ch = false) :
    redactSensitiveToken toLowercase word = word := by
  have hcore : ∀ ch ∈ coreOf word, isWhitespace ch = false :=
    fun ch hch => hspace ch ((coreOf_subtext word).subset hch)
  unfold redactSensitiveToken
  rw [if_neg (List.ne_nil_of_mem hslash), redactCore_of_slash hslash,
    hlower.sanitizeUri_eq hcore, h.keptUri_eq, wrappers_append]

end Words

/-! ## Words in a text -/

/-- A word of a text, with white space or nothing around it. -/
structure IsWord (text before word after : List Char) : Prop where
  text_eq : text = before ++ word ++ after
  ne_nil : word ≠ []
  no_space : ∀ ch ∈ word, isWhitespace ch = false
  space_before : ∀ ch ∈ before.getLast?, isWhitespace ch = true
  space_after : ∀ ch ∈ after.head?, isWhitespace ch = true

def isWord (before word after : List Char) : Bool :=
  !word.isEmpty && word.all (fun ch => !isWhitespace ch) &&
    before.getLast?.all isWhitespace && after.head?.all isWhitespace

theorem IsWord.of_isWord {before word after : List Char} (h : isWord before word after = true) :
    IsWord (before ++ word ++ after) before word after := by
  unfold isWord at h
  rw [Bool.and_eq_true, Bool.and_eq_true, Bool.and_eq_true, Bool.not_eq_true',
    List.isEmpty_eq_false_iff, List.all_eq_true, Option.all_eq_true, Option.all_eq_true] at h
  refine ⟨rfl, h.1.1.1, fun ch hch => ?_, fun ch => h.1.2 ch, fun ch => h.2 ch⟩
  exact (Bool.not_eq_true' _).mp (h.1.1.2 ch hch)

/-- What stands before a word in its line. -/
def lineStart (before : List Char) : List Char := before.rtakeWhile (· ≠ '\n')

def lineEnd (after : List Char) : List Char := after.takeWhile (· ≠ '\n')

def lineAround (before word after : List Char) : List Char :=
  lineStart before ++ word ++ lineEnd after

section Text
variable (toLowercase : List Char → List Char)

/-- The part of the redacted text that stands for a word. On a line with an authorization
this is what is left of the word before the cut, and the mark. -/
def redactedPart (before word after : List Char) : List Char :=
  match authorizationCut (lineAround before word after) with
  | some cut =>
      if (lineStart before).length + word.length ≤ cut then word
      else word.take (cut - (lineStart before).length) ++ redacted
  | none =>
      if isBearerLine (lineAround before word after) then redacted
      else redactSensitiveToken toLowercase word

/-- The value is no part of what is left of its word. -/
def Hidden (before word after value : List Char) : Prop :=
  match authorizationCut (lineAround before word after) with
  | some cut =>
      cut < (lineStart before).length + word.length ∧
        ¬ value <:+: word.take (cut - (lineStart before).length) ++ redacted
  | none =>
      if isBearerLine (lineAround before word after) then ¬ value <:+: redacted
      else ¬ value <:+:
        leadingWrappers word ++ keptCore toLowercase (coreOf word) ++ trailingWrappers word

variable {toLowercase}

theorem redactWords_append_left {start : List Char}
    (h : ∀ ch ∈ start.getLast?, isWhitespace ch = true) : ∃ front, ∀ rest,
      redactWords toLowercase [] (start ++ rest) = front ++ redactWords toLowercase [] rest := by
  cases List.eq_nil_or_concat' start with
  | inl hnil =>
      rw [hnil]
      exact ⟨[], fun rest => rfl⟩
  | inr hconcat =>
      obtain ⟨line, w, rfl⟩ := hconcat
      have hw : isWhitespace w = true := h w List.getLast?_concat
      refine ⟨redactWords toLowercase [] line ++ [w], fun rest => ?_⟩
      rw [List.append_assoc, List.singleton_append, redactWords_append_space hw,
        List.append_assoc, List.singleton_append]

theorem redactWords_append_right {word rest : List Char} (hne : word ≠ [])
    (hword : ∀ ch ∈ word, isWhitespace ch = false)
    (h : ∀ ch ∈ rest.head?, isWhitespace ch = true) : ∃ back,
      redactWords toLowercase [] (word ++ rest) =
        redactSensitiveToken toLowercase word ++ back := by
  have hflush : redactWords toLowercase [] word = redactSensitiveToken toLowercase word := by
    rw [redactWords_of_no_space [] hword, List.nil_append]
    exact if_neg hne
  cases rest with
  | nil => exact ⟨[], by rw [List.append_nil, List.append_nil, hflush]⟩
  | cons w rest =>
      refine ⟨w :: redactWords toLowercase [] rest, ?_⟩
      rw [redactWords_append_space (h w rfl), hflush]

theorem lineStart_append (before : List Char) :
    before = lineStart before ∨ ∃ text, before = text ++ '\n' :: lineStart before := by
  have happend : before.rdropWhile (· ≠ '\n') ++ lineStart before = before :=
    List.rdropWhile_append_rtakeWhile
  cases List.eq_nil_or_concat' (before.rdropWhile (· ≠ '\n')) with
  | inl hnil =>
      rw [hnil, List.nil_append] at happend
      exact Or.inl happend.symm
  | inr hconcat =>
      obtain ⟨text, last, hlast⟩ := hconcat
      have hne : before.rdropWhile (· ≠ '\n') ≠ [] := by
        rw [hlast]
        exact List.append_ne_nil_of_right_ne_nil _ (List.cons_ne_nil _ _)
      have hnewline := List.rdropWhile_last_not (· ≠ '\n') before hne
      simp only [hlast, List.getLast_append_singleton, decide_eq_true_eq, not_not] at hnewline
      rw [hlast, hnewline, List.append_assoc, List.singleton_append] at happend
      exact Or.inr ⟨text, happend.symm⟩

theorem lineEnd_append (after : List Char) :
    after = lineEnd after ∨ ∃ text, after = lineEnd after ++ '\n' :: text := by
  have happend : lineEnd after ++ after.dropWhile (· ≠ '\n') = after :=
    List.takeWhile_append_dropWhile
  cases hdrop : after.dropWhile (· ≠ '\n') with
  | nil =>
      rw [hdrop, List.append_nil] at happend
      exact Or.inl happend.symm
  | cons first text =>
      have hne : after.dropWhile (· ≠ '\n') ≠ [] := by
        rw [hdrop]
        exact List.cons_ne_nil _ _
      have hnewline := List.head_dropWhile_not (· ≠ '\n') hne
      simp only [hdrop, List.head_cons, decide_eq_false_iff_not, not_not] at hnewline
      rw [hdrop, hnewline] at happend
      exact Or.inr ⟨text, happend.symm⟩

theorem newline_not_mem_lineStart (before : List Char) : '\n' ∉ lineStart before := by
  intro h
  have hne := List.mem_rtakeWhile_imp h
  exact of_decide_eq_true hne rfl

theorem newline_not_mem_lineEnd (after : List Char) : '\n' ∉ lineEnd after := by
  intro h
  have hne := List.mem_takeWhile_imp h
  exact of_decide_eq_true hne rfl

theorem space_lineStart {before : List Char}
    (h : ∀ ch ∈ before.getLast?, isWhitespace ch = true) :
    ∀ ch ∈ (lineStart before).getLast?, isWhitespace ch = true := by
  intro ch hch
  apply h
  have happend : before.rdropWhile (· ≠ '\n') ++ lineStart before = before :=
    List.rdropWhile_append_rtakeWhile
  rw [← happend, List.getLast?_append, Option.mem_def.mp hch]
  rfl

theorem space_lineEnd {after : List Char} (h : ∀ ch ∈ after.head?, isWhitespace ch = true) :
    ∀ ch ∈ (lineEnd after).head?, isWhitespace ch = true := by
  intro ch hch
  apply h
  have happend : lineEnd after ++ after.dropWhile (· ≠ '\n') = after :=
    List.takeWhile_append_dropWhile
  rw [← happend, List.head?_append, Option.mem_def.mp hch]
  rfl

theorem redactSensitiveText_lineStart (before : List Char) : ∃ front, ∀ rest,
    redactSensitiveText toLowercase (before ++ rest) =
      front ++ redactSensitiveText toLowercase (lineStart before ++ rest) := by
  cases lineStart_append before with
  | inl heq =>
      refine ⟨[], fun rest => ?_⟩
      rw [← heq, List.nil_append]
  | inr hcons =>
      obtain ⟨text, heq⟩ := hcons
      refine ⟨redactSensitiveText toLowercase text ++ ['\n'], fun rest => ?_⟩
      nth_rewrite 1 [heq]
      rw [List.append_assoc, List.cons_append, redactSensitiveText_append, List.append_assoc,
        List.singleton_append]

theorem redactSensitiveText_lineEnd (after : List Char) : ∃ back, ∀ text,
    redactSensitiveText toLowercase (text ++ after) =
      redactSensitiveText toLowercase (text ++ lineEnd after) ++ back := by
  cases lineEnd_append after with
  | inl heq =>
      refine ⟨[], fun text => ?_⟩
      rw [← heq, List.append_nil]
  | inr hcons =>
      obtain ⟨rest, heq⟩ := hcons
      refine ⟨'\n' :: redactSensitiveText toLowercase rest, fun text => ?_⟩
      nth_rewrite 1 [heq]
      rw [← List.append_assoc, redactSensitiveText_append]

/-- The line of a word is redacted apart from the lines around it. -/
theorem redactSensitiveText_around {word : List Char} (hword : '\n' ∉ word)
    (before after : List Char) : ∃ front back,
      redactSensitiveText toLowercase (before ++ word ++ after) =
        front ++ redactSensitiveLine toLowercase (lineAround before word after) ++ back := by
  have hline : '\n' ∉ lineAround before word after := by
    unfold lineAround
    rw [List.mem_append, List.mem_append, not_or, not_or]
    exact ⟨⟨newline_not_mem_lineStart before, hword⟩, newline_not_mem_lineEnd after⟩
  obtain ⟨front, hfront⟩ := @redactSensitiveText_lineStart toLowercase before
  obtain ⟨back, hback⟩ := @redactSensitiveText_lineEnd toLowercase after
  refine ⟨front, back, ?_⟩
  rw [List.append_assoc, hfront, ← List.append_assoc, hback, ← List.append_assoc,
    ← redactSensitiveText_of_line toLowercase hline]
  rfl

theorem redactSensitiveLine_around {before word after : List Char} (hne : word ≠ [])
    (hword : ∀ ch ∈ word, isWhitespace ch = false)
    (hbefore : ∀ ch ∈ (lineStart before).getLast?, isWhitespace ch = true)
    (hafter : ∀ ch ∈ (lineEnd after).head?, isWhitespace ch = true) : ∃ front back,
      redactSensitiveLine toLowercase (lineAround before word after) =
        front ++ redactedPart toLowercase before word after ++ back := by
  unfold redactSensitiveLine redactedPart
  cases hcut : authorizationCut (lineAround before word after) with
  | some cut =>
      unfold lineAround
      by_cases hle : (lineStart before).length + word.length ≤ cut
      · refine ⟨lineStart before,
          (lineEnd after).take (cut - ((lineStart before).length + word.length)) ++ redacted, ?_⟩
        simp only [if_pos hle]
        rw [← List.length_append] at hle
        rw [List.take_append, List.take_of_length_le hle, List.length_append, List.append_assoc]
      · refine ⟨(lineStart before).take cut, [], ?_⟩
        have hend : cut - (lineStart before ++ word).length = 0 := by
          rw [List.length_append]
          omega
        simp only [if_neg hle]
        rw [List.take_append, hend, List.take_zero, List.append_nil, List.take_append,
          List.append_nil, List.append_assoc]
  | none =>
      cases hbearer : isBearerLine (lineAround before word after) with
      | true => exact ⟨_, [], (List.append_nil _).symm⟩
      | false =>
          obtain ⟨front, hfront⟩ := @redactWords_append_left toLowercase _ hbefore
          obtain ⟨back, hback⟩ := @redactWords_append_right toLowercase _ _ hne hword hafter
          refine ⟨front, back, ?_⟩
          change redactWords toLowercase [] (lineAround before word after) = _
          unfold lineAround
          rw [List.append_assoc, hfront, hback, List.append_assoc]
          rfl

theorem IsSecret.hidden_iff (hlower : Lowercases toLowercase) {word key value : List Char}
    {delimiter : Char} (h : IsSecret (coreOf word) key delimiter value)
    (hspace : ∀ ch ∈ word, isWhitespace ch = false) (before after : List Char) :
    ¬ value <:+: redactedPart toLowercase before word after ↔
      Hidden toLowercase before word after value := by
  unfold redactedPart Hidden
  cases authorizationCut (lineAround before word after) with
  | some cut =>
      by_cases hle : (lineStart before).length + word.length ≤ cut
      · -- the word stands before the cut and is printed with its value
        have hvalue : value <:+: word := h.value_suffix.isInfix.trans (coreOf_subtext word)
        simp only [if_pos hle, hvalue, not_true, false_iff, not_and]
        exact fun hlt => absurd hle (Nat.not_le.mpr hlt)
      · simp only [if_neg hle, Nat.not_le.mp hle, true_and]
  | none =>
      cases isBearerLine (lineAround before word after) with
      | true => exact Iff.rfl
      | false =>
          simp only [Bool.false_eq_true, if_false]
          rw [h.redactSensitiveToken_eq hlower hspace]

end Text

theorem lowercases_map_toLower : Lowercases (List.map Char.toLower) where
  ascii := fun _ _ => rfl
  mem := fun _ _ hch _ => List.mem_map_of_mem hch

end DbtNova.Redaction
