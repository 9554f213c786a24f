import DbtNova.RedactionSecrets

/-!
# Sanitized URIs

`sanitize_uri` on a URI that is given by its parts. What is to be hidden is stated apart from
the loop over the path segments: the loop overwrites the segment behind a sensitive word, so
that it no longer sees whether that segment was such a word itself, and it looks for a `=`
before it looks for a `:`.
-/
namespace DbtNova.Redaction
open Text

/-! ## The parts of a URI -/

def userPart : Option (List Char) → List Char
  | some user => user ++ ['@']
  | none => []

def markedPart (mark : Char) : Option (List Char) → List Char
  | some part => mark :: part
  | none => []

def pathText (segments : List (List Char)) : List Char := segments.flatMap ('/' :: ·)

/-- The parts of `scheme://authority/path?query#fragment`, the authority being a host behind
the last at sign and the text before that sign. -/
structure Uri where
  scheme : List Char
  user : Option (List Char)
  host : List Char
  segments : List (List Char)
  query : Option (List Char)
  fragment : Option (List Char)
  scheme_chars : ∀ ch ∈ scheme, ch ≠ ':' ∧ ch ≠ '?' ∧ ch ≠ '#'
  user_chars : ∀ text ∈ user, ∀ ch ∈ text, ch ≠ '/' ∧ ch ≠ '?' ∧ ch ≠ '#'
  host_chars : ∀ ch ∈ host, ch ≠ '/' ∧ ch ≠ '?' ∧ ch ≠ '#' ∧ ch ≠ '@'
  segment_chars : ∀ segment ∈ segments, ∀ ch ∈ segment, ch ≠ '/' ∧ ch ≠ '?' ∧ ch ≠ '#'
  query_chars : ∀ text ∈ query, '#' ∉ text

namespace Uri
variable (u : Uri)

def authority : List Char := userPart u.user ++ u.host

def base : List Char := u.scheme ++ "://".toList ++ u.authority ++ pathText u.segments

def text : List Char := u.base ++ (markedPart '?' u.query ++ markedPart '#' u.fragment)

/-- Whether a question mark is in the text. -/
def marked : Bool := u.query.isSome || u.fragment.any fun text => text.contains '?'

end Uri

theorem intercalate_nil_cons (segments : List (List Char)) :
    List.intercalate ['/'] ([] :: segments) = pathText segments := by
  induction segments with
  | nil => rfl
  | cons segment segments ih =>
      rw [List.intercalate_cons_cons, List.nil_append]
      cases segments with
      | nil =>
          rw [List.intercalate_singleton]
          exact (List.append_nil _).symm
      | cons next segments =>
          rw [List.intercalate_cons_cons, List.nil_append] at ih
          rw [List.intercalate_cons_cons, List.append_assoc segment, ih]
          rfl

theorem splitOn_pathText {segments : List (List Char)}
    (h : ∀ segment ∈ segments, '/' ∉ segment) :
    (pathText segments).splitOn '/' = [] :: segments := by
  rw [← intercalate_nil_cons, List.splitOn_intercalate _ _ (List.cons_ne_nil _ _)]
  intro segment hsegment
  cases List.mem_cons.mp hsegment with
  | inl hnil => exact hnil ▸ List.not_mem_nil
  | inr hmem => exact h segment hmem

theorem findText_scheme {scheme : List Char} (h : ':' ∉ scheme) (rest : List Char) :
    findText "://".toList (scheme ++ "://".toList ++ rest) = some scheme.length := by
  induction scheme with
  | nil => rfl
  | cons ch scheme ih =>
      have hne : ':' ≠ ch := fun heq => h (heq ▸ List.mem_cons_self)
      have hlead : ¬ "://".toList.isPrefixOf (ch :: (scheme ++ "://".toList ++ rest)) = true := by
        rw [List.isPrefixOf_iff_prefix]
        exact fun hpre => hne (List.cons_prefix_cons.mp hpre).1
      rw [List.cons_append, List.cons_append, findText, if_neg hlead,
        ih fun hmem => h (List.mem_cons_of_mem _ hmem)]
      rfl

/-- A text is taken up to the first character of what follows it. -/
theorem takeWhile_append_mark {front rest : List Char} {mark : Char} (hfront : mark ∉ front)
    (hrest : ∀ ch ∈ rest.head?, ch = mark) : (front ++ rest).takeWhile (· ≠ mark) = front := by
  rw [List.takeWhile_append_of_pos]
  · cases rest with
    | nil => rw [List.takeWhile_nil, List.append_nil]
    | cons ch rest =>
        rw [List.takeWhile_cons_of_neg, List.append_nil]
        exact fun hne => of_decide_eq_true hne (hrest ch rfl)
  · exact fun ch hch => decide_eq_true fun heq => hfront (heq ▸ hch)

theorem dropWhile_append_mark {front rest : List Char} {mark : Char} (hfront : mark ∉ front)
    (hrest : ∀ ch ∈ rest.head?, ch = mark) : (front ++ rest).dropWhile (· ≠ mark) = rest := by
  have happend : (front ++ rest).takeWhile (· ≠ mark) ++ (front ++ rest).dropWhile (· ≠ mark) =
      front ++ rest := List.takeWhile_append_dropWhile
  rw [takeWhile_append_mark hfront hrest] at happend
  exact List.append_cancel_left happend

theorem head_cons (mark : Char) (rest : List Char) :
    ∀ ch ∈ (mark :: rest).head?, ch = mark := by
  rintro ch ⟨⟩
  rfl

theorem rtakeWhile_append_mark {rest : List Char} {mark : Char} (hrest : mark ∉ rest)
    (front : List Char) : (front ++ mark :: rest).rtakeWhile (· ≠ mark) = rest := by
  unfold List.rtakeWhile
  rw [List.reverse_append, List.reverse_cons, List.append_assoc, takeWhile_append_mark,
    List.reverse_reverse]
  · exact fun h => hrest (List.mem_reverse.mp h)
  · exact head_cons mark _

theorem head_pathText {segments : List (List Char)} :
    ∀ ch ∈ (pathText segments).head?, ch = '/' := by
  cases segments with
  | nil => nofun
  | cons segment segments => exact head_cons '/' _

namespace Uri
variable (u : Uri)

theorem base_chars : ∀ ch ∈ u.base, ch ≠ '?' ∧ ch ≠ '#' := by
  intro ch hch
  unfold base authority pathText at hch
  rw [List.mem_append, List.mem_append, List.mem_append, List.mem_append] at hch
  obtain ((hscheme | hmark) | huser | hhost) | hpath := hch
  · exact (u.scheme_chars ch hscheme).2
  · have hall : "://".toList.all (fun ch => ch != '?' && ch != '#') = true := rfl
    have hpair := List.all_eq_true.mp hall ch hmark
    rw [Bool.and_eq_true, bne_iff_ne, bne_iff_ne] at hpair
    exact hpair
  · cases hu : u.user with
    | none =>
        rw [hu] at huser
        exact absurd huser List.not_mem_nil
    | some user =>
        rw [hu] at huser
        cases List.mem_append.mp huser with
        | inl hmem => exact (u.user_chars user hu ch hmem).2
        | inr hat =>
            rw [List.mem_singleton.mp hat]
            decide
  · exact ⟨(u.host_chars ch hhost).2.1, (u.host_chars ch hhost).2.2.1⟩
  · obtain ⟨segment, hsegment, hmem⟩ := List.mem_flatMap.mp hpath
    cases List.mem_cons.mp hmem with
    | inl hslash =>
        rw [hslash]
        decide
    | inr hin => exact (u.segment_chars segment hsegment ch hin).2

theorem uriBase_text : uriBase u.text = u.base := by
  have hquery : '?' ∉ u.base := fun h => (u.base_chars _ h).1 rfl
  have hfragment : '#' ∉ u.base := fun h => (u.base_chars _ h).2 rfl
  unfold uriBase text
  cases u.query with
  | some query =>
      have hhead : ∀ ch ∈ (markedPart '?' (some query) ++ markedPart '#' u.fragment).head?,
          ch = '?' := head_cons '?' _
      rw [takeWhile_append_mark hquery hhead]
      exact takeWhile_ne_of_not_mem hfragment
  | none =>
      rw [List.takeWhile_append_of_pos fun ch hch => decide_eq_true (u.base_chars ch hch).1]
      apply takeWhile_append_mark hfragment
      cases u.fragment with
      | none => nofun
      | some fragment => exact head_cons '#' fragment

theorem mem_text : '?' ∈ u.text ↔ u.marked = true := by
  have hquery : '?' ∉ u.base := fun h => (u.base_chars _ h).1 rfl
  unfold text marked
  rw [List.mem_append, or_iff_right hquery, List.mem_append, Bool.or_eq_true]
  cases u.query with
  | some query => exact iff_of_true (Or.inl List.mem_cons_self) (Or.inl rfl)
  | none =>
      apply or_congr
      · exact iff_of_false List.not_mem_nil Bool.false_ne_true
      · cases u.fragment with
        | none => exact iff_of_false List.not_mem_nil Bool.false_ne_true
        | some fragment =>
            change '?' ∈ '#' :: fragment ↔ fragment.contains '?' = true
            rw [List.mem_cons, or_iff_right (by decide), List.contains_iff_mem]

theorem splitScheme_base : splitScheme u.base =
    (u.scheme ++ "://".toList, u.authority ++ pathText u.segments) := by
  have hscheme : ':' ∉ u.scheme := fun h => (u.scheme_chars _ h).1 rfl
  have hlength : u.scheme.length + 3 = (u.scheme ++ "://".toList).length := by
    rw [List.length_append]
    rfl
  unfold splitScheme base
  rw [List.append_assoc, findText_scheme hscheme]
  dsimp only
  rw [hlength, List.take_left, List.drop_left]

theorem authority_chars : ∀ ch ∈ u.authority, ch ≠ '/' := by
  intro ch hch
  cases List.mem_append.mp hch with
  | inl huser =>
      cases hu : u.user with
      | none =>
          rw [hu] at huser
          exact absurd huser List.not_mem_nil
      | some user =>
          rw [hu] at huser
          cases List.mem_append.mp huser with
          | inl hmem => exact (u.user_chars user hu ch hmem).1
          | inr hat =>
              rw [List.mem_singleton.mp hat]
              decide
  | inr hhost => exact (u.host_chars ch hhost).1

theorem uriAuthority_text : uriAuthority u.text = u.authority := by
  unfold uriAuthority
  rw [uriBase_text, splitScheme_base]
  exact takeWhile_append_mark (fun h => u.authority_chars _ h rfl) head_pathText

theorem uriSegments_text : uriSegments u.text = [] :: u.segments := by
  unfold uriSegments
  rw [uriBase_text, splitScheme_base]
  dsimp only
  rw [dropWhile_append_mark (fun h => u.authority_chars _ h rfl) head_pathText]
  exact splitOn_pathText fun segment hsegment h => (u.segment_chars segment hsegment _ h).1 rfl

theorem sanitizeAuthority_authority : sanitizeAuthority u.authority =
    userPart (u.user.map fun _ => redacted) ++ u.host := by
  have hhost : '@' ∉ u.host := fun h => (u.host_chars _ h).2.2.2 rfl
  unfold sanitizeAuthority authority
  cases u.user with
  | none => exact if_neg hhost
  | some user =>
      have hmem : '@' ∈ userPart (some user) ++ u.host :=
        List.mem_append_left _ (List.mem_append_right _ List.mem_cons_self)
      have hbehind : (userPart (some user) ++ u.host).rtakeWhile (· ≠ '@') = u.host := by
        unfold userPart
        rw [List.append_assoc]
        exact rtakeWhile_append_mark hhost user
      rw [if_pos hmem, hbehind]
      exact (List.append_assoc redacted ['@'] u.host).symm

end Uri

/-! ## What is hidden -/

section Hide
variable (toLowercase : List Char → List Char)

def isKey (segment : List Char) : Bool := uriRedactKeys.contains (toLowercase segment)

def hasKey (segment : List Char) : Bool :=
  uriRedactKeys.any fun key => containsText key (toLowercase segment)

def notDelimiter (ch : Char) : Bool := ch != '=' && ch != ':'

/-- A segment with a sensitive word, without what is behind its first `=` or `:`. -/
def hiddenSegment (segment : List Char) : List Char :=
  if hasKey toLowercase segment then
    match segment.dropWhile notDelimiter with
    | delimiter :: _ => segment.takeWhile notDelimiter ++ delimiter :: redacted
    | [] => segment
  else segment

/-- Every segment behind a sensitive word is hidden, be it such a word or not. -/
def hiddenSegments (behindKey : Bool) : List (List Char) → List (List Char)
  | [] => []
  | segment :: segments =>
      (if behindKey then redacted else hiddenSegment toLowercase segment) ::
        hiddenSegments (isKey toLowercase segment) segments

/-- A URI with the given segments and without its user, its query and its fragment. -/
def Uri.shown (u : Uri) (segments : List (List Char)) : List Char :=
  u.scheme ++ "://".toList ++ (userPart (u.user.map fun _ => redacted) ++ u.host) ++
    pathText segments ++ if u.marked then '?' :: redacted else []

variable {toLowercase}

theorem Lowercases.isKey_nil (hlower : Lowercases toLowercase) :
    isKey toLowercase [] = false := by
  unfold isKey
  rw [hlower.ascii [] nofun]
  rfl

/-- The output of the sanitizer by the parts of the URI. -/
theorem Lowercases.sanitizeUri_text (hlower : Lowercases toLowercase) {u : Uri}
    {uri : List Char} (htrim : trimChars uri = u.text) : sanitizeUri toLowercase uri =
      u.shown (keptSegments toLowercase false u.segments) := by
  have hkept : keptSegments toLowercase false ([] :: u.segments) =
      [] :: keptSegments toLowercase false u.segments := by
    rw [keptSegments, if_neg Bool.false_ne_true, keptSegment_nil]
    exact congrArg (fun behindKey => [] :: keptSegments toLowercase behindKey u.segments)
      hlower.isKey_nil
  rw [hlower.sanitizeUri_trimChars, htrim]
  unfold keptUri Uri.shown
  rw [u.uriAuthority_text, u.uriSegments_text, u.sanitizeAuthority_authority, hkept,
    intercalate_nil_cons, u.uriBase_text, u.splitScheme_base]
  simp only [u.mem_text]

/-! ### Segments -/

theorem notDelimiter_iff {ch : Char} : notDelimiter ch = true ↔ ch ≠ '=' ∧ ch ≠ ':' := by
  unfold notDelimiter
  rw [Bool.and_eq_true, bne_iff_ne, bne_iff_ne]

theorem segment_cases (segment : List Char) :
    (∀ ch ∈ segment, ch ≠ '=' ∧ ch ≠ ':') ∨
    ∃ front delimiter rest, segment = front ++ delimiter :: rest ∧
      (delimiter = '=' ∨ delimiter = ':') ∧ ∀ ch ∈ front, ch ≠ '=' ∧ ch ≠ ':' := by
  have happend : segment.takeWhile notDelimiter ++ segment.dropWhile notDelimiter = segment :=
    List.takeWhile_append_dropWhile
  have hfront : ∀ ch ∈ segment.takeWhile notDelimiter, ch ≠ '=' ∧ ch ≠ ':' :=
    fun ch hch => notDelimiter_iff.mp (List.mem_takeWhile_imp hch)
  cases hdrop : segment.dropWhile notDelimiter with
  | nil =>
      rw [hdrop, List.append_nil] at happend
      exact Or.inl (happend ▸ hfront)
  | cons delimiter rest =>
      have hstop := List.head_dropWhile_not notDelimiter
        (hdrop ▸ List.cons_ne_nil delimiter rest : segment.dropWhile notDelimiter ≠ [])
      have hdelimiter : delimiter = '=' ∨ delimiter = ':' := by
        simp only [hdrop, List.head_cons] at hstop
        rw [← Bool.not_eq_true, notDelimiter_iff, not_and_or, not_not, not_not] at hstop
        exact hstop
      rw [hdrop] at happend
      exact Or.inr ⟨_, delimiter, rest, happend.symm, hdelimiter, hfront⟩

theorem hiddenSegment_of_free {segment : List Char} (h : ∀ ch ∈ segment, ch ≠ '=' ∧ ch ≠ ':') :
    hiddenSegment toLowercase segment = segment := by
  have hdrop : segment.dropWhile notDelimiter = [] := by
    rw [List.dropWhile_eq_nil_iff]
    exact fun ch hch => notDelimiter_iff.mpr (h ch hch)
  unfold hiddenSegment
  rw [hdrop, ite_self]

theorem hiddenSegment_of_no_key {segment : List Char}
    (h : hasKey toLowercase segment = false) : hiddenSegment toLowercase segment = segment := by
  unfold hiddenSegment
  rw [h, if_neg Bool.false_ne_true]

theorem keptSegment_of_no_key {segment : List Char}
    (h : hasKey toLowercase segment = false) : keptSegment toLowercase segment = segment := by
  unfold hasKey at h
  unfold keptSegment
  rw [h, if_neg Bool.false_ne_true]

theorem keptSegment_of_free {segment : List Char} (h : ∀ ch ∈ segment, ch ≠ '=' ∧ ch ≠ ':') :
    keptSegment toLowercase segment = segment := by
  unfold keptSegment
  rw [redactBehind_eq_none fun hmem => (h _ hmem).1 rfl,
    redactBehind_eq_none fun hmem => (h _ hmem).2 rfl]
  exact ite_self _

section Delimiter
variable {front rest : List Char} {delimiter : Char}

theorem hiddenSegment_append (hdelimiter : delimiter = '=' ∨ delimiter = ':')
    (hfront : ∀ ch ∈ front, ch ≠ '=' ∧ ch ≠ ':')
    (hkey : hasKey toLowercase (front ++ delimiter :: rest) = true) :
    hiddenSegment toLowercase (front ++ delimiter :: rest) = front ++ delimiter :: redacted := by
  have hall : ∀ ch ∈ front, notDelimiter ch = true :=
    fun ch hch => notDelimiter_iff.mpr (hfront ch hch)
  have hstop : ¬ notDelimiter delimiter = true := by
    rw [notDelimiter_iff, not_and_or, not_not, not_not]
    exact hdelimiter
  unfold hiddenSegment
  rw [if_pos hkey, List.dropWhile_append_of_pos hall, List.takeWhile_append_of_pos hall,
    List.dropWhile_cons_of_neg hstop, List.takeWhile_cons_of_neg hstop, List.append_nil]

/-- The sanitizer cuts behind a `=` although a `:` may come first. -/
theorem keptSegment_append (hdelimiter : delimiter = '=' ∨ delimiter = ':')
    (hfront : ∀ ch ∈ front, ch ≠ '=' ∧ ch ≠ ':')
    (hkey : hasKey toLowercase (front ++ delimiter :: rest) = true) :
    keptSegment toLowercase (front ++ delimiter :: rest) =
      if delimiter = ':' ∧ '=' ∈ rest then
        front ++ ':' :: rest.takeWhile (· ≠ '=') ++ '=' :: redacted
      else front ++ delimiter :: redacted := by
  have hequals : '=' ∉ front := fun h => (hfront _ h).1 rfl
  have hcolon : ':' ∉ front := fun h => (hfront _ h).2 rfl
  unfold hasKey at hkey
  unfold keptSegment redactBehind
  rw [if_pos hkey]
  clear hkey
  obtain rfl | rfl := hdelimiter
  · have hmem : '=' ∈ front ++ '=' :: rest := List.mem_append_right _ List.mem_cons_self
    have hne : ¬ ('=' = ':' ∧ '=' ∈ rest) := fun h => absurd h.1 (by decide)
    rw [if_pos hmem, takeWhile_append_mark hequals (head_cons '=' rest), if_neg hne]
    rfl
  · have hmem : ':' ∈ front ++ ':' :: rest := List.mem_append_right _ List.mem_cons_self
    have hiff : '=' ∈ front ++ ':' :: rest ↔ '=' ∈ rest := by
      rw [List.mem_append, or_iff_right hequals, List.mem_cons, or_iff_right (by decide)]
    rw [takeWhile_append_mark hcolon (head_cons ':' rest)]
    simp only [hiff, true_and, if_pos hmem]
    by_cases hrest : '=' ∈ rest
    · have htake : (front ++ ':' :: rest).takeWhile (· ≠ '=') =
          front ++ ':' :: rest.takeWhile (· ≠ '=') := by
        rw [List.takeWhile_append_of_pos fun ch hch => decide_eq_true (hfront ch hch).1,
          List.takeWhile_cons_of_pos (by decide)]
      rw [if_pos hrest, if_pos hrest, htake]
      rfl
    · rw [if_neg hrest, if_neg hrest]
      rfl

end Delimiter

/-- What is left of a segment is what should be unless a `:` comes before its first `=`. -/
theorem keptSegment_eq_iff (segment : List Char) :
    keptSegment toLowercase segment = hiddenSegment toLowercase segment ↔
      (hasKey toLowercase segment = true → '=' ∈ segment →
        ':' ∉ segment.takeWhile (· ≠ '=')) := by
  obtain hfree | ⟨front, delimiter, rest, rfl, hdelimiter, hfront⟩ := segment_cases segment
  · rw [keptSegment_of_free hfree, hiddenSegment_of_free hfree]
    exact iff_of_true rfl fun _ hmem => absurd rfl (hfree _ hmem).1
  · cases hkey : hasKey toLowercase (front ++ delimiter :: rest) with
    | false =>
        rw [keptSegment_of_no_key hkey, hiddenSegment_of_no_key hkey]
        exact iff_of_true rfl fun h => absurd h Bool.false_ne_true
    | true =>
        have hequals : '=' ∉ front := fun h => (hfront _ h).1 rfl
        rw [keptSegment_append hdelimiter hfront hkey, hiddenSegment_append hdelimiter hfront hkey]
        obtain rfl | rfl := hdelimiter
        · have hne : ¬ ('=' = ':' ∧ '=' ∈ rest) := fun h => absurd h.1 (by decide)
          rw [if_neg hne, takeWhile_append_mark hequals (head_cons '=' rest)]
          exact iff_of_true rfl fun _ _ hmem => (hfront _ hmem).2 rfl
        · by_cases hrest : '=' ∈ rest
          · have htake : ':' ∈ (front ++ ':' :: rest).takeWhile (· ≠ '=') := by
              rw [List.takeWhile_append_of_pos fun ch hch => decide_eq_true (hfront ch hch).1,
                List.takeWhile_cons_of_pos (by decide)]
              exact List.mem_append_right _ List.mem_cons_self
            have hmem : '=' ∈ front ++ ':' :: rest :=
              List.mem_append_right _ (List.mem_cons_of_mem _ hrest)
            rw [if_pos ⟨rfl, hrest⟩]
            refine iff_of_false ?_ fun h => h rfl hmem htake
            -- only the text that is cut behind the `=` has one
            intro heq
            have hin : '=' ∈ front ++ ':' :: redacted :=
              heq ▸ List.mem_append_right _ List.mem_cons_self
            rw [List.mem_append, or_iff_right hequals] at hin
            exact absurd hin (by decide)
          · have hmem : '=' ∉ front ++ ':' :: rest := by
              rw [List.mem_append, or_iff_right hequals, List.mem_cons, not_or]
              exact ⟨by decide, hrest⟩
            rw [if_neg fun h => hrest h.2]
            exact iff_of_true rfl fun _ h => absurd h hmem

/-! ### Marks -/

/-- What is left of a segment, with the delimiter it is cut behind. -/
theorem keptSegment_cases (segment : List Char) : keptSegment toLowercase segment = segment ∨
    ∃ front delimiter, (delimiter = '=' ∨ delimiter = ':') ∧ delimiter ∈ segment ∧
      (∀ ch ∈ front, ch ∈ segment) ∧
      keptSegment toLowercase segment = front ++ delimiter :: redacted ∧
      '=' ∉ front ∧ (delimiter = ':' → ':' ∉ front) := by
  cases hkey : hasKey toLowercase segment with
  | false => exact Or.inl (keptSegment_of_no_key hkey)
  | true =>
      have hnot : ∀ delimiter : Char, delimiter ∉ segment.takeWhile (· ≠ delimiter) := by
        intro delimiter h
        have hne := List.mem_takeWhile_imp h
        exact of_decide_eq_true hne rfl
      have hmem : ∀ delimiter ch : Char, ch ∈ segment.takeWhile (· ≠ delimiter) → ch ∈ segment :=
        fun delimiter ch h => (List.takeWhile_prefix _).subset h
      unfold hasKey at hkey
      unfold keptSegment redactBehind
      rw [if_pos hkey]
      by_cases hequals : '=' ∈ segment
      · rw [if_pos hequals]
        exact Or.inr ⟨_, '=', Or.inl rfl, hequals, hmem '=', rfl, hnot '=', fun h => nomatch h⟩
      · rw [if_neg hequals]
        by_cases hcolon : ':' ∈ segment
        · rw [if_pos hcolon]
          exact Or.inr ⟨_, ':', Or.inr rfl, hcolon, hmem ':', rfl,
            fun h => hequals (hmem ':' '=' h), fun _ => hnot ':'⟩
        · rw [if_neg hcolon]
          exact Or.inl rfl

theorem Lowercases.isKey_of_delimiter (hlower : Lowercases toLowercase) {segment : List Char}
    {delimiter : Char} (hdelimiter : delimiter = '=' ∨ delimiter = ':')
    (hmem : delimiter ∈ segment) : isKey toLowercase segment = false := by
  rw [← Bool.not_eq_true]
  intro hkey
  have hnone := hlower.no_delimiter (List.contains_iff_mem.mp hkey)
  rw [Option.or_eq_none_iff] at hnone
  unfold redactBehind at hnone
  obtain rfl | rfl := hdelimiter
  · rw [if_pos hmem] at hnone
    exact Option.some_ne_none _ hnone.1
  · rw [if_pos hmem] at hnone
    exact Option.some_ne_none _ hnone.2

theorem Lowercases.isKey_redacted (hlower : Lowercases toLowercase) :
    isKey toLowercase Redaction.redacted = false := hlower.redacted_not_key

theorem Lowercases.isKey_keptSegment (hlower : Lowercases toLowercase) (segment : List Char) :
    isKey toLowercase (keptSegment toLowercase segment) = isKey toLowercase segment := by
  obtain hsame | ⟨front, delimiter, hdelimiter, hmem, -, hkept, -⟩ :=
    @keptSegment_cases toLowercase segment
  · rw [hsame]
  · have hin : delimiter ∈ keptSegment toLowercase segment := by
      rw [hkept]
      exact List.mem_append_right _ List.mem_cons_self
    rw [hlower.isKey_of_delimiter hdelimiter hmem, hlower.isKey_of_delimiter hdelimiter hin]

theorem Lowercases.keptSegment_eq_redacted (hlower : Lowercases toLowercase)
    {segment : List Char} : keptSegment toLowercase segment = Redaction.redacted ↔
      segment = Redaction.redacted := by
  constructor
  · intro h
    obtain hsame | ⟨front, delimiter, hdelimiter, -, -, hkept, -⟩ :=
      @keptSegment_cases toLowercase segment
    · exact hsame.symm.trans h
    · have hin : delimiter ∈ Redaction.redacted := by
        rw [← h, hkept]
        exact List.mem_append_right _ List.mem_cons_self
      obtain rfl | rfl := hdelimiter <;> exact absurd hin (by decide)
  · intro h
    rw [h, hlower.keptSegment_redacted]

/-- A text that is cut once is cut at the same place again. -/
theorem keptSegment_keptSegment (segment : List Char) :
    keptSegment toLowercase (keptSegment toLowercase segment) =
      keptSegment toLowercase segment := by
  obtain hsame | ⟨front, delimiter, hdelimiter, -, -, hkept, hequals, hcolon⟩ :=
    @keptSegment_cases toLowercase segment
  · rw [hsame, hsame]
  · rw [hkept]
    cases hkey : hasKey toLowercase (front ++ delimiter :: redacted) with
    | false => exact keptSegment_of_no_key hkey
    | true =>
        have hmem : delimiter ∈ front ++ delimiter :: redacted :=
          List.mem_append_right _ List.mem_cons_self
        unfold hasKey at hkey
        unfold keptSegment
        rw [if_pos hkey]
        clear hkey hkept
        unfold redactBehind
        obtain rfl | rfl := hdelimiter
        · rw [if_pos hmem, takeWhile_append_mark hequals (head_cons '=' redacted)]
          rfl
        · have hnot : '=' ∉ front ++ ':' :: redacted := by
            rw [List.mem_append, or_iff_right hequals]
            decide
          rw [if_neg hnot, if_pos hmem, takeWhile_append_mark (hcolon rfl) (head_cons ':' redacted)]
          rfl

theorem Lowercases.keptSegments_keptSegments (hlower : Lowercases toLowercase)
    (behindKey : Bool) (segments : List (List Char)) :
    keptSegments toLowercase behindKey (keptSegments toLowercase behindKey segments) =
      keptSegments toLowercase behindKey segments := by
  induction segments generalizing behindKey with
  | nil => rfl
  | cons segment segments ih =>
      cases behindKey with
      | true =>
          rw [keptSegments, if_pos rfl, keptSegments, if_pos rfl, ih]
      | false =>
          rw [keptSegments, if_neg Bool.false_ne_true, keptSegments, if_neg Bool.false_ne_true,
            keptSegment_keptSegment]
          have hsame : uriRedactKeys.contains (toLowercase (keptSegment toLowercase segment)) =
              uriRedactKeys.contains (toLowercase segment) := hlower.isKey_keptSegment segment
          rw [hsame, ih]

/-! ### Paths -/

/-- No segment of secrets is behind two sensitive words in a row. -/
def NoKeyChain (toLowercase : List Char → List Char) (segments : List (List Char)) : Prop :=
  ∀ first second third, [first, second, third] <:+: segments →
    isKey toLowercase first = true → isKey toLowercase second = true → third = redacted

/-- No segment with a sensitive word has a `:` before its first `=`, unless it is hidden as the
one behind a sensitive word. -/
def EqualsFirst (toLowercase : List Char → List Char) (segments : List (List Char)) : Prop :=
  ∀ before segment, [before, segment] <:+: segments → isKey toLowercase before = false →
    hasKey toLowercase segment = true → '=' ∈ segment → ':' ∉ segment.takeWhile (· ≠ '=')

theorem prefix_of_head {α : Type*} {a : α} {l : List α} (h : a ∈ l.head?) : [a] <+: l := by
  obtain ⟨rest, rfl⟩ := List.head?_eq_some_iff.mp h
  exact List.prefix_append [a] rest

theorem noKeyChain_cons_cons {first second : List Char} {segments : List (List Char)} :
    NoKeyChain toLowercase (first :: second :: segments) ↔
      (isKey toLowercase first = true → isKey toLowercase second = true →
        ∀ third ∈ segments.head?, third = redacted) ∧
      NoKeyChain toLowercase (second :: segments) := by
  constructor
  · intro h
    refine ⟨fun hfirst hsecond third hthird => ?_, fun a b c hpart => ?_⟩
    · have hlead : [first, second, third] <+: first :: second :: segments :=
        (List.prefix_cons_inj first).mpr ((List.prefix_cons_inj second).mpr
          (prefix_of_head hthird))
      exact h first second third hlead.isInfix hfirst hsecond
    · exact h a b c (hpart.trans (List.suffix_cons first _).isInfix)
  · intro h a b c hpart hfirst hsecond
    cases List.infix_cons_iff.mp hpart with
    | inl hlead =>
        obtain ⟨rfl, hrest⟩ := List.cons_prefix_cons.mp hlead
        obtain ⟨rfl, hlast⟩ := List.cons_prefix_cons.mp hrest
        obtain ⟨rest, rfl⟩ := hlast
        exact h.1 hfirst hsecond c rfl
    | inr hrest => exact h.2 a b c hrest hfirst hsecond

theorem equalsFirst_cons_cons {before segment : List Char} {segments : List (List Char)} :
    EqualsFirst toLowercase (before :: segment :: segments) ↔
      (isKey toLowercase before = false → hasKey toLowercase segment = true → '=' ∈ segment →
        ':' ∉ segment.takeWhile (· ≠ '=')) ∧ EqualsFirst toLowercase (segment :: segments) := by
  constructor
  · intro h
    refine ⟨?_, fun a b hpart => ?_⟩
    · have hlead : [before, segment] <+: before :: segment :: segments :=
        List.prefix_append [before, segment] segments
      exact h before segment hlead.isInfix
    · exact h a b (hpart.trans (List.suffix_cons before _).isInfix)
  · intro h a b hpart
    cases List.infix_cons_iff.mp hpart with
    | inl hlead =>
        obtain ⟨rfl, hrest⟩ := List.cons_prefix_cons.mp hlead
        obtain ⟨rfl, -⟩ := List.cons_prefix_cons.mp hrest
        exact h.1
    | inr hrest => exact h.2 a b hrest

/-- The loop over the segments hides what is to be hidden unless it has overwritten a sensitive
word and not the segment behind it, or cuts a segment too late. -/
theorem Lowercases.keptSegments_eq_iff (hlower : Lowercases toLowercase) {before : List Char}
    {behindKey : Bool} (hbehind : behindKey = true → isKey toLowercase before = true)
    (segments : List (List Char)) :
    keptSegments toLowercase behindKey segments =
        hiddenSegments toLowercase (isKey toLowercase before) segments ↔
      (isKey toLowercase before = true → behindKey = false →
        ∀ segment ∈ segments.head?, segment = Redaction.redacted) ∧
      NoKeyChain toLowercase (before :: segments) ∧
      EqualsFirst toLowercase (before :: segments) := by
  induction segments generalizing before behindKey with
  | nil =>
      refine iff_of_true rfl
        ⟨fun _ _ s hs => absurd hs (Option.not_mem_none s), fun a b c hpart => ?_,
          fun a b hpart => ?_⟩
      · have hle := hpart.length_le
        simp only [List.length_cons, List.length_nil] at hle
        omega
      · have hle := hpart.length_le
        simp only [List.length_cons, List.length_nil] at hle
        omega
  | cons segment segments ih =>
      rw [noKeyChain_cons_cons, equalsFirst_cons_cons, hiddenSegments]
      have hhead : (∀ s ∈ (segment :: segments).head?, s = Redaction.redacted) ↔
          segment = Redaction.redacted :=
        ⟨fun h => h segment rfl, fun h s hs => (Option.some.inj hs).symm.trans h⟩
      rw [hhead]
      cases behindKey with
      | true =>
          have hkey := hbehind rfl
          have htail := @ih segment false (fun h => absurd h Bool.false_ne_true)
          rw [keptSegments, if_pos rfl, if_pos hkey, List.cons_inj_right, htail, hkey]
          simp only [true_implies, Bool.true_eq_false, false_implies, true_and]
          exact ⟨fun h => ⟨⟨h.1, h.2.1⟩, h.2.2⟩, fun h => ⟨h.1.1, h.1.2, h.2⟩⟩
      | false =>
          have htail := @ih segment (isKey toLowercase segment) id
          have hfalse : (isKey toLowercase segment = true → isKey toLowercase segment = false →
              ∀ s ∈ segments.head?, s = Redaction.redacted) := by
            intro htrue hfalse
            rw [htrue] at hfalse
            cases hfalse
          have hsame : uriRedactKeys.contains (toLowercase segment) =
              isKey toLowercase segment := rfl
          rw [keptSegments, if_neg Bool.false_ne_true, List.cons_eq_cons, hsame, htail]
          cases hkey : isKey toLowercase before with
          | true =>
              rw [if_pos rfl, hlower.keptSegment_eq_redacted]
              constructor
              · rintro ⟨hsegment, _, hchain, hequals⟩
                refine ⟨fun _ _ => hsegment, ⟨fun _ hsecond => ?_, hchain⟩,
                  fun h => Bool.noConfusion h, hequals⟩
                rw [hsegment, hlower.isKey_redacted] at hsecond
                cases hsecond
              · rintro ⟨hsegment, ⟨_, hchain⟩, _, hequals⟩
                exact ⟨hsegment rfl rfl, hfalse, hchain, hequals⟩
          | false =>
              rw [if_neg Bool.false_ne_true, keptSegment_eq_iff]
              constructor
              · rintro ⟨hsegment, _, hchain, hequals⟩
                exact ⟨fun h => Bool.noConfusion h, ⟨fun h => Bool.noConfusion h, hchain⟩,
                  fun _ => hsegment, hequals⟩
              · rintro ⟨_, ⟨_, hchain⟩, hsegment, hequals⟩
                exact ⟨hsegment rfl, hfalse, hchain, hequals⟩

/-- The path of a URI, before which no segment stands. -/
theorem Lowercases.keptSegments_path_iff (hlower : Lowercases toLowercase)
    (segments : List (List Char)) :
    keptSegments toLowercase false segments = hiddenSegments toLowercase false segments ↔
      NoKeyChain toLowercase segments ∧ EqualsFirst toLowercase ([] :: segments) := by
  have hiff := @Lowercases.keptSegments_eq_iff toLowercase hlower [] false
    (fun h => absurd h Bool.false_ne_true) segments
  have hchain : NoKeyChain toLowercase ([] :: segments) ↔ NoKeyChain toLowercase segments := by
    constructor
    · exact fun h a b c hpart => h a b c (hpart.trans (List.suffix_cons [] _).isInfix)
    · intro h a b c hpart hfirst
      cases List.infix_cons_iff.mp hpart with
      | inl hlead =>
          obtain ⟨rfl, -⟩ := List.cons_prefix_cons.mp hlead
          rw [hlower.isKey_nil] at hfirst
          cases hfirst
      | inr hrest => exact h a b c hrest hfirst
  rw [hlower.isKey_nil, hchain] at hiff
  rw [hiff]
  exact and_iff_right nofun

/-- The characters of what is left of a path. -/
theorem mem_keptSegments {p : Char → Prop} (hredacted : ∀ ch ∈ redacted, p ch) (hequals : p '=')
    (hcolon : p ':') {behindKey : Bool} {segments : List (List Char)}
    (h : ∀ segment ∈ segments, ∀ ch ∈ segment, p ch) :
    ∀ segment ∈ keptSegments toLowercase behindKey segments, ∀ ch ∈ segment, p ch := by
  induction segments generalizing behindKey with
  | nil => nofun
  | cons segment segments ih =>
      have hrest := fun behindKey => @ih behindKey
        fun other hother => h other (List.mem_cons_of_mem _ hother)
      intro other hother
      rw [keptSegments] at hother
      cases behindKey with
      | true =>
          rw [if_pos rfl] at hother
          cases List.mem_cons.mp hother with
          | inl heq => exact heq ▸ hredacted
          | inr hmem => exact hrest false other hmem
      | false =>
          rw [if_neg Bool.false_ne_true] at hother
          cases List.mem_cons.mp hother with
          | inr hmem => exact hrest _ other hmem
          | inl heq =>
              have hsegment := h segment List.mem_cons_self
              rw [heq]
              obtain hsame | ⟨front, delimiter, hdelimiter, -, hfront, hkept, -⟩ :=
                @keptSegment_cases toLowercase segment
              · rw [hsame]
                exact hsegment
              · rw [hkept]
                intro ch hch
                rw [List.mem_append, List.mem_cons] at hch
                obtain hin | rfl | hin := hch
                · exact hsegment ch (hfront ch hin)
                · obtain rfl | rfl := hdelimiter
                  · exact hequals
                  · exact hcolon
                · exact hredacted ch hin

theorem mem_hiddenSegments {p : Char → Prop} (hredacted : ∀ ch ∈ redacted, p ch)
    {behindKey : Bool} {segments : List (List Char)}
    (h : ∀ segment ∈ segments, ∀ ch ∈ segment, p ch) :
    ∀ segment ∈ hiddenSegments toLowercase behindKey segments, ∀ ch ∈ segment, p ch := by
  induction segments generalizing behindKey with
  | nil => nofun
  | cons segment segments ih =>
      have hrest := fun behindKey => @ih behindKey
        fun other hother => h other (List.mem_cons_of_mem _ hother)
      have hsegment := h segment List.mem_cons_self
      intro other hother
      rw [hiddenSegments] at hother
      cases List.mem_cons.mp hother with
      | inr hmem => exact hrest _ other hmem
      | inl heq =>
          rw [heq]
          cases behindKey with
          | true => exact hredacted
          | false =>
              rw [if_neg Bool.false_ne_true]
              cases hkey : hasKey toLowercase segment with
              | false =>
                  rw [hiddenSegment_of_no_key hkey]
                  exact hsegment
              | true =>
                  obtain hfree | ⟨front, delimiter, rest, rfl, hdelimiter, hfront⟩ :=
                    segment_cases segment
                  · rw [hiddenSegment_of_free hfree]
                    exact hsegment
                  · rw [hiddenSegment_append hdelimiter hfront hkey]
                    intro ch hch
                    rw [List.mem_append, List.mem_cons] at hch
                    obtain hin | rfl | hin := hch
                    · exact hsegment ch (List.mem_append_left _ hin)
                    · exact hsegment _ (List.mem_append_right _ List.mem_cons_self)
                    · exact hredacted ch hin

theorem redacted_chars : ∀ ch ∈ redacted, ch ≠ '/' ∧ ch ≠ '?' ∧ ch ≠ '#' := by
  have hall : redacted.all (fun ch => ch != '/' && (ch != '?' && ch != '#')) = true := by
    decide
  intro ch hch
  have hpair := List.all_eq_true.mp hall ch hch
  rw [Bool.and_eq_true, Bool.and_eq_true, bne_iff_ne, bne_iff_ne, bne_iff_ne] at hpair
  exact hpair

theorem kept_chars (u : Uri) : ∀ segment ∈ keptSegments toLowercase false u.segments,
    ∀ ch ∈ segment, ch ≠ '/' ∧ ch ≠ '?' ∧ ch ≠ '#' :=
  mem_keptSegments redacted_chars (by decide) (by decide) u.segment_chars

theorem Uri.shown_inj {u : Uri} {segments others : List (List Char)}
    (h : ∀ segment ∈ segments, ∀ ch ∈ segment, ch ≠ '/' ∧ ch ≠ '?' ∧ ch ≠ '#')
    (hothers : ∀ segment ∈ others, ∀ ch ∈ segment, ch ≠ '/' ∧ ch ≠ '?' ∧ ch ≠ '#') :
    u.shown segments = u.shown others ↔ segments = others := by
  refine ⟨fun heq => ?_, fun heq => heq ▸ rfl⟩
  have hpath := List.append_cancel_left (List.append_cancel_right heq)
  have hsplit := congrArg (List.splitOn '/') hpath
  rw [splitOn_pathText fun segment hsegment hmem => (h segment hsegment _ hmem).1 rfl,
    splitOn_pathText fun segment hsegment hmem => (hothers segment hsegment _ hmem).1 rfl]
    at hsplit
  exact (List.cons.inj hsplit).2

/-! ## A second pass -/

/-- The output of the sanitizer by its parts. -/
def Uri.output (toLowercase : List Char → List Char) (u : Uri) : Uri where
  scheme := u.scheme
  user := u.user.map fun _ => redacted
  host := u.host
  segments := keptSegments toLowercase false u.segments
  query := if u.marked then some redacted else none
  fragment := none
  scheme_chars := u.scheme_chars
  user_chars := by
    intro text htext
    obtain ⟨user, -, rfl⟩ := Option.map_eq_some_iff.mp htext
    exact redacted_chars
  host_chars := u.host_chars
  segment_chars := kept_chars u
  query_chars := by
    intro text htext
    split at htext
    · rw [← Option.some.inj htext]
      exact fun h => (redacted_chars _ h).2.2 rfl
    · cases htext

theorem Uri.text_output (u : Uri) :
    (u.output toLowercase).text = u.shown (keptSegments toLowercase false u.segments) := by
  have hmark : ∀ marked : Bool, markedPart '?' (if marked then some redacted else none) ++ [] =
      if marked then '?' :: redacted else [] := by
    intro marked
    cases marked <;> rfl
  exact congrArg (_ ++ ·) (hmark u.marked)

theorem Lowercases.shown_output (hlower : Lowercases toLowercase) (u : Uri) :
    (u.output toLowercase).shown (keptSegments toLowercase false (u.output toLowercase).segments) =
      u.shown (keptSegments toLowercase false u.segments) := by
  have hmarked : (u.output toLowercase).marked = u.marked := by
    change ((if u.marked then some Redaction.redacted else none).isSome || false) = u.marked
    cases u.marked <;> rfl
  have huser : (u.output toLowercase).user.map (fun _ => Redaction.redacted) =
      u.user.map fun _ => Redaction.redacted := by
    unfold Uri.output
    exact Option.map_map ..
  have hsegments : keptSegments toLowercase false (u.output toLowercase).segments =
      keptSegments toLowercase false u.segments :=
    hlower.keptSegments_keptSegments false u.segments
  rw [hsegments]
  unfold Uri.shown
  rw [hmarked, huser]
  rfl

theorem trimChars_of_ends {cs : List Char} (hhead : ∀ ch ∈ cs.head?, isWhitespace ch = false)
    (hlast : ∀ ch ∈ cs.getLast?, isWhitespace ch = false) : trimChars cs = cs := by
  have hstart : cs.dropWhile isWhitespace = cs := by
    cases cs with
    | nil => rfl
    | cons ch cs =>
        rw [List.dropWhile_cons_of_neg]
        exact Bool.not_eq_true _ ▸ hhead ch rfl
  have hend : cs.rdropWhile isWhitespace = cs := by
    rw [List.rdropWhile_eq_self_iff]
    intro hne
    exact Bool.not_eq_true _ ▸ hlast _ (List.getLast?_eq_some_getLast hne)
  change (cs.dropWhile isWhitespace).rdropWhile isWhitespace = cs
  rw [hstart, hend]

theorem head_trimChars {cs : List Char} : ∀ ch ∈ (trimChars cs).head?,
    isWhitespace ch = false := by
  change ∀ ch ∈ ((cs.dropWhile isWhitespace).rdropWhile isWhitespace).head?, _
  intro ch hch
  have hlead := prefix_of_head hch |>.trans (List.rdropWhile_prefix isWhitespace _)
  obtain ⟨rest, hrest⟩ := hlead
  have hne : cs.dropWhile isWhitespace ≠ [] := hrest ▸ List.cons_ne_nil ch rest
  have hnot := List.head_dropWhile_not isWhitespace hne
  simp only [← hrest, List.singleton_append, List.head_cons] at hnot
  exact hnot

theorem getLast_trimChars {cs : List Char} : ∀ ch ∈ (trimChars cs).getLast?,
    isWhitespace ch = false := by
  intro ch hch
  obtain ⟨hne, rfl⟩ := List.mem_getLast?_eq_getLast hch
  exact Bool.not_eq_true _ ▸ List.rdropWhile_last_not isWhitespace _ hne

/-! ### Last characters -/

theorem getLast_sanitizeAuthority (authority : List Char) :
    (sanitizeAuthority authority).getLast? = authority.getLast? := by
  unfold sanitizeAuthority
  by_cases hat : '@' ∈ authority
  · obtain ⟨rest, front, hreverse, hrest⟩ :=
      List.eq_append_cons_of_mem (List.mem_reverse.mpr hat)
    have hsplit : authority = front.reverse ++ '@' :: rest.reverse := by
      rw [← List.reverse_inj, hreverse, List.reverse_append, List.reverse_cons,
        List.reverse_reverse, List.reverse_reverse, List.append_assoc]
      rfl
    have hbehind : '@' ∉ rest.reverse := fun h => hrest (List.mem_reverse.mp h)
    rw [if_pos hat, hsplit, rtakeWhile_append_mark hbehind, List.getLast?_append_cons,
      List.getLast?_append_cons]
  · rw [if_neg hat]

theorem getLast_keptSegment (segment : List Char) :
    (keptSegment toLowercase segment).getLast? = segment.getLast? ∨
      (keptSegment toLowercase segment).getLast? = some ']' := by
  obtain hsame | ⟨front, delimiter, -, -, -, hkept, -⟩ := @keptSegment_cases toLowercase segment
  · exact Or.inl (congrArg _ hsame)
  · rw [hkept, List.getLast?_append_cons]
    exact Or.inr rfl

/-- A path ends as it did, or with the mark of what is hidden. -/
theorem getLast_keptSegments (behindKey : Bool) (segments : List (List Char)) :
    (List.intercalate ['/'] (keptSegments toLowercase behindKey segments)).getLast? =
        (List.intercalate ['/'] segments).getLast? ∨
      (List.intercalate ['/'] (keptSegments toLowercase behindKey segments)).getLast? =
        some ']' := by
  induction segments generalizing behindKey with
  | nil => exact Or.inl rfl
  | cons segment segments ih =>
      have hkept : ∃ first others, keptSegments toLowercase behindKey (segment :: segments) =
          first :: keptSegments toLowercase others segments ∧
          (first.getLast? = segment.getLast? ∨ first.getLast? = some ']') := by
        rw [keptSegments]
        cases behindKey with
        | true => exact ⟨_, false, if_pos rfl, Or.inr rfl⟩
        | false => exact ⟨_, _, if_neg Bool.false_ne_true, getLast_keptSegment segment⟩
      obtain ⟨first, others, hcons, hfirst⟩ := hkept
      rw [hcons]
      cases segments with
      | nil =>
          rw [keptSegments, List.intercalate_singleton, List.intercalate_singleton]
          exact hfirst
      | cons next segments =>
          have hne : keptSegments toLowercase others (next :: segments) ≠ [] := by
            rw [keptSegments]
            split <;> exact List.cons_ne_nil _ _
          rw [List.intercalate_cons_of_ne_nil hne,
            List.intercalate_cons_of_ne_nil (List.cons_ne_nil next segments),
            List.getLast?_append, List.getLast?_concat, List.getLast?_append,
            List.getLast?_concat]
          obtain hsame | hmark := ih others
          · exact Or.inl (congrArg (Option.or · (some '/')) hsame)
          · rw [hmark]
            exact Or.inr rfl

/-- The output for a text without a query and a fragment ends as the text does, or with the
mark of what is hidden. -/
theorem getLast_keptUri {uri : List Char} (hquery : '?' ∉ uri) (hfragment : '#' ∉ uri) :
    (keptUri toLowercase uri).getLast? = uri.getLast? ∨
      (keptUri toLowercase uri).getLast? = some ']' := by
  have hbase : uriBase uri = uri := by
    unfold uriBase
    rw [takeWhile_ne_of_not_mem hquery, takeWhile_ne_of_not_mem hfragment]
  have hparts : uri = (splitScheme uri).1 ++ uriAuthority uri ++
      List.intercalate ['/'] (uriSegments uri) := by
    unfold uriAuthority uriSegments
    rw [hbase, List.intercalate_splitOn, List.append_assoc, List.takeWhile_append_dropWhile,
      splitScheme_append]
  have hkept : keptUri toLowercase uri = (splitScheme uri).1 ++
      sanitizeAuthority (uriAuthority uri) ++
      List.intercalate ['/'] (keptSegments toLowercase false (uriSegments uri)) := by
    unfold keptUri
    rw [if_neg hquery, List.append_nil, hbase]
  rw [hkept, List.getLast?_append, List.getLast?_append, getLast_sanitizeAuthority]
  obtain hsame | hmark := @getLast_keptSegments toLowercase false (uriSegments uri)
  · rw [hsame, ← List.getLast?_append, ← List.getLast?_append, ← hparts]
    exact Or.inl rfl
  · rw [hmark]
    exact Or.inr rfl

/-! ## The sanitizer -/

/-- The last segment is behind a sensitive word, or cut behind a delimiter. -/
def HiddenEnd (toLowercase : List Char → List Char) (u : Uri) : Prop :=
  ∃ front last, u.segments = front ++ [last] ∧
    (isKey toLowercase (front.getLastD []) = true ∨
      hasKey toLowercase last = true ∧ ('=' ∈ last ∨ ':' ∈ last))

theorem hiddenSegments_concat (before : List Char) (segments : List (List Char))
    (last : List Char) : hiddenSegments toLowercase (isKey toLowercase before)
        (segments ++ [last]) =
      hiddenSegments toLowercase (isKey toLowercase before) segments ++
        [if isKey toLowercase (segments.getLastD before) then redacted
          else hiddenSegment toLowercase last] := by
  induction segments generalizing before with
  | nil => rfl
  | cons segment segments ih =>
      rw [List.cons_append, hiddenSegments, hiddenSegments, ih segment, List.getLastD_cons]
      rfl

theorem getLast_segment {front : List Char} {segments : List (List Char)} {last : List Char} :
    (front ++ pathText (segments ++ [last])).getLast? = ('/' :: last).getLast? := by
  unfold pathText
  rw [List.flatMap_append, List.flatMap_singleton, ← List.append_assoc,
    List.getLast?_append_cons]

/-- The last segment, when it is hidden, ends with its mark. -/
theorem HiddenEnd.getLast_shown {u : Uri} (h : HiddenEnd toLowercase u)
    (hlower : Lowercases toLowercase) (hmarked : u.marked = false) :
    (u.shown (hiddenSegments toLowercase false u.segments)).getLast? = some ']' := by
  obtain ⟨front, last, hsegments, hend⟩ := h
  have hconcat := @hiddenSegments_concat toLowercase [] front last
  rw [hlower.isKey_nil] at hconcat
  unfold Uri.shown
  rw [hmarked, if_neg Bool.false_ne_true, List.append_nil, hsegments, hconcat, getLast_segment]
  obtain hbehind | ⟨hkey, hdelimiter⟩ := hend
  · rw [if_pos hbehind]
    rfl
  · split
    · rfl
    · obtain hfree | ⟨start, delimiter, rest, rfl, heither, hstart⟩ := segment_cases last
      · obtain hmem | hmem := hdelimiter
        · exact absurd rfl (hfree _ hmem).1
        · exact absurd rfl (hfree _ hmem).2
      · rw [hiddenSegment_append heither hstart hkey, ← List.cons_append,
          List.getLast?_append_cons]
        rfl

/-- The output ends as the text before the fragment does when the last segment is kept. -/
theorem getLast_shown {u : Uri} (h : ¬ HiddenEnd toLowercase u)
    (hlower : Lowercases toLowercase) (hmarked : u.marked = false) :
    (u.shown (hiddenSegments toLowercase false u.segments)).getLast? = u.base.getLast? := by
  unfold Uri.shown Uri.base
  rw [hmarked, if_neg Bool.false_ne_true, List.append_nil]
  cases List.eq_nil_or_concat' u.segments with
  | inl hnil =>
      rw [hnil]
      change (u.scheme ++ "://".toList ++ _ ++ []).getLast? =
        (u.scheme ++ "://".toList ++ u.authority ++ []).getLast?
      rw [List.append_nil, List.append_nil, ← u.sanitizeAuthority_authority,
        List.getLast?_append, getLast_sanitizeAuthority, ← List.getLast?_append]
  | inr hconcat =>
      obtain ⟨front, last, hsegments⟩ := hconcat
      have hhidden := @hiddenSegments_concat toLowercase [] front last
      rw [hlower.isKey_nil] at hhidden
      have hbehind : ¬ isKey toLowercase (front.getLastD []) = true :=
        fun hkey => h ⟨front, last, hsegments, Or.inl hkey⟩
      have hlast : hiddenSegment toLowercase last = last := by
        cases hkey : hasKey toLowercase last with
        | false => exact hiddenSegment_of_no_key hkey
        | true =>
            apply hiddenSegment_of_free
            intro ch hch
            constructor
            · intro heq
              exact h ⟨front, last, hsegments, Or.inr ⟨hkey, Or.inl (heq ▸ hch)⟩⟩
            · intro heq
              exact h ⟨front, last, hsegments, Or.inr ⟨hkey, Or.inr (heq ▸ hch)⟩⟩
      rw [hsegments, hhidden, getLast_segment, getLast_segment, if_neg hbehind, hlast]

/-- What the sanitizer is for: the user, the query, the fragment and the values of sensitive
words are not in its output, which is the same when it is sanitized once more. -/
structure Sanitizes (toLowercase : List Char → List Char) (u : Uri) (uri : List Char) :
    Prop where
  hidden : sanitizeUri toLowercase uri = u.shown (hiddenSegments toLowercase false u.segments)
  stable : sanitizeUri toLowercase (sanitizeUri toLowercase uri) = sanitizeUri toLowercase uri

/-- The URIs that the sanitizer is fit for. -/
structure Sanitizable (toLowercase : List Char → List Char) (u : Uri) : Prop where
  chain : NoKeyChain toLowercase u.segments
  equals_first : EqualsFirst toLowercase ([] :: u.segments)
  last : u.marked = false →
    HiddenEnd toLowercase u ∨ ∀ ch ∈ u.base.getLast?, isWhitespace ch = false

theorem Lowercases.hidden_iff (hlower : Lowercases toLowercase) {u : Uri} {uri : List Char}
    (htrim : trimChars uri = u.text) : sanitizeUri toLowercase uri =
        u.shown (hiddenSegments toLowercase false u.segments) ↔
      NoKeyChain toLowercase u.segments ∧ EqualsFirst toLowercase ([] :: u.segments) := by
  rw [hlower.sanitizeUri_text htrim, ← hlower.keptSegments_path_iff]
  exact Uri.shown_inj (kept_chars u) (mem_hiddenSegments redacted_chars u.segment_chars)

theorem head_append {scheme rest other : List Char} :
    (scheme ++ "://".toList ++ rest).head? = (scheme ++ "://".toList ++ other).head? := by
  cases scheme with
  | nil => rfl
  | cons ch scheme => rfl

theorem head_shown {u : Uri} {uri : List Char} (htrim : trimChars uri = u.text)
    (segments : List (List Char)) : ∀ ch ∈ (u.shown segments).head?, isWhitespace ch = false := by
  have hhead := @head_trimChars uri
  rw [htrim] at hhead
  unfold Uri.text Uri.base at hhead
  unfold Uri.shown
  simp only [List.append_assoc] at hhead ⊢
  rw [← List.append_assoc, head_append, List.append_assoc]
  exact hhead

/-- An output without white space at its end is sanitized to itself. -/
theorem Lowercases.stable_of_last (hlower : Lowercases toLowercase) {u : Uri} {uri : List Char}
    (htrim : trimChars uri = u.text)
    (hlast : ∀ ch ∈ (sanitizeUri toLowercase uri).getLast?, isWhitespace ch = false) :
    sanitizeUri toLowercase (sanitizeUri toLowercase uri) = sanitizeUri toLowercase uri := by
  have hshown := hlower.sanitizeUri_text htrim
  have htext : trimChars (sanitizeUri toLowercase uri) = (u.output toLowercase).text := by
    rw [Uri.text_output, hshown]
    rw [hshown] at hlast
    exact trimChars_of_ends (head_shown htrim _) hlast
  rw [hlower.sanitizeUri_text htext, hlower.shown_output, hshown]

/-- No output for a text without a question mark and a fragment ends with white space. -/
theorem Lowercases.last_of_plain (hlower : Lowercases toLowercase) {uri : List Char}
    (hquery : '?' ∉ uri) (hfragment : '#' ∉ uri) :
    ∀ ch ∈ (sanitizeUri toLowercase uri).getLast?, isWhitespace ch = false := by
  have hsubset : ∀ ch ∈ trimChars uri, ch ∈ uri := by
    intro ch hch
    exact (List.dropWhile_suffix _).subset ((List.rdropWhile_prefix _ _).subset hch)
  rw [hlower.sanitizeUri_trimChars]
  obtain hsame | hmark := @getLast_keptUri toLowercase (trimChars uri)
    (fun h => hquery (hsubset _ h)) (fun h => hfragment (hsubset _ h))
  · rw [hsame]
    exact getLast_trimChars
  · rw [hmark]
    intro ch hch
    rw [← Option.some.inj hch]
    decide

theorem shown_plain {u : Uri} (hmarked : u.marked = false) :
    '?' ∉ u.shown (keptSegments toLowercase false u.segments) ∧
      '#' ∉ u.shown (keptSegments toLowercase false u.segments) := by
  have htext := @Uri.text_output toLowercase u
  have hquery : (u.output toLowercase).query = none := by
    change (if u.marked then some redacted else none) = none
    rw [hmarked, if_neg Bool.false_ne_true]
  have hfragment : (u.output toLowercase).fragment = none := rfl
  have hbase : (u.output toLowercase).text = (u.output toLowercase).base := by
    unfold Uri.text
    rw [hquery, hfragment]
    exact List.append_nil _
  rw [← htext, hbase]
  exact ⟨fun h => ((u.output toLowercase).base_chars _ h).1 rfl,
    fun h => ((u.output toLowercase).base_chars _ h).2 rfl⟩

/-- The sanitizer does what it is for exactly on the URIs that have no segment of secrets
behind two sensitive words in a row, no sensitive segment with a `:` before its first `=`, and
no white space that only the fragment keeps from being trimmed. -/
theorem sanitizes_iff (hlower : Lowercases toLowercase) {u : Uri} {uri : List Char}
    (htrim : trimChars uri = u.text) :
    Sanitizes toLowercase u uri ↔ Sanitizable toLowercase u := by
  constructor
  · intro h
    obtain ⟨hchain, hequals⟩ := (hlower.hidden_iff htrim).mp h.hidden
    refine ⟨hchain, hequals, fun hmarked => ?_⟩
    by_cases hend : HiddenEnd toLowercase u
    · exact Or.inl hend
    · right
      have hshown := hlower.sanitizeUri_text htrim
      obtain ⟨hquery, hfragment⟩ := @shown_plain toLowercase u hmarked
      rw [← hshown] at hquery hfragment
      have hlast := hlower.last_of_plain hquery hfragment
      rw [h.stable, h.hidden, getLast_shown hend hlower hmarked] at hlast
      exact hlast
  · intro h
    have hhidden := (hlower.hidden_iff htrim).mpr ⟨h.chain, h.equals_first⟩
    refine ⟨hhidden, hlower.stable_of_last htrim ?_⟩
    rw [hhidden]
    cases hmarked : u.marked with
    | true =>
        unfold Uri.shown
        rw [hmarked, if_pos rfl, List.getLast?_append_cons]
        intro ch hch
        rw [← Option.some.inj hch]
        decide
    | false =>
        by_cases hend : HiddenEnd toLowercase u
        · rw [hend.getLast_shown hlower hmarked]
          intro ch hch
          rw [← Option.some.inj hch]
          decide
        · rw [getLast_shown hend hlower hmarked]
          exact (h.last hmarked).resolve_left hend

end Hide

theorem chars_of_all {p : Char → Prop} [DecidablePred p] {text : List Char}
    (h : text.all (fun ch => decide (p ch)) = true) : ∀ ch ∈ text, p ch :=
  fun ch hch => of_decide_eq_true (List.all_eq_true.mp h ch hch)

def bucketUri (segments : List (List Char)) (h : segments.all (fun segment =>
    segment.all fun ch => decide (ch ≠ '/' ∧ ch ≠ '?' ∧ ch ≠ '#')) = true) : Uri where
  scheme := "s3".toList
  user := none
  host := "bucket".toList
  segments := segments
  query := none
  fragment := none
  scheme_chars := chars_of_all (by decide)
  user_chars := nofun
  host_chars := chars_of_all (by decide)
  segment_chars := fun segment hsegment => chars_of_all (List.all_eq_true.mp h segment hsegment)
  query_chars := nofun

/-- The URI `s3://bucket/token/secret/value`. -/
def chainUri : Uri :=
  bucketUri (["token", "secret", "value"].map String.toList) (by decide)

/-- The URI `s3://bucket/token:abc=def`. -/
def colonUri : Uri := bucketUri ["token:abc=def".toList] (by decide)

theorem chainUri_iff : Sanitizes (List.map Char.toLower) chainUri
      " s3://bucket/token/secret/value\n".toList ↔
    Sanitizable (List.map Char.toLower) chainUri :=
  sanitizes_iff lowercases_map_toLower (by decide)

/-- The value behind two sensitive words in a row is printed, and so is the text between a `:`
and a `=`. -/
theorem chainUri_leaks :
    (chainUri.text = "s3://bucket/token/secret/value".toList ∧
      sanitizeUri (List.map Char.toLower) chainUri.text =
        "s3://bucket/token/[REDACTED]/value".toList ∧
      ¬ Sanitizes (List.map Char.toLower) chainUri chainUri.text) ∧
    colonUri.text = "s3://bucket/token:abc=def".toList ∧
      sanitizeUri (List.map Char.toLower) colonUri.text =
        "s3://bucket/token:abc=[REDACTED]".toList ∧
      ¬ Sanitizes (List.map Char.toLower) colonUri colonUri.text := by
  refine ⟨⟨by decide, by decide, fun h => ?_⟩, by decide,
    by decide, fun h => ?_⟩
  · exact absurd h.hidden (by decide)
  · exact absurd h.hidden (by decide)

end DbtNova.Redaction
