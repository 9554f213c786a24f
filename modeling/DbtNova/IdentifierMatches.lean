import DbtNova.LeftmostChoice
import DbtNova.Utf8

/-!
# The places of a column name in a text

`identifier_match_positions` of `tools/column_references.rs`. The loop goes on behind every
occurrence it finds, also behind one that it rejects, so an occurrence that starts inside a rejected
one is never looked at.
-/
namespace DbtNova.IdentifierMatches
open LeftmostChoice Utf8

abbrev Str := List Char

def isIdentifierByte (byte : UInt8) : Bool :=
  (Char.ofUInt8 byte).isAlphanum || byte == '_'.toUInt8

/-- `before_ok && after_ok`. -/
def standsAlone (bytes : List UInt8) (start stop : ℕ) : Bool :=
  (start == 0 || !bytes[start - 1]?.any isIdentifierByte) &&
    (bytes.length ≤ stop || !bytes[stop]?.any isIdentifierByte)

/-- Every turn moves the cursor on, so the fuel does not run out. -/
def matchPositionsFrom (haystack needle : Str) : ℕ → ℕ → Checked (List ℕ)
  | 0, _ => .ok []
  | fuel + 1, cursor => do
      let tail ← sliceFrom haystack cursor
      match find needle tail with
      | none => return []
      | some found => do
          let start := cursor + found
          let stop := start + byteLen needle
          let positions ← matchPositionsFrom haystack needle fuel stop
          return if standsAlone (encode haystack) start stop then start :: positions else positions

def identifierMatchPositions (text identifier : Str) : Checked (List ℕ) :=
  let needle := lower (Text.trimChars identifier)
  if needle.isEmpty then .ok []
  else matchPositionsFrom (lower text) needle (byteLen (lower text) + 1) 0

/-! ### Occurrences -/

section Occurrences
variable {haystack needle front tail : Str} {p q fuel found : ℕ}

def OccursAt (needle haystack : Str) (p : ℕ) : Prop :=
  ∃ front back, haystack = front ++ needle ++ back ∧ byteLen front = p

/-- The occurrences that the loop finds, kept or not: those of `str::match_indices`. -/
def matchIndicesFrom (needle : Str) : ℕ → ℕ → Str → List ℕ
  | 0, _, _ => []
  | fuel + 1, cursor, tail =>
      match find needle tail with
      | none => []
      | some found =>
          let stop := found + byteLen needle
          match sliceFrom tail stop with
          | .error _ => []
          | .ok rest =>
              (cursor + found) :: matchIndicesFrom needle fuel (cursor + stop) rest

def matchIndices (haystack needle : Str) : List ℕ :=
  matchIndicesFrom needle (byteLen haystack + 1) 0 haystack

theorem exists_find (h : find needle tail = some found) :
    ∃ before rest, tail = before ++ needle ++ rest ∧ byteLen before = found ∧
      sliceFrom tail (found + byteLen needle) = .ok rest ∧
      ∀ q, OccursAt needle tail q → found ≤ q := by
  obtain ⟨before, rest, rfl, rfl, hfirst⟩ := find_spec h
  refine ⟨before, rest, rfl, rfl, ?_, ?_⟩
  · rw [← byteLen_append]
    exact sliceFrom_front (before ++ needle) rest
  · rintro q ⟨before', back, hsame, rfl⟩
    have hle := hfirst before' back hsame
    have hleft : before <+: before ++ needle ++ rest := ⟨needle ++ rest, by rw [List.append_assoc]⟩
    have hright : before' <+: before ++ needle ++ rest :=
      ⟨needle ++ back, by rw [hsame, List.append_assoc]⟩
    obtain ⟨between, hbefore⟩ := List.prefix_of_prefix_length_le hleft hright hle
    rw [← hbefore, byteLen_append]
    exact Nat.le_add_right _ _

/-- The occurrences behind a place are those of the rest of the text. -/
theorem occursAt_append_iff (hq : byteLen front ≤ q) :
    OccursAt needle (front ++ tail) q ↔ OccursAt needle tail (q - byteLen front) := by
  constructor
  · rintro ⟨front', back, hsame, rfl⟩
    rw [List.append_assoc] at hsame
    obtain ⟨between, rfl, htail⟩ := exists_between hsame hq
    refine ⟨between, back, by rw [htail, List.append_assoc], ?_⟩
    rw [byteLen_append, Nat.add_sub_cancel_left]
  · rintro ⟨between, back, rfl, hlen⟩
    refine ⟨front ++ between, back, by simp only [List.append_assoc], ?_⟩
    rw [byteLen_append, hlen]
    omega

/-- The place of an occurrence and the place behind it. -/
abbrev IsSelection (needle : Str) (P : ℕ → Prop) (chosen : List ℕ) : Prop :=
  Leftmost id (· + byteLen needle) P chosen

theorem matchIndicesFrom_leftmost (front : Str) (hneedle : 0 < byteLen needle)
    (hfuel : byteLen tail < fuel) :
    IsSelection needle (fun q => OccursAt needle (front ++ tail) q ∧ byteLen front ≤ q)
      (matchIndicesFrom needle fuel (byteLen front) tail) := by
  induction fuel generalizing front tail with
  | zero => omega
  | succ fuel ih =>
      unfold matchIndicesFrom
      cases hfind : find needle tail with
      | none =>
          refine leftmost_nil ?_
          rintro q ⟨hoccurs, hq⟩
          obtain ⟨before, back, hsame, -⟩ := (occursAt_append_iff hq).mp hoccurs
          exact find_none hfind before back hsame
      | some found =>
          obtain ⟨before, rest, rfl, rfl, hslice, hfirst⟩ := exists_find hfind
          have hwhole : front ++ (before ++ needle ++ rest) = (front ++ before ++ needle) ++ rest := by
            simp only [List.append_assoc]
          have hcursor : byteLen front + (byteLen before + byteLen needle) =
              byteLen (front ++ before ++ needle) := by
            simp only [byteLen_append]
            omega
          simp only [hslice]
          refine leftmost_cons ⟨⟨front ++ before, rest, ?_, byteLen_append front before⟩, ?_⟩ ?_ ?_
          · simp only [List.append_assoc]
          · exact Nat.le_add_right _ _
          · rintro q ⟨hoccurs, hq⟩
            have hle := hfirst _ ((occursAt_append_iff hq).mp hoccurs)
            simp only [id]
            omega
          · rw [hcursor, hwhole]
            refine (ih _ ?_).congr ?_
            · simp only [byteLen_append] at hfuel
              omega
            · intro q
              simp only [byteLen_append, id]
              constructor
              · rintro ⟨hoccurs, hq⟩
                exact ⟨⟨hoccurs, by omega⟩, by omega⟩
              · rintro ⟨⟨hoccurs, -⟩, hq⟩
                exact ⟨hoccurs, by omega⟩

theorem matchIndices_leftmost (hneedle : 0 < byteLen needle) (haystack : Str) :
    IsSelection needle (OccursAt needle haystack) (matchIndices haystack needle) := by
  have hall := matchIndicesFrom_leftmost [] hneedle (Nat.lt_succ_self (byteLen haystack))
  exact hall.congr fun q => and_iff_left (Nat.zero_le q)

/-- The loop keeps the occurrences that stand alone, and never slices inside a character. -/
theorem matchPositionsFrom_eq (needle : Str) (fuel : ℕ) (front tail : Str) :
    matchPositionsFrom (front ++ tail) needle fuel (byteLen front) =
      .ok ((matchIndicesFrom needle fuel (byteLen front) tail).filter fun start =>
        standsAlone (encode (front ++ tail)) start (start + byteLen needle)) := by
  induction fuel generalizing front tail with
  | zero => rfl
  | succ fuel ih =>
      unfold matchPositionsFrom matchIndicesFrom
      simp only [sliceFrom_front, bind, Except.bind]
      cases hfind : find needle tail with
      | none => rfl
      | some found =>
          obtain ⟨before, rest, rfl, rfl, hslice, -⟩ := exists_find hfind
          have hwhole : front ++ (before ++ needle ++ rest) = (front ++ before ++ needle) ++ rest := by
            simp only [List.append_assoc]
          have hcursor : byteLen front + (byteLen before + byteLen needle) =
              byteLen (front ++ before ++ needle) := by
            simp only [byteLen_append]
            omega
          have hrest := ih (front ++ before ++ needle) rest
          simp only [hslice]
          rw [Nat.add_assoc, hcursor, hwhole, hrest, List.filter_cons, Nat.add_assoc, hcursor]
          rfl

end Occurrences

/-! ### Which occurrences are found -/

section Positions
variable {text identifier : Str}

/-- An occurrence of the name that stands alone, in letters of either case. -/
def Accepted (text identifier : Str) (start : ℕ) : Prop :=
  standsAlone (encode (lower text)) start
    (start + byteLen (lower (Text.trimChars identifier))) = true

instance : DecidablePred (Accepted text identifier) := fun _ => instDecidableEqBool _ _

theorem identifierMatchPositions_eq (h : Text.trimChars identifier ≠ []) :
    identifierMatchPositions text identifier =
      .ok ((matchIndices (lower text) (lower (Text.trimChars identifier))).filter fun start =>
        Accepted text identifier start) := by
  have hneedle : (lower (Text.trimChars identifier)).isEmpty = false := by
    rwa [List.isEmpty_eq_false_iff, lower, ne_eq, List.map_eq_nil_iff]
  have hloop := matchPositionsFrom_eq (lower (Text.trimChars identifier))
    (byteLen (lower text) + 1) [] (lower text)
  simp only [identifierMatchPositions, hneedle, Bool.false_eq_true, if_false]
  rw [List.nil_append] at hloop
  exact hloop.trans (congrArg Except.ok (List.filter_congr fun _ _ => Bool.decide_eq_true.symm))

/-- The occurrences that stand alone, as a scan for them only would choose them. -/
def IsAcceptedSelection (text identifier : Str) (positions : List ℕ) : Prop :=
  IsSelection (lower (Text.trimChars identifier))
    (fun p => OccursAt (lower (Text.trimChars identifier)) (lower text) p ∧
      Accepted text identifier p) positions

/-- An occurrence that stands alone starts inside one of the `str::match_indices` that does not. -/
def HidesAccepted (text identifier : Str) : Prop :=
  ∃ p ∈ matchIndices (lower text) (lower (Text.trimChars identifier)),
    ¬ Accepted text identifier p ∧
      ∃ q, OccursAt (lower (Text.trimChars identifier)) (lower text) q ∧
        Accepted text identifier q ∧
        p < q ∧ q < p + byteLen (lower (Text.trimChars identifier))

theorem byteLen_needle_pos (h : Text.trimChars identifier ≠ []) :
    0 < byteLen (lower (Text.trimChars identifier)) := by
  rw [byteLen_lower]
  exact byteLen_pos_iff.mpr h

theorem isAcceptedSelection_iff (h : Text.trimChars identifier ≠ []) :
    IsAcceptedSelection text identifier
        ((matchIndices (lower text) (lower (Text.trimChars identifier))).filter fun start =>
          Accepted text identifier start) ↔
      ¬ HidesAccepted text identifier := by
  have hall := matchIndices_leftmost (byteLen_needle_pos h) (lower text)
  refine hall.filter_iff.trans ?_
  constructor
  · rintro hnone ⟨p, hp, hrejected, q, hq, haccepted, hlt, hinside⟩
    exact hnone p hp hrejected q hq haccepted ⟨hlt.le, hinside⟩
  · rintro hnone p hp hrejected q hq haccepted ⟨hle, hinside⟩
    have hne : p ≠ q := by
      rintro rfl
      exact hrejected haccepted
    exact hnone ⟨p, hp, hrejected, q, hq, haccepted, lt_of_le_of_ne hle hne, hinside⟩

/-- The byte before a place inside an occurrence is one of the name. -/
theorem OccursAt.getElem? {needle haystack : Str} {p q : ℕ} (h : OccursAt needle haystack p)
    (hlt : p < q) (hinside : q < p + byteLen needle) :
    (encode haystack)[q - 1]? = (encode needle)[q - 1 - p]? := by
  obtain ⟨front, back, rfl, rfl⟩ := h
  rw [← length_encode] at hlt ⊢
  rw [← length_encode, ← length_encode needle] at hinside
  rw [encode_append, encode_append, List.append_assoc,
    List.getElem?_append_right (by omega), List.getElem?_append_left (by omega)]

/-- Nothing is hidden where the name has only identifier bytes. -/
theorem not_hidesAccepted
    (hname : ∀ b ∈ encode (lower (Text.trimChars identifier)), isIdentifierByte b = true)
    (h : Text.trimChars identifier ≠ []) : ¬ HidesAccepted text identifier := by
  rintro ⟨p, hp, -, q, -, haccepted, hlt, hinside⟩
  have hoccurs := (matchIndices_leftmost (byteLen_needle_pos h) (lower text)).mem p hp
  have hbyte := hoccurs.getElem? hlt hinside
  have hbound : q - 1 - p < (encode (lower (Text.trimChars identifier))).length := by
    rw [length_encode]
    omega
  rw [List.getElem?_eq_getElem hbound] at hbyte
  have hidentifier := hname _ (List.getElem_mem hbound)
  simp only [Accepted, standsAlone, hbyte, Option.any_some, hidentifier, Bool.and_eq_true,
    Bool.or_eq_true, beq_iff_eq, Bool.not_true, Bool.false_eq_true, or_false] at haccepted
  omega

theorem positions_selected_iff (h : Text.trimChars identifier ≠ []) :
    ∃ positions, identifierMatchPositions text identifier = .ok positions ∧
      (IsAcceptedSelection text identifier positions ↔ ¬ HidesAccepted text identifier) :=
  ⟨_, identifierMatchPositions_eq h, isAcceptedSelection_iff h⟩

theorem positions_selected_word :
    ∃ positions,
      identifierMatchPositions "select t.Type from t".toList "type".toList = .ok positions ∧
      (IsAcceptedSelection "select t.Type from t".toList "type".toList positions ↔
        ¬ HidesAccepted "select t.Type from t".toList "type".toList) :=
  positions_selected_iff (by decide)

/-- Behind `x` the first occurrence is rejected, and the second one starts inside it. -/
theorem second_occurrence_hidden :
    identifierMatchPositions "xa.a.a".toList "a.a".toList = .ok [] ∧
      OccursAt "a.a".toList "xa.a.a".toList 3 ∧ Accepted "xa.a.a".toList "a.a".toList 3 ∧
      ¬ IsAcceptedSelection "xa.a.a".toList "a.a".toList [] := by
  have hoccurs : OccursAt "a.a".toList "xa.a.a".toList 3 := ⟨"xa.".toList, [], by decide, by decide⟩
  have haccepted : Accepted "xa.a.a".toList "a.a".toList 3 := by decide
  refine ⟨by decide, hoccurs, haccepted, fun hselection => ?_⟩
  obtain ⟨p, hp, -⟩ := hselection.covers 3 ⟨hoccurs, haccepted⟩
  exact absurd hp List.not_mem_nil

end Positions

end DbtNova.IdentifierMatches
