import DbtNova.SqlLiterals

/-!
# Printed expressions with their literals

The parser prints a part of a statement as fixed text and literals. Of a literal, the
style tells what stands around it, and the body is what the printer writes between. Two
statements that differ in the contents of literals only are one statement whose literals
have two bodies each.
-/
namespace DbtNova.PrintedSql
open SqlLiterals

inductive StringPrefix where
  | plain
  | national
  | escaped
  | unicode
  | hex
  | byte
  | raw
  deriving DecidableEq, Repr

def StringPrefix.chars : StringPrefix → List Char
  | .plain => []
  | .national => ['N']
  | .escaped => ['E']
  | .unicode => ['U', '&']
  | .hex => ['X']
  | .byte => ['B']
  | .raw => ['R']

inductive LiteralStyle where
  | number (long : Bool)
  | singleQuoted (kind : StringPrefix)
  | tripleSingleQuoted (kind : StringPrefix)
  | doubleQuoted (kind : StringPrefix)
  | tripleDoubleQuoted (kind : StringPrefix)
  | dollarQuoted (tag : String)
  deriving DecidableEq, Repr

namespace LiteralStyle

def opening : LiteralStyle → List Char
  | .number _ => []
  | .singleQuoted kind => kind.chars ++ ['\'']
  | .tripleSingleQuoted kind => kind.chars ++ ['\'', '\'', '\'']
  | .doubleQuoted kind => kind.chars ++ ['"']
  | .tripleDoubleQuoted kind => kind.chars ++ ['"', '"', '"']
  | .dollarQuoted tag => '$' :: tag.toList ++ ['$']

def closing : LiteralStyle → List Char
  | .number long => if long then ['L'] else []
  | .singleQuoted _ => ['\'']
  | .tripleSingleQuoted _ => ['\'', '\'', '\'']
  | .doubleQuoted _ => ['"']
  | .tripleDoubleQuoted _ => ['"', '"', '"']
  | .dollarQuoted tag => '$' :: tag.toList ++ ['$']

def display (style : LiteralStyle) (body : String) : List Char :=
  style.opening ++ (body.toList ++ style.closing)

end LiteralStyle

structure Literal where
  style : LiteralStyle
  body : String
  deriving DecidableEq, Repr

structure LiteralPair where
  style : LiteralStyle
  left : String
  right : String
  deriving DecidableEq, Repr

def LiteralPair.first (pair : LiteralPair) : Literal := ⟨pair.style, pair.left⟩

def LiteralPair.second (pair : LiteralPair) : Literal := ⟨pair.style, pair.right⟩

inductive Piece (L : Type) where
  | fixed (text : String)
  | literal (value : L)
  deriving DecidableEq, Repr

abbrev Printed (L : Type) := List (Piece L)

def Piece.map {L M : Type} (f : L → M) : Piece L → Piece M
  | .fixed text => .fixed text
  | .literal value => .literal (f value)

def Printed.map {L M : Type} (f : L → M) (printed : Printed L) : Printed M :=
  List.map (Piece.map f) printed

def Piece.chars : Piece Literal → List Char
  | .fixed text => text.toList
  | .literal value => value.style.display value.body

def Printed.chars (printed : Printed Literal) : List Char := printed.flatMap Piece.chars

def firstChars (printed : Printed LiteralPair) : List Char :=
  Printed.chars (Printed.map LiteralPair.first printed)

def secondChars (printed : Printed LiteralPair) : List Char :=
  Printed.chars (Printed.map LiteralPair.second printed)

/-! ## Literals that the scanner takes as a whole -/

/-- The number is plain, and so is the text around it. -/
def numberApart (number before after : List Char) : Bool :=
  plainNumber number && before.count '\'' % 2 == 0 && opensNumber before && closesNumber after

/-- The quotes in the string are doubled, no string is open before it, and no quote
touches it. -/
def stringApart (kind : StringPrefix) (body before after : List Char) : Bool :=
  quotesPaired body && before.count '\'' % 2 == 0 &&
    (before ++ kind.chars).getLast? != some '\'' && after.head? != some '\''

def standsApart (style : LiteralStyle) (body : String) (before after : List Char) : Bool :=
  match style with
  | .number long => !long && numberApart body.toList before after
  | .singleQuoted kind | .tripleSingleQuoted kind => stringApart kind body.toList before after
  | .doubleQuoted _ | .tripleDoubleQuoted _ | .dollarQuoted _ => false

/-- Each literal has equal bodies, or stands apart with both of them. -/
def hiddenFrom : List Char → List Char → Printed LiteralPair → Bool
  | _, _, [] => true
  | before, before', .fixed text :: rest =>
      hiddenFrom (before ++ text.toList) (before' ++ text.toList) rest
  | before, before', .literal l :: rest =>
      (l.left == l.right ||
        (standsApart l.style l.left before (firstChars rest) &&
          standsApart l.style l.right before' (secondChars rest))) &&
      hiddenFrom (before ++ l.style.display l.left) (before' ++ l.style.display l.right) rest

def Hidden (printed : Printed LiteralPair) : Prop := hiddenFrom [] [] printed = true

instance (printed : Printed LiteralPair) : Decidable (Hidden printed) :=
  inferInstanceAs (Decidable (_ = true))

section Chars
variable (text : String) (l : LiteralPair) (rest : Printed LiteralPair)

theorem firstChars_fixed : firstChars (.fixed text :: rest) = text.toList ++ firstChars rest := rfl

theorem secondChars_fixed :
    secondChars (.fixed text :: rest) = text.toList ++ secondChars rest := rfl

theorem firstChars_literal :
    firstChars (.literal l :: rest) = l.style.display l.left ++ firstChars rest := rfl

theorem secondChars_literal :
    secondChars (.literal l :: rest) = l.style.display l.right ++ secondChars rest := rfl

end Chars

/-! ## The two texts are masked alike -/

theorem quotesPaired_append {xs ys : List Char} (hx : quotesPaired xs = true)
    (hy : quotesPaired ys = true) : quotesPaired (xs ++ ys) = true := by
  fun_induction quotesPaired xs with
  | case1 => exact hy
  | case2 rest ih =>
      rw [List.cons_append, List.cons_append, quotesPaired]
      exact ih hx
  | case3 rest hnot => cases hx
  | case4 c rest hquotes hquote ih =>
      rw [List.cons_append, quotesPaired]
      · exact ih hx
      · intro rest' hc _
        exact hquote hc
      · exact hquote

theorem count_of_quotesPaired {xs : List Char} (hx : quotesPaired xs = true) :
    xs.count '\'' % 2 = 0 := by
  fun_induction quotesPaired xs with
  | case1 => rfl
  | case2 rest ih =>
      rw [List.count_cons_self, List.count_cons_self]
      have hrest := ih hx
      omega
  | case3 rest hnot => cases hx
  | case4 c rest hquotes hquote ih =>
      have hc : c ≠ '\'' := fun hc => hquote hc
      rw [List.count_cons_of_ne hc]
      exact ih hx

/-- The body of a quoted string with all but the outermost quotes. -/
theorem display_quoted {kind : StringPrefix} {style : LiteralStyle} {body : String}
    (hstyle : style = .singleQuoted kind ∨ style = .tripleSingleQuoted kind)
    (hbody : quotesPaired body.toList = true) :
    ∃ inner, style.display body = kind.chars ++ '\'' :: (inner ++ ['\'']) ∧
      quotesPaired inner = true := by
  unfold LiteralStyle.display
  cases hstyle with
  | inl hstyle =>
      rw [hstyle]
      refine ⟨body.toList, ?_, hbody⟩
      rw [LiteralStyle.opening, LiteralStyle.closing, List.append_assoc, List.singleton_append]
  | inr hstyle =>
      rw [hstyle]
      refine ⟨'\'' :: '\'' :: (body.toList ++ ['\'', '\'']), ?_, ?_⟩
      · rw [LiteralStyle.opening, LiteralStyle.closing]
        simp
      · rw [quotesPaired]
        exact quotesPaired_append hbody rfl

theorem count_prefix (kind : StringPrefix) : kind.chars.count '\'' = 0 := by
  cases kind <;> decide

/-- Masked text in which no string is open and no number is begun. -/
structure Settled (done : List Char) : Prop where
  even : done.count '\'' % 2 = 0
  unsigned : done.getLast?.any isSign = false

/-- The scanner masks a literal behind text as one, and copies what is `taken` of the
text before it. -/
structure Taken (done part literal after taken : List Char) (bounds : Bool) : Prop where
  settled : Settled (done ++ part ++ literal)
  boundary : (done ++ part ++ literal).getLast?.all isNumericBoundary = bounds
  mask_eq : maskFrom done.getLast? (part ++ (literal ++ after)) =
    maskFrom done.getLast? taken ++
      '?' :: maskFrom (done ++ part ++ literal).getLast? after

section Take
variable {done part after : List Char}

theorem count_part {part : List Char} (hdone : Settled done)
    (hbefore : (done ++ part).count '\'' % 2 = 0) : part.count '\'' % 2 = 0 := by
  have heven := hdone.even
  rw [List.count_append] at hbefore
  omega

theorem number_taken {number : List Char} (hdone : Settled done)
    (h : numberApart number (done ++ part) after = true) :
    Taken done part number after (unsigned part) false := by
  unfold numberApart at h
  rw [Bool.and_eq_true, Bool.and_eq_true, Bool.and_eq_true, beq_iff_eq] at h
  obtain ⟨⟨⟨hplain, hbefore⟩, hopens⟩, hcloses⟩ := h
  obtain ⟨d, hlast, hd⟩ := plainNumber_last hplain
  have hunsigned : isSign d = false := by
    cases hsign : isSign d with
    | false => rfl
    | true =>
        cases sign_cases hsign with
        | inl heq => rw [heq] at hd; cases hd
        | inr heq => rw [heq] at hd; cases hd
  have hnone := numericLength_no_quote number
  rw [plainNumber_length hplain, List.take_length] at hnone
  have hend : (done ++ part ++ number).getLast? = some d := by
    rw [List.getLast?_append, hlast, Option.some_or]
  refine ⟨⟨?_, ?_⟩, ?_, ?_⟩
  · rw [List.count_append, hnone]
    exact hbefore
  · rw [hend, Option.any_some]
    exact hunsigned
  · rw [hend, Option.all_some]
    exact digit_not_boundary hd
  · rw [hend, ← hlast]
    exact maskFrom_number hdone.unsigned (count_part hdone hbefore) hplain hopens hcloses

theorem string_taken {kind : StringPrefix} {inner : List Char} (hdone : Settled done)
    (hinner : quotesPaired inner = true) (hbefore : (done ++ part).count '\'' % 2 = 0)
    (hquote : (done ++ part ++ kind.chars).getLast? ≠ some '\'')
    (hafter : after.head? ≠ some '\'') :
    Taken done part (kind.chars ++ '\'' :: (inner ++ ['\''])) after (part ++ kind.chars) true := by
  have hpaired := count_of_quotesPaired hinner
  have hpart := count_part hdone hbefore
  have hend : (done ++ part ++ (kind.chars ++ '\'' :: (inner ++ ['\'']))).getLast? =
      some '\'' := by
    have hsnoc : done ++ part ++ (kind.chars ++ '\'' :: (inner ++ ['\''])) =
        done ++ part ++ kind.chars ++ '\'' :: inner ++ ['\''] := by simp
    rw [hsnoc, List.getLast?_concat]
  have hlast : (part ++ kind.chars).getLast? ≠ some '\'' := by
    intro hlast
    rw [List.append_assoc, List.getLast?_append, hlast, Option.some_or] at hquote
    exact hquote rfl
  have heven : (part ++ kind.chars).count '\'' % 2 = 0 := by
    rw [List.count_append, count_prefix]
    exact hpart
  have hcount : (kind.chars ++ '\'' :: (inner ++ ['\''])).count '\'' = inner.count '\'' + 2 := by
    rw [List.count_append, count_prefix, List.count_cons_self, List.count_append,
      List.count_singleton_self]
    omega
  refine ⟨⟨?_, ?_⟩, ?_, ?_⟩
  · rw [List.count_append, hcount]
    omega
  · rw [hend]
    rfl
  · rw [hend]
    rfl
  · rw [hend, ← maskFrom_string hlast heven hinner hafter]
    simp

/-- What is copied of the text before a literal. -/
def copiedBefore (style : LiteralStyle) (part : List Char) : List Char :=
  match style with
  | .number _ => unsigned part
  | .singleQuoted kind | .tripleSingleQuoted kind => part ++ kind.chars
  | .doubleQuoted _ | .tripleDoubleQuoted _ | .dollarQuoted _ => part

/-- Whether a number can begin right behind a literal. -/
def boundsNumber : LiteralStyle → Bool
  | .number _ => false
  | .singleQuoted _ | .tripleSingleQuoted _ | .doubleQuoted _ | .tripleDoubleQuoted _
  | .dollarQuoted _ => true

theorem quoted_taken {kind : StringPrefix} {style : LiteralStyle} {body : String}
    (hstyle : style = .singleQuoted kind ∨ style = .tripleSingleQuoted kind)
    (hdone : Settled done) (h : stringApart kind body.toList (done ++ part) after = true) :
    Taken done part (style.display body) after (part ++ kind.chars) true := by
  unfold stringApart at h
  simp only [Bool.and_eq_true, beq_iff_eq, bne_iff_ne] at h
  obtain ⟨⟨⟨hbody, hbefore⟩, hquote⟩, hafter⟩ := h
  obtain ⟨inner, hdisplay, hinner⟩ := display_quoted hstyle hbody
  rw [hdisplay]
  exact string_taken hdone hinner hbefore hquote hafter

theorem standsApart_taken {style : LiteralStyle} {body : String} (hdone : Settled done)
    (h : standsApart style body (done ++ part) after = true) :
    Taken done part (style.display body) after (copiedBefore style part) (boundsNumber style) := by
  cases style with
  | number long =>
      obtain ⟨hlong, hapart⟩ := Bool.and_eq_true_iff.mp h
      rw [Bool.not_eq_true'] at hlong
      have hdisplay : (LiteralStyle.number long).display body = body.toList := by
        rw [hlong]
        exact List.append_nil body.toList
      rw [hdisplay]
      exact number_taken hdone hapart
  | singleQuoted kind => exact quoted_taken (.inl rfl) hdone h
  | tripleSingleQuoted kind => exact quoted_taken (.inr rfl) hdone h
  | doubleQuoted kind => cases h
  | tripleDoubleQuoted kind => cases h
  | dollarQuoted tag => cases h

end Take

theorem maskFrom_hidden {printed : Printed LiteralPair} {done done' part : List Char}
    (hdone : Settled done) (hdone' : Settled done')
    (hboundary : done.getLast?.all isNumericBoundary = done'.getLast?.all isNumericBoundary)
    (h : hiddenFrom (done ++ part) (done' ++ part) printed = true) :
    maskFrom done.getLast? (part ++ firstChars printed) =
      maskFrom done'.getLast? (part ++ secondChars printed) := by
  induction printed generalizing done done' part with
  | nil => exact maskFrom_congr hboundary _
  | cons piece rest ih =>
      cases piece with
      | fixed text =>
          rw [hiddenFrom, List.append_assoc, List.append_assoc] at h
          rw [firstChars_fixed, secondChars_fixed, ← List.append_assoc, ← List.append_assoc]
          exact ih hdone hdone' hboundary h
      | literal l =>
          rw [hiddenFrom, Bool.and_eq_true, Bool.or_eq_true, Bool.and_eq_true, beq_iff_eq] at h
          obtain ⟨hliteral, hrest⟩ := h
          rw [firstChars_literal, secondChars_literal]
          cases hliteral with
          | inl heq =>
              rw [heq, List.append_assoc, List.append_assoc] at hrest
              rw [heq, ← List.append_assoc, ← List.append_assoc]
              exact ih hdone hdone' hboundary hrest
          | inr hboth =>
              have hleft := standsApart_taken hdone hboth.1
              have hright := standsApart_taken hdone' hboth.2
              rw [hleft.mask_eq, hright.mask_eq, maskFrom_congr hboundary]
              have hbounds := hleft.boundary.trans hright.boundary.symm
              rw [← List.append_nil (done ++ part ++ l.style.display l.left),
                ← List.append_nil (done' ++ part ++ l.style.display l.right)] at hrest
              have htail := ih hleft.settled hright.settled hbounds hrest
              rw [List.nil_append, List.nil_append] at htail
              rw [htail]

/-- A hidden text is masked alike with both bodies of its literals. -/
theorem Hidden.mask_eq {printed : Printed LiteralPair} (h : Hidden printed) :
    maskSqlLiterals (Printed.chars (Printed.map LiteralPair.first printed)) =
      maskSqlLiterals (Printed.chars (Printed.map LiteralPair.second printed)) := by
  have hnil : Settled [] := ⟨rfl, rfl⟩
  have hstart : hiddenFrom ([] ++ []) ([] ++ []) printed = true := h
  exact maskFrom_hidden hnil hnil rfl hstart

end DbtNova.PrintedSql
