import Mathlib.Tactic.Common

/-!
# Masking the literals of an SQL text

`maskSqlLiterals` is a scanner over a printed expression: a single-quoted string and a
number become `?` each, every other character is copied. An index into the text is the
text from there on, with the character before it. The results say where a text can be cut
in two parts that are masked on their own.
-/
namespace DbtNova.SqlLiterals

def isNumericBoundary (c : Char) : Bool := !(c.isAlphanum || c == '_' || c == '$')

def isSign (c : Char) : Bool := c == '-' || c == '+'

def signLength (text : List Char) : ℕ := if text.head?.any isSign = true then 1 else 0

def digitsLength (text : List Char) : ℕ := (text.takeWhile Char.isDigit).length

def fractionLength : List Char → ℕ
  | [] => 0
  | c :: rest => if c = '.' ∧ digitsLength rest ≠ 0 then 1 + digitsLength rest else 0

def exponentLength : List Char → ℕ
  | [] => 0
  | c :: rest =>
      if (c = 'e' ∨ c = 'E') ∧ digitsLength (rest.drop (signLength rest)) ≠ 0 then
        1 + (signLength rest + digitsLength (rest.drop (signLength rest)))
      else 0

theorem fractionLength_cons (c : Char) (rest : List Char) :
    fractionLength (c :: rest) =
      if c = '.' ∧ digitsLength rest ≠ 0 then 1 + digitsLength rest else 0 := rfl

theorem exponentLength_cons (c : Char) (rest : List Char) :
    exponentLength (c :: rest) =
      if (c = 'e' ∨ c = 'E') ∧ digitsLength (rest.drop (signLength rest)) ≠ 0 then
        1 + (signLength rest + digitsLength (rest.drop (signLength rest)))
      else 0 := rfl

/-- How far the sign, the digits, the fraction and the exponent of a number reach. -/
def numericLength (text : List Char) : ℕ :=
  let whole := signLength text + digitsLength (text.drop (signLength text))
  let fraction := whole + fractionLength (text.drop whole)
  fraction + exponentLength (text.drop fraction)

def numericLiteralEnd (previous : Option Char) (text : List Char) : Option ℕ :=
  let length := numericLength text
  if previous.all isNumericBoundary = false then none
  else if length = 0 ∨ (signLength text = 1 ∧ length = 1) then none
  else if (text.drop length).head?.all isNumericBoundary = true then some length
  else none

/-- The rest of a string behind its opening quote; a doubled quote stays inside. -/
def stringLength : List Char → ℕ
  | [] => 0
  | '\'' :: '\'' :: rest => 2 + stringLength rest
  | '\'' :: _ => 1
  | _ :: rest => 1 + stringLength rest

/-- The length of the literal that the scanner finds here. -/
def literalLength (previous : Option Char) : List Char → Option ℕ
  | [] => none
  | c :: rest =>
      if c = '\'' then some (1 + stringLength rest)
      else if (isSign c = true ∧ rest.head?.any Char.isDigit = true) ∨ c.isDigit = true then
        numericLiteralEnd previous (c :: rest)
      else none

theorem literalLength_cons (previous : Option Char) (c : Char) (rest : List Char) :
    literalLength previous (c :: rest) =
      if c = '\'' then some (1 + stringLength rest)
      else if (isSign c = true ∧ rest.head?.any Char.isDigit = true) ∨ c.isDigit = true then
        numericLiteralEnd previous (c :: rest)
      else none := rfl

/-- The loop. Every turn takes a character, so the length of the text is fuel enough. -/
def maskLoop : ℕ → Option Char → List Char → List Char
  | 0, _, _ => []
  | _ + 1, _, [] => []
  | fuel + 1, previous, c :: rest =>
      match literalLength previous (c :: rest) with
      | some n => '?' :: maskLoop fuel ((c :: rest).take n).getLast? ((c :: rest).drop n)
      | none => c :: maskLoop fuel (some c) rest

def maskFrom (previous : Option Char) (text : List Char) : List Char :=
  maskLoop text.length previous text

def maskSqlLiterals (value : List Char) : List Char := maskFrom none value

/-! ## Turns of the loop -/

theorem literalLength_pos {previous : Option Char} {text : List Char} {n : ℕ}
    (h : literalLength previous text = some n) : 0 < n := by
  unfold literalLength at h
  split at h
  · cases h
  split_ifs at h with hquote hnumber
  · rw [← Option.some.inj h]
    omega
  · unfold numericLiteralEnd at h
    simp only at h
    split_ifs at h with hprevious hempty hend
    rw [← Option.some.inj h]
    omega

theorem maskLoop_eq {fuel : ℕ} {previous : Option Char} {text : List Char}
    (hfuel : text.length ≤ fuel) : maskLoop fuel previous text = maskFrom previous text := by
  unfold maskFrom
  induction fuel using Nat.strongRecOn generalizing previous text with
  | ind fuel ih =>
      cases text with
      | nil =>
          cases fuel with
          | zero => rfl
          | succ fuel => rfl
      | cons c rest =>
          cases fuel with
          | zero => cases hfuel
          | succ fuel =>
              have hrest : rest.length ≤ fuel := Nat.le_of_succ_le_succ hfuel
              rw [List.length_cons]
              unfold maskLoop
              cases hliteral : literalLength previous (c :: rest) with
              | none =>
                  simp only
                  rw [ih fuel (Nat.lt_succ_self fuel) hrest]
              | some n =>
                  have hn := literalLength_pos hliteral
                  have hdrop : ((c :: rest).drop n).length ≤ rest.length := by
                    rw [List.length_drop, List.length_cons]
                    omega
                  simp only
                  rw [ih fuel (Nat.lt_succ_self fuel) (Nat.le_trans hdrop hrest)]
                  by_cases heq : rest.length = fuel
                  · rw [heq, ih fuel (Nat.lt_succ_self fuel) (Nat.le_trans hdrop hrest)]
                  · rw [ih rest.length (by omega) hdrop]

section Turns
variable {previous : Option Char} {c : Char} {rest : List Char} {n : ℕ}

theorem maskFrom_masked (h : literalLength previous (c :: rest) = some n) :
    maskFrom previous (c :: rest) =
      '?' :: maskFrom ((c :: rest).take n).getLast? ((c :: rest).drop n) := by
  have hn := literalLength_pos h
  have hdrop : ((c :: rest).drop n).length ≤ rest.length := by
    rw [List.length_drop, List.length_cons]
    omega
  conv_lhs => unfold maskFrom
  rw [List.length_cons]
  unfold maskLoop
  simp only [h]
  rw [maskLoop_eq hdrop]

theorem maskFrom_copied (h : literalLength previous (c :: rest) = none) :
    maskFrom previous (c :: rest) = c :: maskFrom (some c) rest := by
  conv_lhs => unfold maskFrom
  rw [List.length_cons]
  unfold maskLoop
  simp only [h]
  rw [maskLoop_eq (Nat.le_refl _)]

/-- Of the character before, only whether it bounds a number counts. -/
theorem maskFrom_congr {previous' : Option Char}
    (h : previous.all isNumericBoundary = previous'.all isNumericBoundary) (text : List Char) :
    maskFrom previous text = maskFrom previous' text := by
  cases text with
  | nil => rfl
  | cons c rest =>
      have hliteral : literalLength previous (c :: rest) = literalLength previous' (c :: rest) := by
        unfold literalLength numericLiteralEnd
        rw [h]
      cases hlength : literalLength previous (c :: rest) with
      | none => rw [maskFrom_copied hlength, maskFrom_copied (hliteral ▸ hlength)]
      | some n => rw [maskFrom_masked hlength, maskFrom_masked (hliteral ▸ hlength)]

end Turns

/-! ## Where a text can be cut -/

theorem digit_ne {c e : Char} (h : c.isDigit = true) (he : e.isDigit = false) : c ≠ e := by
  intro hce
  rw [hce, he] at h
  cases h

theorem digit_not_boundary {c : Char} (h : c.isDigit = true) : isNumericBoundary c = false := by
  unfold isNumericBoundary Char.isAlphanum
  rw [h, Bool.or_true]
  rfl

theorem sign_cases {c : Char} (h : isSign c = true) : c = '-' ∨ c = '+' := by
  unfold isSign at h
  rw [Bool.or_eq_true, beq_iff_eq, beq_iff_eq] at h
  exact h

theorem digitsLength_append {us zs : List Char} (h : zs.head?.any Char.isDigit = false) :
    digitsLength (us ++ zs) = digitsLength us := by
  unfold digitsLength
  induction us with
  | nil =>
      cases zs with
      | nil => rfl
      | cons z zs =>
          have hz : z.isDigit = false := h
          rw [List.nil_append, List.takeWhile_cons_of_neg (by rw [hz]; exact Bool.false_ne_true)]
          rfl
  | cons u us ih =>
      rw [List.cons_append]
      by_cases hu : u.isDigit = true
      · rw [List.takeWhile_cons_of_pos hu, List.takeWhile_cons_of_pos hu, List.length_cons,
          List.length_cons, ih]
      · rw [List.takeWhile_cons_of_neg hu, List.takeWhile_cons_of_neg hu]

/-- A character behind a text at which no number of the text goes on. -/
structure EndsNumber (us : List Char) (z : Char) : Prop where
  not_digit : z.isDigit = false
  not_point : z ≠ '.'
  not_exponent : z ≠ 'e' ∧ z ≠ 'E'
  boundary : isNumericBoundary z = true
  not_signed : isSign z = true → us.getLast? ≠ some 'e' ∧ us.getLast? ≠ some 'E'

section Ends
variable {us zs : List Char} {z : Char}

theorem EndsNumber.drop (h : EndsNumber us z) (k : ℕ) : EndsNumber (us.drop k) z := by
  refine ⟨h.not_digit, h.not_point, h.not_exponent, h.boundary, ?_⟩
  intro hz
  rw [List.getLast?_drop]
  split
  · exact ⟨by simp, by simp⟩
  · exact h.not_signed hz

theorem EndsNumber.digitsLength_eq (h : EndsNumber us z) :
    digitsLength (us ++ z :: zs) = digitsLength us := digitsLength_append h.not_digit

theorem EndsNumber.fractionLength_eq (h : EndsNumber us z) :
    fractionLength (us ++ z :: zs) = fractionLength us := by
  cases us with
  | nil =>
      rw [List.nil_append, fractionLength_cons, if_neg fun hz => h.not_point hz.1]
      rfl
  | cons u us =>
      have hdigits : digitsLength (us ++ z :: zs) = digitsLength us := (h.drop 1).digitsLength_eq
      rw [List.cons_append, fractionLength_cons, fractionLength_cons, hdigits]

theorem signLength_le (text : List Char) : signLength text ≤ text.length := by
  unfold signLength
  cases text with
  | nil => exact Nat.le_refl 0
  | cons c rest =>
      rw [List.length_cons]
      split <;> omega

theorem EndsNumber.exponentLength_eq (h : EndsNumber us z) :
    exponentLength (us ++ z :: zs) = exponentLength us := by
  cases us with
  | nil =>
      have hz : ¬ (z = 'e' ∨ z = 'E') := not_or.mpr h.not_exponent
      rw [List.nil_append, exponentLength_cons, if_neg fun hand => hz hand.1]
      rfl
  | cons u us =>
      rw [List.cons_append, exponentLength_cons, exponentLength_cons]
      cases us with
      | cons v us =>
          have htail : EndsNumber (v :: us) z := h.drop 1
          have hsign : signLength (v :: us ++ z :: zs) = signLength (v :: us) := rfl
          rw [hsign, List.drop_append_of_le_length (signLength_le (v :: us)),
            (htail.drop (signLength (v :: us))).digitsLength_eq]
      | nil =>
          by_cases hu : u = 'e' ∨ u = 'E'
          · -- the exponent has neither a sign nor digits
            have hz : isSign z = false := by
              cases hz : isSign z with
              | false => rfl
              | true =>
                  have hlast := h.not_signed hz
                  cases hu with
                  | inl hu => exact absurd (by rw [hu]; rfl) hlast.1
                  | inr hu => exact absurd (by rw [hu]; rfl) hlast.2
            have hsign : signLength (z :: zs) = 0 := by
              unfold signLength
              rw [if_neg]
              rw [List.head?_cons, Option.any_some, hz]
              exact Bool.false_ne_true
            have hnone : digitsLength (z :: zs) = 0 := by
              have hdigits : digitsLength ([] ++ z :: zs) = digitsLength [] :=
                digitsLength_append h.not_digit
              exact hdigits
            rw [List.nil_append, hsign, List.drop_zero, hnone]
            rfl
          · simp only [hu, false_and, if_false]

end Ends

theorem digitsLength_le (text : List Char) : digitsLength text ≤ text.length :=
  (List.takeWhile_prefix Char.isDigit).length_le

theorem fractionLength_le (text : List Char) : fractionLength text ≤ text.length := by
  cases text with
  | nil => exact Nat.le_refl 0
  | cons c rest =>
      have hdigits := digitsLength_le rest
      rw [fractionLength_cons, List.length_cons]
      split <;> omega

theorem exponentLength_le (text : List Char) : exponentLength text ≤ text.length := by
  cases text with
  | nil => exact Nat.le_refl 0
  | cons c rest =>
      have hsign := signLength_le rest
      have hdigits := digitsLength_le (rest.drop (signLength rest))
      rw [List.length_drop] at hdigits
      rw [exponentLength_cons, List.length_cons]
      split <;> omega

theorem numericLength_le (text : List Char) : numericLength text ≤ text.length := by
  have hsign := signLength_le text
  have hdigits := digitsLength_le (text.drop (signLength text))
  have hfraction := fractionLength_le
    (text.drop (signLength text + digitsLength (text.drop (signLength text))))
  have hexponent := exponentLength_le (text.drop
    (signLength text + digitsLength (text.drop (signLength text)) + fractionLength
      (text.drop (signLength text + digitsLength (text.drop (signLength text))))))
  rw [List.length_drop] at hdigits hfraction hexponent
  unfold numericLength
  simp only
  omega

theorem EndsNumber.numericLength_eq {us zs : List Char} {z : Char} (h : EndsNumber us z)
    (hne : us ≠ []) : numericLength (us ++ z :: zs) = numericLength us := by
  have hsign : signLength (us ++ z :: zs) = signLength us := by
    cases us with
    | nil => exact absurd rfl hne
    | cons u us => rfl
  have hsignLe := signLength_le us
  have hdigits := digitsLength_le (us.drop (signLength us))
  rw [List.length_drop] at hdigits
  have hwholeLe : signLength us + digitsLength (us.drop (signLength us)) ≤ us.length := by omega
  have hfraction := fractionLength_le
    (us.drop (signLength us + digitsLength (us.drop (signLength us))))
  rw [List.length_drop] at hfraction
  unfold numericLength
  simp only
  rw [hsign, List.drop_append_of_le_length hsignLe, (h.drop _).digitsLength_eq,
    List.drop_append_of_le_length hwholeLe, (h.drop _).fractionLength_eq,
    List.drop_append_of_le_length (by omega), (h.drop _).exponentLength_eq]

theorem EndsNumber.numericLiteralEnd_eq {us zs : List Char} {z : Char} (h : EndsNumber us z)
    (hne : us ≠ []) (previous : Option Char) :
    numericLiteralEnd previous (us ++ z :: zs) = numericLiteralEnd previous us := by
  have hsign : signLength (us ++ z :: zs) = signLength us := by
    cases us with
    | nil => exact absurd rfl hne
    | cons u us => rfl
  have hend : ((us ++ z :: zs).drop (numericLength us)).head?.all isNumericBoundary =
      (us.drop (numericLength us)).head?.all isNumericBoundary := by
    rw [List.drop_append_of_le_length (numericLength_le us), List.head?_append]
    cases us.drop (numericLength us) with
    | nil => exact h.boundary
    | cons u rest => rfl
  unfold numericLiteralEnd
  simp only
  rw [h.numericLength_eq hne, hsign, hend]

/-- No quote belongs to a number. -/
theorem numericLength_no_quote (text : List Char) :
    (text.take (numericLength text)).count '\'' = 0 := by
  have hsign : ∀ cs : List Char, (cs.take (signLength cs)).count '\'' = 0 := by
    intro cs
    cases cs with
    | nil => rfl
    | cons c rest =>
        unfold signLength
        split
        next hc =>
          cases sign_cases hc with
          | inl hc => rw [hc]; rfl
          | inr hc => rw [hc]; rfl
        · rfl
  have hdigits : ∀ cs : List Char, (cs.take (digitsLength cs)).count '\'' = 0 := by
    intro cs
    have htake : cs.take (digitsLength cs) = cs.takeWhile Char.isDigit :=
      (List.prefix_iff_eq_take.mp (List.takeWhile_prefix Char.isDigit)).symm
    rw [htake, List.count_eq_zero]
    intro hmem
    have hquote := List.all_eq_true.mp (List.all_takeWhile (p := Char.isDigit) (l := cs)) _ hmem
    cases hquote
  have hfraction : ∀ cs : List Char, (cs.take (fractionLength cs)).count '\'' = 0 := by
    intro cs
    cases cs with
    | nil => rfl
    | cons c rest =>
        rw [fractionLength_cons]
        split
        next hc =>
          rw [Nat.add_comm, List.take_succ_cons, hc.1, List.count_cons_of_ne (by decide), hdigits]
        · rfl
  have hexponent : ∀ cs : List Char, (cs.take (exponentLength cs)).count '\'' = 0 := by
    intro cs
    cases cs with
    | nil => rfl
    | cons c rest =>
        rw [exponentLength_cons]
        split
        next hc =>
          have hne : c ≠ '\'' := by
            intro hquote
            rw [hquote] at hc
            exact absurd hc.1 (by decide)
          rw [Nat.add_comm, List.take_succ_cons, List.count_cons_of_ne hne, List.take_add,
            List.count_append, hsign, hdigits]
        · rfl
  unfold numericLength
  simp only [List.take_add, List.count_append]
  rw [hsign, hdigits, hfraction, hexponent]

/-- Whether a quote, a sign or a digit behind this character starts anew. -/
def cutsBefore (z p : Char) : Bool :=
  if z = '\'' then p != '\''
  else if isSign z = true then isNumericBoundary p
  else z.isDigit && (isNumericBoundary p && p != '.' && !isSign p)

/-- A text can be cut before this character. -/
def Splits (us : List Char) (z : Char) : Prop := us.getLast?.all (cutsBefore z) = true

theorem Splits.drop {us : List Char} {z : Char} (h : Splits us z) (k : ℕ) :
    Splits (us.drop k) z := by
  unfold Splits
  rw [List.getLast?_drop]
  split
  · rfl
  · exact h

theorem endsNumber_of_boundary {us : List Char} {z : Char} (hz : isNumericBoundary z = true)
    (hpoint : z ≠ '.')
    (hsigned : isSign z = true → us.getLast? ≠ some 'e' ∧ us.getLast? ≠ some 'E') :
    EndsNumber us z := by
  refine ⟨?_, hpoint, ⟨?_, ?_⟩, hz, hsigned⟩
  · cases hdigit : z.isDigit with
    | false => rfl
    | true =>
        rw [digit_not_boundary hdigit] at hz
        cases hz
  · intro he
    rw [he] at hz
    exact absurd hz (by decide)
  · intro he
    rw [he] at hz
    exact absurd hz (by decide)

section Cuts
variable {us zs : List Char} {c z : Char} {previous : Option Char}

theorem Splits.numericLiteralEnd_eq (h : Splits (c :: us) z)
    (hc : isSign c = true ∨ c.isDigit = true) :
    numericLiteralEnd previous (c :: us ++ z :: zs) = numericLiteralEnd previous (c :: us) := by
  unfold Splits at h
  by_cases hquote : z = '\''
  · have hends : EndsNumber (c :: us) z := by
      rw [hquote]
      exact endsNumber_of_boundary (by decide) (by decide) (fun hsign => absurd hsign (by decide))
    exact hends.numericLiteralEnd_eq (List.cons_ne_nil c us) previous
  by_cases hsign : isSign z = true
  · have hlast : ∀ e : Char, isNumericBoundary e = false → (c :: us).getLast? ≠ some e := by
      intro e he hlast
      rw [hlast, Option.all_some, cutsBefore, if_neg hquote, if_pos hsign, he] at h
      cases h
    have hz : isNumericBoundary z = true ∧ z ≠ '.' := by
      cases sign_cases hsign with
      | inl hz => rw [hz]; decide
      | inr hz => rw [hz]; decide
    have hends : EndsNumber (c :: us) z := endsNumber_of_boundary hz.1 hz.2
      (fun _ => ⟨hlast 'e' (by decide), hlast 'E' (by decide)⟩)
    exact hends.numericLiteralEnd_eq (List.cons_ne_nil c us) previous
  -- a digit: the character before it ends the number in both texts
  obtain ⟨vs, p, hsplit⟩ : ∃ vs p, c :: us = vs ++ [p] :=
    ⟨_, _, (List.dropLast_concat_getLast (List.cons_ne_nil c us)).symm⟩
  rw [hsplit, List.getLast?_concat, Option.all_some, cutsBefore, if_neg hquote, if_neg hsign] at h
  simp only [Bool.and_eq_true, bne_iff_ne, Bool.not_eq_true'] at h
  obtain ⟨-, ⟨hboundary, hpoint⟩, hunsigned⟩ := h
  have hends : EndsNumber vs p := endsNumber_of_boundary hboundary hpoint
    (fun hp => absurd hp (by rw [hunsigned]; exact Bool.false_ne_true))
  have hne : vs ≠ [] := by
    intro hnil
    rw [hnil] at hsplit
    obtain ⟨hcp, -⟩ := List.cons.inj hsplit
    cases hc with
    | inl hc =>
        rw [hcp, hunsigned] at hc
        cases hc
    | inr hc =>
        rw [hcp] at hc
        rw [digit_not_boundary hc] at hboundary
        cases hboundary
  rw [hsplit, List.append_assoc, List.singleton_append, hends.numericLiteralEnd_eq hne,
    hends.numericLiteralEnd_eq hne]

/-- A string that is closed before the cut is not affected by it. -/
theorem Splits.stringLength_eq (zs : List Char) (h : Splits us z) (hodd : us.count '\'' % 2 = 1) :
    stringLength (us ++ z :: zs) = stringLength us ∧ stringLength us ≤ us.length ∧
      (us.drop (stringLength us)).count '\'' % 2 = 0 := by
  fun_induction stringLength us with
  | case1 => cases hodd
  | case2 rest ih =>
      have hrest : rest.count '\'' % 2 = 1 := by
        rw [List.count_cons_self, List.count_cons_self] at hodd
        omega
      obtain ⟨heq, hle, hcount⟩ := ih (h.drop 2) hrest
      refine ⟨?_, ?_, ?_⟩
      · rw [List.cons_append, List.cons_append, stringLength, heq]
      · rw [List.length_cons, List.length_cons]
        omega
      · rw [Nat.add_comm, List.drop_succ_cons, List.drop_succ_cons]
        exact hcount
  | case3 rest hnot =>
      refine ⟨?_, ?_, ?_⟩
      · cases rest with
        | nil =>
            have hz : z ≠ '\'' := by
              intro hz
              rw [hz] at h
              cases h
            rw [List.singleton_append, stringLength]
            intro rest' heq
            exact hz (List.cons.inj heq).1
        | cons r rest =>
            rw [List.cons_append, List.cons_append, stringLength]
            intro rest' heq
            exact hnot rest (by rw [(List.cons.inj heq).1])
      · rw [List.length_cons]
        omega
      · rw [List.count_cons_self] at hodd
        rw [List.drop_succ_cons, List.drop_zero]
        omega
  | case4 c rest hquotes hquote ih =>
      have hc : c ≠ '\'' := fun hc => hquote hc
      have hrest : rest.count '\'' % 2 = 1 := by
        rw [List.count_cons_of_ne hc] at hodd
        exact hodd
      obtain ⟨heq, hle, hcount⟩ := ih (h.drop 1) hrest
      refine ⟨?_, ?_, ?_⟩
      · rw [List.cons_append, stringLength, heq]
        · intro rest' hquote' _
          exact hc hquote'
        · exact hc
      · rw [List.length_cons]
        omega
      · rw [Nat.add_comm, List.drop_succ_cons]
        exact hcount

end Cuts

section Append
variable {us zs : List Char} {c z : Char} {previous : Option Char}

theorem literalLength_cut (previous : Option Char) (zs : List Char) (h : Splits (c :: us) z)
    (heven : (c :: us).count '\'' % 2 = 0) :
    literalLength previous (c :: us ++ z :: zs) = literalLength previous (c :: us) ∧
      ∀ n, literalLength previous (c :: us) = some n →
        n ≤ (c :: us).length ∧ ((c :: us).drop n).count '\'' % 2 = 0 := by
  unfold literalLength
  rw [List.cons_append]
  by_cases hquote : c = '\''
  · have hodd : us.count '\'' % 2 = 1 := by
      rw [hquote, List.count_cons_self] at heven
      omega
    have htail : Splits us z := h.drop 1
    obtain ⟨heq, hle, hcount⟩ := htail.stringLength_eq zs hodd
    simp only [if_pos hquote, heq, true_and]
    intro n hn
    rw [← Option.some.inj hn, List.length_cons, Nat.add_comm, List.drop_succ_cons]
    exact ⟨by omega, hcount⟩
  have hnext : ((isSign c = true ∧ (us ++ z :: zs).head?.any Char.isDigit = true) ∨
      c.isDigit = true) ↔ ((isSign c = true ∧ us.head?.any Char.isDigit = true) ∨
      c.isDigit = true) := by
    cases us with
    | cons u us => rfl
    | nil =>
        -- a sign cannot stand before the cut if a digit stands behind it
        have hnot : ¬ (isSign c = true ∧ z.isDigit = true) := by
          intro hboth
          obtain ⟨hsign, hdigit⟩ := hboth
          have hz : ¬ isSign z = true := by
            intro hz
            cases sign_cases hz with
            | inl hz => rw [hz] at hdigit; cases hdigit
            | inr hz => rw [hz] at hdigit; cases hdigit
          have hcut : cutsBefore z c = true := h
          rw [cutsBefore, if_neg (digit_ne hdigit (by decide)), if_neg hz, hsign] at hcut
          simp at hcut
        simp only [List.nil_append, List.head?_cons, Option.any_some, List.head?_nil,
          Option.any_none, Bool.false_eq_true, and_false, false_or]
        exact ⟨fun hor => hor.resolve_left hnot, .inr⟩
  simp only [if_neg hquote, hnext]
  by_cases hnumber : (isSign c = true ∧ us.head?.any Char.isDigit = true) ∨ c.isDigit = true
  · have hhead : isSign c = true ∨ c.isDigit = true := hnumber.imp_left And.left
    simp only [if_pos hnumber]
    rw [← List.cons_append, h.numericLiteralEnd_eq hhead]
    refine ⟨rfl, ?_⟩
    intro n hn
    unfold numericLiteralEnd at hn
    simp only at hn
    split_ifs at hn
    rw [← Option.some.inj hn]
    refine ⟨numericLength_le (c :: us), ?_⟩
    have hnone := numericLength_no_quote (c :: us)
    have hsum : ((c :: us).take (numericLength (c :: us)) ++
        (c :: us).drop (numericLength (c :: us))).count '\'' = _ := List.count_append
    rw [List.take_append_drop] at hsum
    omega
  · simp only [if_neg hnumber, true_and]
    intro n hn
    cases hn

/-- Text in which every string is closed is masked on its own. -/
theorem maskFrom_append (h : Splits us z) (heven : us.count '\'' % 2 = 0) :
    maskFrom previous (us ++ z :: zs) =
      maskFrom previous us ++ maskFrom (us.getLast?.or previous) (z :: zs) := by
  induction hlength : us.length using Nat.strongRecOn generalizing us previous with
  | ind length ih =>
      cases us with
      | nil => rfl
      | cons c us =>
          obtain ⟨heq, hbounds⟩ := literalLength_cut previous zs h heven
          rw [List.cons_append] at heq ⊢
          cases hliteral : literalLength previous (c :: us) with
          | none =>
              have hc : c ≠ '\'' := by
                intro hc
                rw [hc] at hliteral
                cases hliteral
              have hcount : us.count '\'' % 2 = 0 := by
                rw [List.count_cons_of_ne hc] at heven
                exact heven
              have htail : Splits us z := h.drop 1
              have hshort : us.length < length := by
                rw [← hlength, List.length_cons]
                omega
              rw [hliteral] at heq
              rw [maskFrom_copied hliteral, maskFrom_copied heq, ih _ hshort htail hcount rfl,
                List.cons_append, List.getLast?_cons]
              cases us.getLast? with
              | none => rfl
              | some p => rfl
          | some n =>
              obtain ⟨hle, hcount⟩ := hbounds n hliteral
              have hn := literalLength_pos hliteral
              rw [hliteral] at heq
              have hshort : ((c :: us).drop n).length < length := by
                rw [List.length_drop, hlength]
                have hlong : 0 < length := by rw [← hlength, List.length_cons]; omega
                omega
              have hlast : (((c :: us).drop n).getLast?.or ((c :: us).take n).getLast?) =
                  (c :: us).getLast? := by
                rw [← List.getLast?_append, List.take_append_drop]
              rw [maskFrom_masked hliteral, maskFrom_masked heq,
                ← List.cons_append, List.take_append_of_le_length hle,
                List.drop_append_of_le_length hle, ih _ hshort (h.drop n) hcount rfl, hlast,
                List.cons_append, List.getLast?_cons, Option.some_or]

end Append

/-! ## Literals that stand apart -/

/-- All of the text is one number for the scanner, from its first digit to its last. -/
def plainNumber (number : List Char) : Bool :=
  number.head?.any Char.isDigit && number.getLast?.any Char.isDigit &&
    numericLength number == number.length

/-- Every quote of the text is doubled. -/
def quotesPaired : List Char → Bool
  | [] => true
  | '\'' :: '\'' :: rest => quotesPaired rest
  | '\'' :: _ => false
  | _ :: rest => quotesPaired rest

/-- A number can begin behind this text, perhaps with the sign that ends it. -/
def opensNumber (before : List Char) : Bool :=
  before.getLast?.all fun p =>
    if isSign p then before.dropLast.getLast?.all isNumericBoundary
    else isNumericBoundary p && p != '.'

/-- A number ends before this text. -/
def closesNumber (after : List Char) : Bool :=
  after.head?.all fun c => isNumericBoundary c && c != '.'

section Apart
variable {before number body after : List Char} {sign d : Char} {previous : Option Char}

theorem plainNumber_cons (h : plainNumber number = true) :
    ∃ d rest, number = d :: rest ∧ d.isDigit = true := by
  unfold plainNumber at h
  rw [Bool.and_eq_true, Bool.and_eq_true] at h
  cases number with
  | nil => cases h.1.1
  | cons d rest => exact ⟨d, rest, rfl, h.1.1⟩

theorem plainNumber_last (h : plainNumber number = true) :
    ∃ d, number.getLast? = some d ∧ d.isDigit = true := by
  unfold plainNumber at h
  rw [Bool.and_eq_true, Bool.and_eq_true] at h
  cases hlast : number.getLast? with
  | none =>
      rw [hlast] at h
      cases h.1.2
  | some d =>
      rw [hlast] at h
      exact ⟨d, rfl, h.1.2⟩

theorem plainNumber_length (h : plainNumber number = true) :
    numericLength number = number.length := by
  unfold plainNumber at h
  rw [Bool.and_eq_true, beq_iff_eq] at h
  exact h.2

theorem plainNumber_unsigned (h : plainNumber number = true) : signLength number = 0 := by
  obtain ⟨d, rest, hnumber, hd⟩ := plainNumber_cons h
  unfold signLength
  rw [if_neg]
  intro hsign
  rw [hnumber] at hsign
  cases sign_cases hsign with
  | inl heq => rw [heq] at hd; cases hd
  | inr heq => rw [heq] at hd; cases hd

/-- A number with or without a sign reaches to its end, whatever follows. -/
theorem numericLiteralEnd_of_closes {text : List Char} (hne : text ≠ [])
    (hlast : ∃ d, text.getLast? = some d ∧ d.isDigit = true)
    (hlength : numericLength text = text.length)
    (hsigned : ¬ (signLength text = 1 ∧ text.length = 1))
    (hprevious : previous.all isNumericBoundary = true) (hcloses : closesNumber after = true) :
    numericLiteralEnd previous (text ++ after) = some text.length := by
  have hpositive : text.length ≠ 0 := fun hzero => hne (List.length_eq_zero_iff.mp hzero)
  have halone : numericLiteralEnd previous text = some text.length := by
    unfold numericLiteralEnd
    simp only
    rw [hlength, hprevious, List.drop_length, if_neg (by decide),
      if_neg (not_or.mpr ⟨hpositive, hsigned⟩), List.head?_nil, Option.all_none, if_pos rfl]
  cases after with
  | nil =>
      rw [List.append_nil]
      exact halone
  | cons a after =>
      have ha : (isNumericBoundary a && a != '.') = true := hcloses
      rw [Bool.and_eq_true, bne_iff_ne] at ha
      obtain ⟨d, hd, hdigit⟩ := hlast
      have hends : EndsNumber text a := by
        apply endsNumber_of_boundary ha.1 ha.2
        intro _
        rw [hd]
        constructor
        · intro he
          exact digit_ne hdigit (by decide) (Option.some.inj he)
        · intro he
          exact digit_ne hdigit (by decide) (Option.some.inj he)
      rw [hends.numericLiteralEnd_eq hne]
      exact halone

theorem maskFrom_plain (hplain : plainNumber number = true)
    (hprevious : previous.all isNumericBoundary = true) (hcloses : closesNumber after = true) :
    maskFrom previous (number ++ after) = '?' :: maskFrom number.getLast? after := by
  obtain ⟨d, rest, hnumber, hd⟩ := plainNumber_cons hplain
  have hne : number ≠ [] := by
    rw [hnumber]
    exact List.cons_ne_nil d rest
  have hend := numericLiteralEnd_of_closes hne (plainNumber_last hplain)
    (plainNumber_length hplain) (by rw [plainNumber_unsigned hplain]; omega) hprevious hcloses
  have hliteral : literalLength previous (number ++ after) = some number.length := by
    rw [hnumber] at hend ⊢
    rw [List.cons_append] at hend ⊢
    rw [literalLength_cons, if_neg (digit_ne hd (by decide)), if_pos (.inr hd)]
    exact hend
  rw [hnumber, List.cons_append] at hliteral ⊢
  rw [maskFrom_masked hliteral, ← List.cons_append, List.take_left, List.drop_left]

theorem maskFrom_signed (hsign : isSign sign = true) (hplain : plainNumber number = true)
    (hprevious : previous.all isNumericBoundary = true) (hcloses : closesNumber after = true) :
    maskFrom previous (sign :: (number ++ after)) = '?' :: maskFrom number.getLast? after := by
  obtain ⟨d, rest, hnumber, hd⟩ := plainNumber_cons hplain
  have hone : signLength (sign :: number) = 1 := by
    unfold signLength
    rw [List.head?_cons, Option.any_some, if_pos hsign]
  have hlength : numericLength (sign :: number) = (sign :: number).length := by
    have hnumberLength := plainNumber_length hplain
    unfold numericLength at hnumberLength ⊢
    simp only [plainNumber_unsigned hplain, hone, Nat.zero_add, List.drop_zero] at hnumberLength ⊢
    rw [List.length_cons, ← hnumberLength]
    simp only [Nat.add_comm 1, Nat.add_right_comm _ 1, List.drop_succ_cons, List.drop_zero]
  have hlast : ∃ d, (sign :: number).getLast? = some d ∧ d.isDigit = true := by
    rw [hnumber, List.getLast?_cons_cons, ← hnumber]
    exact plainNumber_last hplain
  have hend := numericLiteralEnd_of_closes (List.cons_ne_nil sign number) hlast hlength
    (by rw [hnumber, List.length_cons, List.length_cons]; omega) hprevious hcloses
  have hquote : sign ≠ '\'' := by
    cases sign_cases hsign with
    | inl heq => rw [heq]; decide
    | inr heq => rw [heq]; decide
  have hliteral : literalLength previous (sign :: (number ++ after)) =
      some (sign :: number).length := by
    rw [literalLength_cons, if_neg hquote, if_pos]
    · exact hend
    · refine .inl ⟨hsign, ?_⟩
      rw [hnumber]
      exact hd
  rw [maskFrom_masked hliteral, ← List.cons_append, List.take_left, List.drop_left, hnumber,
    List.getLast?_cons_cons]

theorem stringLength_paired (hbody : quotesPaired body = true) (hafter : after.head? ≠ some '\'') :
    stringLength (body ++ '\'' :: after) = body.length + 1 := by
  fun_induction quotesPaired body with
  | case1 =>
      rw [List.nil_append, stringLength]
      · rfl
      · intro rest heq
        rw [heq] at hafter
        exact hafter rfl
  | case2 rest ih =>
      rw [List.cons_append, List.cons_append, stringLength, ih hbody, List.length_cons,
        List.length_cons]
      omega
  | case3 rest hnot => cases hbody
  | case4 c rest hquotes hquote ih =>
      rw [List.cons_append, stringLength, ih hbody, List.length_cons]
      · omega
      · intro rest' hc _
        exact hquote hc
      · exact hquote

theorem maskFrom_quoted (hbody : quotesPaired body = true) (hafter : after.head? ≠ some '\'') :
    maskFrom previous ('\'' :: (body ++ '\'' :: after)) = '?' :: maskFrom (some '\'') after := by
  have hliteral : literalLength previous ('\'' :: (body ++ '\'' :: after)) =
      some ('\'' :: (body ++ ['\''])).length := by
    rw [literalLength_cons, if_pos rfl, stringLength_paired hbody hafter, List.length_cons,
      List.length_append,
      List.length_singleton, Nat.add_comm]
  have hsplit : '\'' :: (body ++ '\'' :: after) = '\'' :: (body ++ ['\'']) ++ after := by
    rw [List.cons_append, List.append_assoc, List.singleton_append]
  rw [maskFrom_masked hliteral, hsplit, List.take_left, List.drop_left, ← List.cons_append,
    List.getLast?_concat]

end Apart

/-- Without a sign at its end, which a number takes with it. -/
def unsigned (text : List Char) : List Char :=
  if text.getLast?.any isSign = true then text.dropLast else text

section Parts
variable {done part number body after : List Char}

/-- What the scanner does with a number behind text of which `done` is masked. -/
theorem maskFrom_number (hdone : done.getLast?.any isSign = false)
    (heven : part.count '\'' % 2 = 0) (hplain : plainNumber number = true)
    (hopens : opensNumber (done ++ part) = true) (hcloses : closesNumber after = true) :
    maskFrom done.getLast? (part ++ (number ++ after)) =
      maskFrom done.getLast? (unsigned part) ++ '?' :: maskFrom number.getLast? after := by
  unfold opensNumber at hopens
  unfold unsigned
  by_cases hsign : part.getLast?.any isSign = true
  · rw [if_pos hsign]
    obtain ⟨s, hlast, hs⟩ := (Option.any_eq_true _ _).mp hsign
    obtain ⟨init, hpart⟩ := List.getLast?_eq_some_iff.mp hlast
    subst hpart
    rw [List.dropLast_concat]
    rw [← List.append_assoc, List.getLast?_concat, Option.all_some, if_pos hs,
      List.dropLast_concat, List.getLast?_append] at hopens
    have hquote : s ≠ '\'' := by
      intro hquote
      rw [hquote] at hs
      cases hs
    have hcut : Splits init s := by
      unfold Splits
      cases hinit : init.getLast? with
      | none => rfl
      | some p =>
          rw [hinit] at hopens
          rw [Option.all_some, cutsBefore, if_neg hquote, if_pos hs]
          exact hopens
    have hcount : init.count '\'' % 2 = 0 := by
      rw [List.count_append, List.count_singleton] at heven
      simpa [hquote] using heven
    rw [List.append_assoc, List.singleton_append, maskFrom_append hcut hcount,
      maskFrom_signed hs hplain hopens hcloses]
  · rw [if_neg hsign]
    obtain ⟨d, rest, hnumber, hd⟩ := plainNumber_cons hplain
    rw [Bool.not_eq_true] at hsign
    rw [List.getLast?_append] at hopens
    have hcut : Splits part d := by
      unfold Splits
      cases hpart : part.getLast? with
      | none => rfl
      | some p =>
          rw [hpart] at hsign hopens
          have hp : isSign p = false := hsign
          rw [Option.some_or, Option.all_some, hp, if_neg Bool.false_ne_true] at hopens
          have hunsigned : ¬ isSign d = true := by
            intro hs
            cases sign_cases hs with
            | inl heq => rw [heq] at hd; cases hd
            | inr heq => rw [heq] at hd; cases hd
          rw [Option.all_some, cutsBefore, if_neg (digit_ne hd (by decide)), if_neg hunsigned, hd,
            hopens, hp]
          rfl
    have hprevious : (part.getLast?.or done.getLast?).all isNumericBoundary = true := by
      cases hor : part.getLast?.or done.getLast? with
      | none => rfl
      | some p =>
          have hp : isSign p = false := by
            cases hpart : part.getLast? with
            | none =>
                rw [hpart, Option.none_or] at hor
                rw [hor] at hdone
                exact hdone
            | some q =>
                rw [hpart, Option.some_or] at hor
                rw [hpart, hor] at hsign
                exact hsign
          rw [hor, Option.all_some, hp, if_neg Bool.false_ne_true, Bool.and_eq_true] at hopens
          exact hopens.1
    have hmask := maskFrom_plain hplain hprevious hcloses
    rw [hnumber, List.cons_append] at hmask ⊢
    rw [maskFrom_append hcut heven, hmask]

/-- What the scanner does with a string behind text that leaves no string open. -/
theorem maskFrom_string {previous : Option Char} (hpart : part.getLast? ≠ some '\'')
    (heven : part.count '\'' % 2 = 0) (hbody : quotesPaired body = true)
    (hafter : after.head? ≠ some '\'') :
    maskFrom previous (part ++ '\'' :: (body ++ '\'' :: after)) =
      maskFrom previous part ++ '?' :: maskFrom (some '\'') after := by
  have hcut : Splits part '\'' := by
    unfold Splits
    cases hlast : part.getLast? with
    | none => rfl
    | some p =>
        have hp : p ≠ '\'' := by
          intro hp
          rw [hlast, hp] at hpart
          exact hpart rfl
        rw [Option.all_some, cutsBefore, if_pos rfl, bne_iff_ne]
        exact hp
  rw [maskFrom_append hcut heven, maskFrom_quoted hbody hafter]

end Parts

end DbtNova.SqlLiterals
