import DbtNova.ColumnDefinition
import DbtNova.LeftmostChoice
import DbtNova.QuotedParens
import DbtNova.SqlLexer

/-!
# The calls of a macro in a text

What `extract_macro_calls` and `normalize_sql_for_parser` of `manifest/lineage_sql.rs` make of a
text. A call is a name that stands alone, blanks, and a parenthesis with the one that matches it.
The scan takes openings from the left and passes over what each of them encloses. An opening that
nothing closes ends the scan, so it hides every call behind it.
-/
namespace DbtNova.MacroCalls
open ColumnDefinition LeftmostChoice Utf8

/-! ### Classes of bytes -/

def isBlank (c : Char) : Bool :=
  c == ' ' || c == '\t' || c == '\n' || c == '\x0c' || c == '\r'

section Characters
variable {c d : Char}

theorem isBlank_ascii (h : isBlank c = true) : c.toNat < 128 := by
  simp only [isBlank, Bool.or_eq_true, beq_iff_eq] at h
  obtain (((rfl | rfl) | rfl) | rfl) | rfl := h <;> decide

theorem isIdentChar_class : AsciiClass isIdentChar isWordChar := wordClass

theorem isAsciiWhitespace_class : AsciiClass isAsciiWhitespace isBlank := by
  refine ⟨fun c hc => ?_, fun b hb => ?_, fun c hc => ?_⟩
  · have hbyte : ∀ d : Char, d.toNat < 128 → d.toUInt8 = UInt8.ofNat d.toNat →
        (UInt8.ofNat c.toNat == d.toUInt8) = (c == d) := by
      intro d hd heq
      rw [heq, byte_beq hc hd]
    rw [isAsciiWhitespace, isBlank, hbyte ' ' (by decide) rfl, hbyte '\t' (by decide) rfl,
      hbyte '\n' (by decide) rfl, hbyte '\x0c' (by decide) rfl, hbyte '\r' (by decide) rfl]
  · rw [Bool.eq_false_iff]
    intro h
    simp only [isAsciiWhitespace, Bool.or_eq_true, beq_iff_eq] at h
    obtain (((rfl | rfl) | rfl) | rfl) | rfl := h <;> exact absurd hb (by decide)
  · rw [Bool.eq_false_iff]
    exact fun h => absurd (isBlank_ascii h) (Nat.not_lt.mpr hc)

end Characters

/-! ### The scans over characters -/

section Bytes
variable {front name rest : Str}

theorem any_head_toLower (s : Str) :
    (lower s).head?.any isWordChar = s.head?.any isWordChar := by
  cases s with
  | nil => rfl
  | cons c s => exact isWordChar_toLower c

theorem any_getLast_toLower (s : Str) :
    (lower s).getLast?.any isWordChar = s.getLast?.any isWordChar := by
  unfold lower
  rw [List.getLast?_map]
  cases s.getLast? with
  | none => rfl
  | some c => exact isWordChar_toLower c

/-- A name stands alone where no character of a name stands next to it. -/
theorem boundaryOk_eq (front name rest : Str) :
    boundaryOk (encode (lower (front ++ (name ++ rest)))) (byteLen front)
        (byteLen (front ++ name)) =
      (!front.getLast?.any isWordChar && !rest.head?.any isWordChar) := by
  have hlower : lower (front ++ (name ++ rest)) = lower front ++ (lower name ++ lower rest) := by
    unfold lower
    rw [List.map_append, List.map_append]
  have hstop : byteLen (front ++ name) = byteLen (lower front ++ lower name) := by
    rw [byteLen_append, byteLen_append, byteLen_lower, byteLen_lower]
  have hbefore : (byteLen front == 0 || !(encode (lower front ++ (lower name ++ lower rest)))[
      byteLen front - 1]?.any isIdentChar) = !front.getLast?.any isWordChar := by
    by_cases hfront : front = []
    · obtain rfl := hfront
      rfl
    · have hne : lower front ≠ [] := fun h => hfront (List.map_eq_nil_iff.mp h)
      have hpos := byteLen_pos_iff.mpr hfront
      have hzero : (byteLen front == 0) = false := beq_false_of_ne (by omega)
      rw [hzero, Bool.false_or, ← byteLen_lower front, isIdentChar_class.any_before hne,
        any_getLast_toLower]
  have hafter : (decide ((encode (lower front ++ (lower name ++ lower rest))).length ≤
      byteLen (front ++ name)) || !(encode (lower front ++ (lower name ++ lower rest)))[
        byteLen (front ++ name)]?.any isIdentChar) = !rest.head?.any isWordChar := by
    rw [hstop, ← List.append_assoc, isIdentChar_class.any_behind, any_head_toLower]
    cases rest with
    | nil =>
        rw [length_encode, byteLen_append _ (lower [])]
        exact Bool.or_true _
    | cons c rest =>
        have hsize := Char.utf8Size_pos c.toLower
        have hlength : ¬ (encode (lower front ++ lower name ++ lower (c :: rest))).length ≤
            byteLen (lower front ++ lower name) := by
          have hcons : lower (c :: rest) = c.toLower :: lower rest := rfl
          rw [length_encode, byteLen_append _ (lower (c :: rest)), hcons, byteLen_cons]
          omega
        rw [decide_eq_false hlength, Bool.false_or]
  rw [boundaryOk, hlower, hbefore, hafter]

/-- The parenthesis behind the blanks. -/
theorem openParen_eq_some_iff {openIdx : ℕ} :
    openParen (encode (front ++ rest)) (byteLen front) = some openIdx ↔
      ∃ blanks tail, rest = blanks ++ '(' :: tail ∧ (∀ c ∈ blanks, isBlank c = true) ∧
        openIdx = byteLen (front ++ blanks) := by
  have hdrop : (encode (front ++ rest)).drop (byteLen front) = encode rest := by
    rw [← length_encode, encode_append, List.drop_left]
  have hopen : byteLen front + ((encode rest).takeWhile isAsciiWhitespace).length =
      byteLen (front ++ rest.takeWhile isBlank) := by
    rw [isAsciiWhitespace_class.takeWhile_encode, length_encode, byteLen_append]
  have hsplit : rest = rest.takeWhile isBlank ++ rest.dropWhile isBlank :=
    List.takeWhile_append_dropWhile.symm
  have hbyte : (encode (front ++ rest))[byteLen (front ++ rest.takeWhile isBlank)]? =
      some '('.toUInt8 ↔ (rest.dropWhile isBlank).head? = some '(' := by
    have hparen := @getElem?_behind_iff (front ++ rest.takeWhile isBlank)
      (rest.dropWhile isBlank) '(' (by decide)
    rwa [List.append_assoc, ← hsplit] at hparen
  unfold openParen
  simp only [hdrop, hopen, hbyte]
  constructor
  · intro h
    split_ifs at h with hhead
    obtain ⟨tail, htail⟩ := List.head?_eq_some_iff.mp hhead
    exact ⟨rest.takeWhile isBlank, tail, htail ▸ hsplit, fun c hc => List.mem_takeWhile_imp hc,
      (Option.some.inj h).symm⟩
  · rintro ⟨blanks, tail, rfl, hblanks, rfl⟩
    have hclosed : isBlank '(' = false := by rfl
    rw [List.dropWhile_append_of_pos hblanks, List.dropWhile_cons, hclosed, if_neg Bool.false_ne_true,
      List.head?_cons, if_pos rfl, List.takeWhile_append_of_pos hblanks, List.takeWhile_cons, hclosed,
      if_neg Bool.false_ne_true, List.append_nil]

end Bytes

/-! ### The parenthesis that closes a call -/

section Parens
open QuotedParens (Mode quotedStep closeFrom)
variable {front rest name back cs : Str} {depth i : ℕ} {b : UInt8} {c q : Char} {escaped : Bool}
  {bytes : List UInt8}

/-- The variables of the byte scan. -/
def scanOf (depth : ℕ) : Mode → ParenScan
  | .code => ⟨depth, false, false, false⟩
  | .quoted q escaped => ⟨depth, q == '\'', q == '"', escaped⟩

theorem beq_wide {d : UInt8} (hb : 128 ≤ b.toNat) (hd : d.toNat < 128) : (b == d) = false :=
  beq_false_of_ne (byte_ne hb hd)

theorem isQuote_cases (h : QuotedParens.isQuote q = true) : q = '\'' ∨ q = '"' := by
  simpa only [QuotedParens.isQuote, Bool.or_eq_true, beq_iff_eq] using h

theorem matchingParenFrom_wide_code (hb : 128 ≤ b.toNat) :
    matchingParenFrom (b :: bytes) i (scanOf depth .code) =
      matchingParenFrom bytes (i + 1) (scanOf depth .code) := by
  rw [scanOf, matchingParenFrom]
  simp only [beq_wide hb (show '\''.toUInt8.toNat < 128 by decide),
    beq_wide hb (show '"'.toUInt8.toNat < 128 by decide),
    beq_wide hb (show '('.toUInt8.toNat < 128 by decide),
    beq_wide hb (show ')'.toUInt8.toNat < 128 by decide), Bool.false_eq_true, if_false]

theorem matchingParenFrom_wide_quoted (hq : QuotedParens.isQuote q = true) (hb : 128 ≤ b.toNat) :
    matchingParenFrom (b :: bytes) i (scanOf depth (.quoted q escaped)) =
      matchingParenFrom bytes (i + 1) (scanOf depth (.quoted q false)) := by
  have hslash := beq_wide hb (show '\\'.toUInt8.toNat < 128 by decide)
  have hsingle := beq_wide hb (show '\''.toUInt8.toNat < 128 by decide)
  have hdouble := beq_wide hb (show '"'.toUInt8.toNat < 128 by decide)
  obtain rfl | rfl := isQuote_cases hq
  · rw [scanOf, matchingParenFrom]
    simp [hslash, hsingle, bne, scanOf]
  · rw [scanOf, matchingParenFrom]
    simp [hslash, hdouble, bne, scanOf]

theorem matchingParenFrom_wides_code (hbytes : ∀ b ∈ bytes, 128 ≤ b.toNat) (rest : List UInt8)
    (i depth : ℕ) :
    matchingParenFrom (bytes ++ rest) i (scanOf depth .code) =
      matchingParenFrom rest (i + bytes.length) (scanOf depth .code) := by
  induction bytes generalizing i with
  | nil => rfl
  | cons b bytes ih =>
      obtain ⟨hb, hbytes⟩ := List.forall_mem_cons.mp hbytes
      rw [List.cons_append, matchingParenFrom_wide_code hb, ih hbytes, List.length_cons,
        Nat.add_right_comm, Nat.add_assoc]

theorem matchingParenFrom_wides_quoted (hq : QuotedParens.isQuote q = true)
    (hbytes : ∀ b ∈ bytes, 128 ≤ b.toNat) (rest : List UInt8) (i depth : ℕ) :
    matchingParenFrom (bytes ++ rest) i (scanOf depth (.quoted q false)) =
      matchingParenFrom rest (i + bytes.length) (scanOf depth (.quoted q false)) := by
  induction bytes generalizing i with
  | nil => rfl
  | cons b bytes ih =>
      obtain ⟨hb, hbytes⟩ := List.forall_mem_cons.mp hbytes
      rw [List.cons_append, matchingParenFrom_wide_quoted hq hb, ih hbytes, List.length_cons,
        Nat.add_right_comm, Nat.add_assoc]

theorem matchingParenFrom_quoted (hq : QuotedParens.isQuote q = true) (c : Char)
    (rest : List UInt8) (i depth : ℕ) (escaped : Bool) :
    matchingParenFrom (String.utf8EncodeChar c ++ rest) i (scanOf depth (.quoted q escaped)) =
      matchingParenFrom rest (i + c.utf8Size) (scanOf depth (quotedStep q escaped c)) := by
  by_cases hc : c.toNat < 128
  · have hslash : (UInt8.ofNat c.toNat == '\\'.toUInt8) = (c == '\\') := byte_beq hc (by decide)
    have hsingle : (UInt8.ofNat c.toNat == '\''.toUInt8) = (c == '\'') := byte_beq hc (by decide)
    have hdouble : (UInt8.ofNat c.toNat == '"'.toUInt8) = (c == '"') := byte_beq hc (by decide)
    rw [utf8EncodeChar_ascii hc, utf8Size_ascii hc, List.singleton_append, quotedStep]
    obtain rfl | rfl := isQuote_cases hq
    · rw [scanOf, matchingParenFrom]
      simp only [hslash, hsingle, bne]
      cases escaped with
      | true => simp [scanOf]
      | false =>
          by_cases hbackslash : c = '\\'
          · simp [hbackslash, scanOf]
          · by_cases hquote : c = '\''
            · simp [hquote, scanOf]
            · simp [hbackslash, hquote, beq_false_of_ne hquote, scanOf]
    · rw [scanOf, matchingParenFrom]
      simp only [hslash, hdouble, bne]
      cases escaped with
      | true => simp [scanOf]
      | false =>
          by_cases hbackslash : c = '\\'
          · simp [hbackslash, scanOf]
          · by_cases hquote : c = '"'
            · simp [hquote, scanOf]
            · simp [hbackslash, hquote, beq_false_of_ne hquote, scanOf]
  · obtain ⟨-, hbytes⟩ := utf8EncodeChar_wide (Nat.not_lt.mp hc)
    have hne : ∀ d : Char, d.toNat < 128 → c ≠ d := by
      rintro d hd rfl
      exact hc hd
    have hstep : quotedStep q escaped c = .quoted q false := by
      unfold quotedStep
      rw [if_neg fun h => hne '\\' (by decide) h.1, if_neg]
      rintro ⟨rfl, -⟩
      obtain rfl | rfl := isQuote_cases hq
      · exact hc (by decide)
      · exact hc (by decide)
    rw [hstep, ← String.length_utf8EncodeChar]
    cases hencode : String.utf8EncodeChar c with
    | nil =>
        have hsize := Char.utf8Size_pos c
        rw [← String.length_utf8EncodeChar, hencode] at hsize
        exact absurd hsize (Nat.lt_irrefl 0)
    | cons b bytes =>
        rw [hencode] at hbytes
        obtain ⟨hb, hrest⟩ := List.forall_mem_cons.mp hbytes
        rw [List.cons_append, matchingParenFrom_wide_quoted hq hb,
          matchingParenFrom_wides_quoted hq hrest, List.length_cons, Nat.add_right_comm,
          Nat.add_assoc]

/-- The byte scan finds the parenthesis that the scan over characters finds. -/
theorem matchingParenFrom_encode (cs : Str) (depth i : ℕ) (mode : Mode)
    (hmode : ∀ q escaped, mode = .quoted q escaped → QuotedParens.isQuote q = true) :
    matchingParenFrom (encode cs) i (scanOf (depth + 1) mode) =
      (closeFrom cs depth mode).map fun n => i + byteLen (cs.take n) := by
  induction cs generalizing depth i mode with
  | nil => cases mode <;> rfl
  | cons c cs ih =>
      have hshift : ∀ k : Option ℕ, k.map (fun n => i + c.utf8Size + byteLen (cs.take n)) =
          (k.map (· + 1)).map fun n => i + byteLen ((c :: cs).take n) := by
        intro k
        rw [Option.map_map]
        congr 1
        funext n
        simp only [Function.comp_apply, List.take_succ_cons, byteLen_cons, Nat.add_assoc]
      cases mode with
      | quoted q escaped =>
          have hq := hmode q escaped rfl
          have hnext : ∀ q' escaped', quotedStep q escaped c = .quoted q' escaped' →
              QuotedParens.isQuote q' = true := by
            intro q' escaped' h
            unfold quotedStep at h
            split_ifs at h <;> cases h <;> exact hq
          rw [encode_cons, matchingParenFrom_quoted hq, ih depth _ _ hnext,
            QuotedParens.closeFrom_cons_quoted, ← hshift]
      | code =>
          have hcode : ∀ q' escaped', Mode.code = .quoted q' escaped' →
              QuotedParens.isQuote q' = true := fun _ _ h => nomatch h
          rw [encode_cons, QuotedParens.closeFrom_cons_code]
          by_cases hc : c.toNat < 128
          · have hsize := utf8Size_ascii hc
            have hsingle : (UInt8.ofNat c.toNat == '\''.toUInt8) = (c == '\'') :=
              byte_beq hc (by decide)
            have hdouble : (UInt8.ofNat c.toNat == '"'.toUInt8) = (c == '"') :=
              byte_beq hc (by decide)
            have hopen : (UInt8.ofNat c.toNat == '('.toUInt8) = (c == '(') :=
              byte_beq hc (by decide)
            have hclose : (UInt8.ofNat c.toNat == ')'.toUInt8) = (c == ')') :=
              byte_beq hc (by decide)
            rw [utf8EncodeChar_ascii hc, List.singleton_append, scanOf, matchingParenFrom]
            simp only [hsingle, hdouble, hopen, hclose, Bool.false_eq_true, if_false]
            rw [hsize] at hshift
            by_cases hq : QuotedParens.isQuote c = true
            · have hquoted : ∀ q' escaped', Mode.quoted c false = .quoted q' escaped' →
                  QuotedParens.isQuote q' = true := by
                intro q' escaped' h
                cases h
                exact hq
              rw [if_pos hq, ← hshift, ← ih depth (i + 1) _ hquoted]
              obtain rfl | rfl := isQuote_cases hq
              · rfl
              · rfl
            · rw [if_neg hq]
              simp only [QuotedParens.isQuote, Bool.or_eq_true, not_or] at hq
              rw [if_neg hq.1, if_neg hq.2]
              by_cases hparen : c = '('
              · rw [if_pos hparen, if_pos (beq_iff_eq.mpr hparen), ← hshift,
                  ← ih (depth + 1) (i + 1) _ hcode]
                rfl
              · rw [if_neg hparen, if_neg (fun h => hparen (beq_iff_eq.mp h))]
                by_cases hend : c = ')'
                · rw [if_pos hend, if_pos (beq_iff_eq.mpr hend)]
                  cases depth with
                  | zero => rfl
                  | succ depth =>
                      rw [← hshift, ← ih depth (i + 1) _ hcode]
                      rfl
                · rw [if_neg hend, if_neg (fun h => hend (beq_iff_eq.mp h)), ← hshift,
                    ← ih depth (i + 1) _ hcode]
                  rfl
          · obtain ⟨-, hbytes⟩ := utf8EncodeChar_wide (Nat.not_lt.mp hc)
            have hne : ∀ d : Char, d.toNat < 128 → c ≠ d := by
              rintro d hd rfl
              exact hc hd
            have hq : QuotedParens.isQuote c = false := by
              rw [QuotedParens.isQuote, beq_false_of_ne (hne _ (by decide)),
                beq_false_of_ne (hne _ (by decide))]
              rfl
            rw [matchingParenFrom_wides_code hbytes, String.length_utf8EncodeChar,
              ih depth _ _ hcode, hq, if_neg Bool.false_ne_true,
              if_neg (hne _ (by decide)), if_neg (hne _ (by decide)), ← hshift]
/-- The parenthesis that closes an open one stands behind a matched text. -/
theorem findMatchingParen_eq_some_iff {closeIdx : ℕ} :
    findMatchingParen (encode (front ++ '(' :: rest)) (byteLen front) = some closeIdx ↔
      ∃ inner back, rest = inner ++ ')' :: back ∧ QuotedParens.Matched inner ∧
        closeIdx = byteLen (front ++ '(' :: inner) := by
  have hdrop : (encode (front ++ '(' :: rest)).drop (byteLen front) =
      '('.toUInt8 :: encode rest := by
    rw [← length_encode, encode_append, List.drop_left]
    rfl
  have hstart : matchingParenFrom ('('.toUInt8 :: encode rest) (byteLen front)
      ⟨0, false, false, false⟩ = matchingParenFrom (encode rest) (byteLen front + 1)
        (scanOf (0 + 1) .code) := rfl
  rw [findMatchingParen, hdrop, hstart,
    matchingParenFrom_encode rest 0 _ .code (fun _ _ h => nomatch h), Option.map_eq_some_iff]
  have hlen : ∀ inner : Str, byteLen front + 1 + byteLen inner = byteLen (front ++ '(' :: inner) := by
    intro inner
    rw [byteLen_append, byteLen_cons, Nat.add_assoc]
    rfl
  constructor
  · rintro ⟨n, hn, rfl⟩
    obtain ⟨inner, back, rfl, rfl, hinner⟩ := QuotedParens.closeFrom_eq_some_iff.mp hn
    refine ⟨inner, back, rfl, hinner, ?_⟩
    rw [List.take_left, hlen]
  · rintro ⟨inner, back, rfl, hinner, rfl⟩
    refine ⟨inner.length, QuotedParens.closeFrom_eq_some_iff.mpr ⟨inner, back, rfl, rfl, hinner⟩, ?_⟩
    rw [List.take_left, hlen]

end Parens

/-! ### Openings and what they enclose -/

section Openings
variable {rawSql macroName front name blanks rest front' name' blanks' rest' : Str}
  {span other : ℕ × ℕ}

/-- A name that stands alone, blanks and an open parenthesis. -/
structure Opens (rawSql macroName front name blanks rest : Str) : Prop where
  text : rawSql = front ++ (name ++ (blanks ++ '(' :: rest))
  spelled : lower name = macroName
  alone : front.getLast?.any isWordChar = false
  blank : ∀ c ∈ blanks, isBlank c = true

/-- The bounds of a call from its name to the matching parenthesis. -/
def IsCall (rawSql macroName : Str) (span : ℕ × ℕ) : Prop :=
  ∃ front name blanks inner back, Opens rawSql macroName front name blanks (inner ++ ')' :: back) ∧
    QuotedParens.Matched inner ∧
    span = (byteLen front, byteLen (front ++ (name ++ (blanks ++ '(' :: inner))) + 1)

/-- An opening that nothing closes takes the rest of the text. -/
def IsUnclosed (rawSql macroName : Str) (span : ℕ × ℕ) : Prop :=
  ∃ front name blanks rest, Opens rawSql macroName front name blanks rest ∧
    (∀ inner back, rest = inner ++ ')' :: back → ¬ QuotedParens.Matched inner) ∧
    span = (byteLen front, byteLen rawSql)

/-- What an opening encloses. -/
def Encloses (rawSql macroName : Str) (span : ℕ × ℕ) : Prop :=
  IsCall rawSql macroName span ∨ IsUnclosed rawSql macroName span

theorem Encloses.opens (h : Encloses rawSql macroName span) :
    ∃ front name blanks rest, Opens rawSql macroName front name blanks rest ∧
      span.1 = byteLen front := by
  rcases h with ⟨front, name, blanks, inner, back, hopens, -, rfl⟩ |
    ⟨front, name, blanks, rest, hopens, -, rfl⟩
  · exact ⟨front, name, blanks, _, hopens, rfl⟩
  · exact ⟨front, name, blanks, rest, hopens, rfl⟩

/-- The blanks before a parenthesis are all that stand there. -/
theorem blanks_unique (hblanks : ∀ c ∈ blanks, isBlank c = true)
    (hblanks' : ∀ c ∈ blanks', isBlank c = true)
    (h : blanks ++ '(' :: rest = blanks' ++ '(' :: rest') : blanks = blanks' ∧ rest = rest' := by
  have hclosed : isBlank '(' = false := by rfl
  have htake : ∀ {blanks rest : Str}, (∀ c ∈ blanks, isBlank c = true) →
      (blanks ++ '(' :: rest).takeWhile isBlank = blanks := by
    intro blanks rest hblanks
    rw [List.takeWhile_append_of_pos hblanks, List.takeWhile_cons, hclosed,
      if_neg Bool.false_ne_true, List.append_nil]
  have hsame := (htake hblanks).symm.trans ((congrArg _ h).trans (htake hblanks'))
  subst hsame
  exact ⟨rfl, (List.cons.inj (List.append_cancel_left h)).2⟩

/-- An opening is fixed by its place. -/
theorem Opens.unique (h : Opens rawSql macroName front name blanks rest)
    (h' : Opens rawSql macroName front' name' blanks' rest')
    (hplace : byteLen front = byteLen front') :
    front = front' ∧ name = name' ∧ blanks = blanks' ∧ rest = rest' := by
  have htext := h.text.symm.trans h'.text
  obtain ⟨between, hfront, hrest⟩ := exists_between htext hplace.le
  have hnil : between = [] := by
    rw [hfront, byteLen_append] at hplace
    exact byteLen_eq_zero_iff.mp (by omega)
  subst hnil
  rw [List.append_nil] at hfront
  rw [List.nil_append] at hrest
  have hlength : name.length = name'.length := by
    have hspelled := congrArg List.length (h.spelled.trans h'.spelled.symm)
    unfold lower at hspelled
    rwa [List.length_map, List.length_map] at hspelled
  obtain ⟨hname, htail⟩ := List.append_inj hrest hlength
  obtain ⟨hblanks, hbehind⟩ := blanks_unique h.blank h'.blank htail
  exact ⟨hfront.symm, hname, hblanks, hbehind⟩

/-- What an opening encloses is fixed by its place. -/
theorem Encloses.unique (h : Encloses rawSql macroName span)
    (h' : Encloses rawSql macroName other) (hplace : span.1 = other.1) : span = other := by
  rcases h with ⟨front, name, blanks, inner, back, hopens, hinner, rfl⟩ |
    ⟨front, name, blanks, rest, hopens, hnone, rfl⟩
  · rcases h' with ⟨front', name', blanks', inner', back', hopens', hinner', rfl⟩ |
      ⟨front', name', blanks', rest', hopens', hnone', rfl⟩
    · obtain ⟨rfl, rfl, rfl, hrest⟩ := hopens.unique hopens' hplace
      rw [hinner.unique hinner' hrest]
    · obtain ⟨rfl, rfl, rfl, hrest⟩ := hopens.unique hopens' hplace
      exact absurd hinner (hnone' inner back hrest.symm)
  · rcases h' with ⟨front', name', blanks', inner', back', hopens', hinner', rfl⟩ |
      ⟨front', name', blanks', rest', hopens', hnone', rfl⟩
    · obtain ⟨rfl, rfl, rfl, hrest⟩ := hopens.unique hopens' hplace
      exact absurd hinner' (hnone inner' back' hrest)
    · exact Prod.ext hplace rfl

/-- An opening behind a place opens in what stands behind it. -/
theorem Opens.behind {front rest front' name blanks tail : Str} (htext : rawSql = front ++ rest)
    (h : Opens rawSql macroName front' name blanks tail) (hle : byteLen front ≤ byteLen front') :
    ∃ between, front' = front ++ between ∧ rest = between ++ (name ++ (blanks ++ '(' :: tail)) :=
  exists_between (htext.symm.trans h.text) hle

/-- The first occurrence of a name in either case. -/
theorem exists_name {found : ℕ} (h : find macroName (lower rest) = some found) :
    ∃ before name behind, rest = before ++ (name ++ behind) ∧ lower name = macroName ∧
      byteLen before = found ∧ ∀ before' name' behind', rest = before' ++ (name' ++ behind') →
        lower name' = macroName → before.length ≤ before'.length := by
  obtain ⟨front, back, hlower, hfound, hfirst⟩ := find_spec h
  obtain ⟨whole, behind, rfl, hwhole, rfl⟩ := List.map_eq_append_iff.mp hlower
  obtain ⟨before, name, rfl, rfl, hname⟩ := List.map_eq_append_iff.mp hwhole
  refine ⟨before, name, behind, List.append_assoc _ _ _, hname, ?_, ?_⟩
  · rw [← hfound]
    exact (byteLen_lower before).symm
  · intro before' name' behind' htext hname'
    have hle := hfirst (lower before') (lower behind') (by
      rw [htext, ← hname']
      unfold lower
      rw [List.map_append, List.map_append, List.append_assoc])
    unfold lower at hle
    rwa [List.length_map, List.length_map] at hle

end Openings

/-! ### The scan for calls -/

section Scan
variable {rawSql macroName front before name behind rest : Str} {fuel : ℕ}

/-- A name is made of letters, digits and underscores. -/
structure IsName (macroName : Str) : Prop where
  nonempty : macroName ≠ []
  chars : ∀ c ∈ macroName, isWordChar c = true

theorem IsName.spelled (h : IsName macroName) (hname : lower name = macroName) :
    name ≠ [] ∧ ∀ c ∈ name, isWordChar c = true := by
  refine ⟨?_, fun c hc => ?_⟩
  · rintro rfl
    exact h.nonempty hname.symm
  · rw [← isWordChar_toLower]
    exact h.chars _ (hname ▸ List.mem_map_of_mem hc)

/-- No name of the given spelling stands further left. -/
def FirstName (macroName before rest : Str) : Prop :=
  ∀ before' name' behind', rest = before' ++ (name' ++ behind') → lower name' = macroName →
    before.length ≤ before'.length

/-- Where the first name does not open a call, the next opening stands behind it. -/
theorem opens_behind_name (hcallee : IsName macroName)
    (htext : rawSql = front ++ (before ++ (name ++ behind))) (hname : lower name = macroName)
    (hfirst : FirstName macroName before (before ++ (name ++ behind)))
    {front' name' blanks' tail' : Str} (h : Opens rawSql macroName front' name' blanks' tail')
    (hle : byteLen front ≤ byteLen front') :
    (front' = front ++ before ∧ name' = name ∧ behind = blanks' ++ '(' :: tail') ∨
      byteLen (front ++ before ++ name) ≤ byteLen front' := by
  obtain ⟨between, rfl, hrest⟩ := h.behind htext hle
  have hlength := hfirst between name' _ hrest h.spelled
  obtain ⟨u, rfl⟩ : before <+: between :=
    List.prefix_of_prefix_length_le ⟨_, rfl⟩ ⟨_, hrest.symm⟩ hlength
  rw [List.append_assoc] at hrest
  have hbehind := List.append_cancel_left hrest
  cases hu : u with
  | nil =>
      left
      rw [hu, List.nil_append] at hbehind
      have hsame : name.length = name'.length := by
        have hspelled := congrArg List.length (hname.trans h.spelled.symm)
        unfold lower at hspelled
        rwa [List.length_map, List.length_map] at hspelled
      obtain ⟨hnames, htails⟩ := List.append_inj hbehind hsame
      exact ⟨by rw [List.append_nil], hnames.symm, htails⟩
  | cons d v =>
      right
      obtain ⟨w, hw, -⟩ | ⟨w, hw, -⟩ := List.append_eq_append_iff.mp hbehind
      · rw [← hu, hw, ← List.append_assoc front, ← List.append_assoc (front ++ before),
          byteLen_append _ w]
        exact Nat.le_add_right _ _
      · -- the opening would begin inside the name, behind one of its characters
        exfalso
        have hlast : u.getLast? = some (u.getLast (hu ▸ List.cons_ne_nil d v)) :=
          List.getLast?_eq_getLast_of_ne_nil _
        have hmem : u.getLast (hu ▸ List.cons_ne_nil d v) ∈ name :=
          hw ▸ List.mem_append_left w (List.getLast_mem _)
        have halone := h.alone
        rw [← List.append_assoc, List.getLast?_append, hlast] at halone
        have hword := (hcallee.spelled hname).2 _ hmem
        rw [Option.some_or, Option.any_some, hword] at halone
        exact absurd halone (by decide)

/-- What the checks of the scan see at a name. -/
theorem checks_iff {start : Str} {openIdx : ℕ} (htext : rawSql = start ++ (name ++ behind))
    (hname : lower name = macroName) :
    boundaryOk (encode (lower rawSql)) (byteLen start) (byteLen (start ++ name)) = true ∧
        openParen (encode rawSql) (byteLen (start ++ name)) = some openIdx ↔
      ∃ blanks tail, Opens rawSql macroName start name blanks tail ∧
        openIdx = byteLen (start ++ name ++ blanks) := by
  have htext' : rawSql = (start ++ name) ++ behind := by rw [htext, List.append_assoc]
  have hboundary := boundaryOk_eq start name behind
  rw [← htext] at hboundary
  rw [hboundary, htext', openParen_eq_some_iff, ← htext', Bool.and_eq_true, Bool.not_eq_true']
  constructor
  · rintro ⟨⟨halone, -⟩, blanks, tail, rfl, hblanks, rfl⟩
    exact ⟨blanks, tail, ⟨htext, hname, halone, hblanks⟩, rfl⟩
  · rintro ⟨blanks, tail, hopens, rfl⟩
    obtain rfl : behind = blanks ++ '(' :: tail :=
      List.append_cancel_left (List.append_cancel_left (htext.symm.trans hopens.text))
    refine ⟨⟨hopens.alone, ?_⟩, blanks, tail, rfl, hopens.blank, rfl⟩
    -- a blank or the parenthesis stands behind the name
    cases blanks with
    | nil => rfl
    | cons c blanks =>
        have hblank := hopens.blank c List.mem_cons_self
        simp only [isBlank, Bool.or_eq_true, beq_iff_eq] at hblank
        obtain (((rfl | rfl) | rfl) | rfl) | rfl := hblank <;> rfl

def spanOf (call : MacroCall) : ℕ × ℕ := (call.start, call.stop)

/-- What the scan takes from a place on: the calls, and the opening that ends it, if any. -/
structure Scanned (rawSql macroName : Str) (cursor : ℕ) (calls : List MacroCall)
    (stuck : List (ℕ × ℕ)) : Prop where
  areCalls : ∀ call ∈ calls, IsCall rawSql macroName (spanOf call)
  areUnclosed : ∀ span ∈ stuck, IsUnclosed rawSql macroName span
  leftmost : Leftmost Prod.fst Prod.snd
    (fun span => Encloses rawSql macroName span ∧ cursor ≤ span.1) (calls.map spanOf ++ stuck)

theorem scanned_nil {cursor : ℕ}
    (h : ∀ span, Encloses rawSql macroName span → ¬ cursor ≤ span.1) :
    Scanned rawSql macroName cursor [] [] :=
  ⟨fun _ h => absurd h List.not_mem_nil, fun _ h => absurd h List.not_mem_nil,
    leftmost_nil fun span hspan => h span hspan.1 hspan.2⟩

/-- No opening begins at the end of the text. -/
theorem Encloses.lt (hcallee : IsName macroName) {span : ℕ × ℕ}
    (h : Encloses rawSql macroName span) : span.1 < byteLen rawSql := by
  obtain ⟨front, name, blanks, rest, hopens, hstart⟩ := h.opens
  have hname := byteLen_pos_iff.mpr (hcallee.spelled hopens.spelled).1
  rw [hstart, hopens.text, byteLen_append, byteLen_append]
  omega

theorem macroCall_span {start openIdx closeIdx : ℕ} {call : MacroCall}
    (h : macroCall rawSql start openIdx closeIdx = .ok call) :
    spanOf call = (start, closeIdx + 1) := by
  unfold macroCall at h
  obtain ⟨argText, -, h⟩ := bind_eq_ok.mp h
  obtain ⟨args, -, h⟩ := bind_eq_ok.mp h
  obtain rfl := Except.ok.inj h
  rfl

/-- A scan that goes on further right has seen the same openings, when none was in between. -/
theorem Scanned.extend {cursor next : ℕ} {calls : List MacroCall} {stuck : List (ℕ × ℕ)}
    (h : Scanned rawSql macroName next calls stuck) (hle : cursor ≤ next)
    (hnone : ∀ span, Encloses rawSql macroName span → cursor ≤ span.1 → next ≤ span.1) :
    Scanned rawSql macroName cursor calls stuck := by
  refine ⟨h.areCalls, h.areUnclosed, h.leftmost.congr fun span => ?_⟩
  exact and_congr_right fun hspan => ⟨hle.trans, hnone span hspan⟩

/-- A call in front of what the scan takes behind it. -/
theorem Scanned.cons {cursor : ℕ} {call : MacroCall} {calls : List MacroCall}
    {stuck : List (ℕ × ℕ)} (hcall : IsCall rawSql macroName (spanOf call))
    (hcursor : cursor ≤ call.start) (hspan : call.start ≤ call.stop)
    (hfirst : ∀ span, Encloses rawSql macroName span → cursor ≤ span.1 → call.start ≤ span.1)
    (h : Scanned rawSql macroName call.stop calls stuck) :
    Scanned rawSql macroName cursor (call :: calls) stuck := by
  refine ⟨List.forall_mem_cons.mpr ⟨hcall, h.areCalls⟩, h.areUnclosed, ?_⟩
  refine leftmost_cons ⟨Or.inl hcall, hcursor⟩ (fun span hspan => hfirst span hspan.1 hspan.2) ?_
  refine h.leftmost.congr fun span => ?_
  constructor
  · rintro ⟨hencloses, hle⟩
    exact ⟨⟨hencloses, (hcursor.trans hspan).trans hle⟩, hle⟩
  · rintro ⟨⟨hencloses, -⟩, hle⟩
    exact ⟨hencloses, hle⟩

/-- An opening that nothing closes is the last that is taken. -/
theorem scanned_unclosed (hcallee : IsName macroName) {cursor : ℕ} {span : ℕ × ℕ}
    (hspan : IsUnclosed rawSql macroName span) (hcursor : cursor ≤ span.1)
    (hfirst : ∀ other, Encloses rawSql macroName other → cursor ≤ other.1 → span.1 ≤ other.1) :
    Scanned rawSql macroName cursor [] [span] := by
  refine ⟨fun _ h => absurd h List.not_mem_nil, fun other h => ?_, ?_⟩
  · rw [List.mem_singleton.mp h]
    exact hspan
  · refine leftmost_cons ⟨Or.inr hspan, hcursor⟩ (fun other h => hfirst other h.1 h.2) ?_
    refine leftmost_nil fun other h => ?_
    obtain ⟨front, name, blanks, rest, -, -, rfl⟩ := hspan
    exact absurd h.2 (Nat.not_le.mpr (h.1.1.lt hcallee))

theorem macroCallsFrom_scanned (hcallee : IsName macroName)
    (htext : rawSql = front ++ rest) (hfuel : byteLen rest ≤ fuel) :
    ∃ calls stuck, macroCallsFrom rawSql macroName fuel (byteLen front) = .ok calls ∧
      Scanned rawSql macroName (byteLen front) calls stuck := by
  induction fuel generalizing front rest with
  | zero =>
      refine ⟨[], [], rfl, scanned_nil fun span hspan hle => ?_⟩
      have hlt := hspan.lt hcallee
      rw [htext, byteLen_append] at hlt
      omega
  | succ fuel ih =>
      rw [macroCallsFrom, byteLen_lower]
      split_ifs with hlt
      · have hlower : sliceFrom (lower rawSql) (byteLen front) = .ok (lower rest) := by
          have happend : lower rawSql = lower front ++ lower rest := by
            rw [htext]
            exact List.map_append
          rw [happend, ← byteLen_lower front, sliceFrom_front]
        simp only [hlower, bind, Except.bind]
        cases hfind : find macroName (lower rest) with
        | none =>
            refine ⟨[], [], rfl, scanned_nil fun span hspan hle => ?_⟩
            obtain ⟨front', name, blanks, tail, hopens, hstart⟩ := hspan.opens
            obtain ⟨between, -, hrest⟩ := hopens.behind htext (hstart ▸ hle)
            refine find_none hfind (lower between) (lower (blanks ++ '(' :: tail)) ?_
            rw [hrest, ← hopens.spelled]
            unfold lower
            rw [List.map_append, List.map_append, List.append_assoc]
        | some found =>
            obtain ⟨before, name, behind, rfl, hname, rfl, hfirst⟩ := exists_name hfind
            have hnonempty := byteLen_pos_iff.mpr (hcallee.spelled hname).1
            have hstart : byteLen front + byteLen before = byteLen (front ++ before) :=
              (byteLen_append front before).symm
            have hstop : byteLen (front ++ before) + byteLen macroName =
                byteLen (front ++ before ++ name) := by
              rw [byteLen_append _ name, ← hname, byteLen_lower]
            have hsplit : rawSql = (front ++ before) ++ (name ++ behind) := by
              rw [htext, List.append_assoc]
            rw [byteLen_append, byteLen_append] at hfuel
            have hbehind : ∀ span, Encloses rawSql macroName span → byteLen front ≤ span.1 →
                span.1 = byteLen (front ++ before) ∨ byteLen (front ++ before ++ name) ≤ span.1 := by
              intro span hspan hle
              obtain ⟨front', name', blanks, tail, hopens, hplace⟩ := hspan.opens
              rw [hplace] at hle ⊢
              rcases opens_behind_name hcallee htext hname hfirst hopens hle with ⟨rfl, -, -⟩ | hlater
              · exact Or.inl rfl
              · exact Or.inr hlater
            have hskip : (∀ blanks tail, ¬ Opens rawSql macroName (front ++ before) name blanks tail) →
                ∃ calls stuck, macroCallsFrom rawSql macroName fuel
                  (byteLen (front ++ before ++ name)) = .ok calls ∧
                  Scanned rawSql macroName (byteLen front) calls stuck := by
              intro hclosed
              have hnext : rawSql = (front ++ before ++ name) ++ behind := by
                rw [hsplit, List.append_assoc (front ++ before)]
              obtain ⟨calls, stuck, hcalls, hscanned⟩ := ih hnext (by omega)
              refine ⟨calls, stuck, hcalls, hscanned.extend ?_ fun span hspan hle => ?_⟩
              · rw [byteLen_append, byteLen_append]
                omega
              · obtain ⟨front', name', blanks, tail, hopens, hplace⟩ := hspan.opens
                rw [hplace] at hle ⊢
                rcases opens_behind_name hcallee htext hname hfirst hopens hle with
                  ⟨rfl, rfl, -⟩ | hlater
                · exact absurd hopens (hclosed blanks tail)
                · exact hlater
            have hfirstOpening : ∀ span, Encloses rawSql macroName span → byteLen front ≤ span.1 →
                byteLen (front ++ before) ≤ span.1 := by
              intro span hspan hle
              have hmore : byteLen (front ++ before) ≤ byteLen (front ++ before ++ name) := by
                rw [byteLen_append _ name]
                exact Nat.le_add_right _ _
              rcases hbehind span hspan hle with heq | hlater
              · exact heq.ge
              · exact hmore.trans hlater
            have hcursor : byteLen front ≤ byteLen (front ++ before) := by
              rw [byteLen_append]
              exact Nat.le_add_right _ _
            simp only [hstart, hstop]
            split_ifs with hboundary
            · refine hskip fun blanks tail hopens => ?_
              have hchecks := (checks_iff hsplit hname).mpr ⟨blanks, tail, hopens, rfl⟩
              rw [hchecks.1] at hboundary
              cases hboundary
            · rw [Bool.not_eq_true', Bool.not_eq_false] at hboundary
              cases hopen : openParen (encode rawSql) (byteLen (front ++ before ++ name)) with
              | none =>
                  refine hskip fun blanks tail hopens => ?_
                  have hchecks := (checks_iff hsplit hname).mpr ⟨blanks, tail, hopens, rfl⟩
                  rw [hchecks.2] at hopen
                  cases hopen
              | some openIdx =>
                  obtain ⟨blanks, tail, hopens, rfl⟩ :=
                    (checks_iff hsplit hname).mp ⟨hboundary, hopen⟩
                  have hparen : rawSql = (front ++ before ++ name ++ blanks) ++ '(' :: tail := by
                    rw [hopens.text]
                    simp only [List.append_assoc]
                  have hclose := @findMatchingParen_eq_some_iff
                    (front ++ before ++ name ++ blanks) tail
                  rw [← hparen] at hclose
                  simp only
                  cases hfound : findMatchingParen (encode rawSql)
                      (byteLen (front ++ before ++ name ++ blanks)) with
                  | none =>
                      refine ⟨[], [(byteLen (front ++ before), byteLen rawSql)], rfl,
                        scanned_unclosed hcallee ?_ hcursor hfirstOpening⟩
                      refine ⟨_, name, blanks, tail, hopens, fun inner back htail hinner => ?_, rfl⟩
                      rw [hclose.mpr ⟨inner, back, htail, hinner, rfl⟩] at hfound
                      cases hfound
                  | some closeIdx =>
                      obtain ⟨inner, back, rfl, hinner, rfl⟩ := hclose.mp hfound
                      have hbound : IsBoundary rawSql (byteLen (front ++ before)) :=
                        isBoundary_iff.mpr ⟨front ++ before, name ++ behind, hsplit, rfl⟩
                      obtain ⟨-, call, hcall, -⟩ := macroCall_ok hbound (openParen_spec hopen) hfound
                      have hspan := macroCall_span hcall
                      have hend : byteLen (front ++ before ++ name ++ blanks ++ '(' :: inner) + 1 =
                          byteLen (front ++ before ++ name ++ blanks ++ '(' :: inner ++ [')']) := by
                        rw [byteLen_append _ [')']]
                        rfl
                      have hnext : rawSql =
                          (front ++ before ++ name ++ blanks ++ '(' :: inner ++ [')']) ++ back := by
                        rw [hparen]
                        simp only [List.append_assoc, List.cons_append, List.nil_append]
                      have hrest : byteLen back ≤ fuel := by
                        have hlength := congrArg byteLen (hparen.symm.trans hsplit)
                        simp only [byteLen_append, byteLen_cons] at hlength
                        omega
                      obtain ⟨calls, stuck, hcalls, hscanned⟩ := ih hnext hrest
                      rw [← hend] at hcalls hscanned
                      have hstartOf : call.start = byteLen (front ++ before) :=
                        congrArg Prod.fst hspan
                      have hstopOf : call.stop = byteLen (front ++ before ++ name ++ blanks ++
                          '(' :: inner) + 1 := congrArg Prod.snd hspan
                      refine ⟨call :: calls, stuck, ?_, ?_⟩
                      · simp only [hcall, hcalls]
                        rfl
                      · refine Scanned.cons ?_ (hstartOf ▸ hcursor) ?_ (hstartOf ▸ hfirstOpening)
                          (hstopOf ▸ hscanned)
                        · rw [hspan]
                          refine ⟨_, name, blanks, inner, back, hopens, hinner, ?_⟩
                          simp only [List.append_assoc]
                        · rw [hstartOf, hstopOf]
                          simp only [byteLen_append]
                          omega
      · refine ⟨[], [], rfl, scanned_nil fun span hspan hle => ?_⟩
        have hend := hspan.lt hcallee
        omega

end Scan

end DbtNova.MacroCalls
