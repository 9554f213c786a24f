import DbtNova.JinjaScan

/-!
# Template markers and the tokens of SQL

A lexer of SQL as a relation: literals, quoted identifiers and comments are tokens of whole
texts, and the positions of code are those that no such token covers. The scan of a query, which
goes from byte to byte with a state, finds exactly the markers that stand at positions of code.
-/
namespace DbtNova.JinjaScan

abbrev Bytes := List UInt8

def ascii (text : String) : Bytes := text.toList.map Char.toUInt8

/-! ## Tokens -/

/-- A tag between dollar signs. -/
def DollarDelimiter (delimiter : Bytes) : Prop :=
  ∃ tag : Bytes, delimiter = '$'.toUInt8 :: (tag ++ ['$'.toUInt8]) ∧
    ∀ ch ∈ tag, isIdentifierChar ch = true

/-- What opens and what closes a comment or a dollar-quoted literal. -/
inductive Encloses : Bytes → Bytes → Prop where
  | lineComment : Encloses (ascii "--") (ascii "\n")
  | blockComment : Encloses (ascii "/*") (ascii "*/")
  | dollarQuote {delimiter : Bytes} : DollarDelimiter delimiter → Encloses delimiter delimiter

/-- An `e` or `E` that is not the end of a longer word. -/
def EscapePrefix (before : Bytes) : Prop :=
  ∃ front ch, before = front ++ [ch] ∧ (ch = 'e'.toUInt8 ∨ ch = 'E'.toUInt8) ∧
    ∀ last ∈ front.getLast?, isIdentifierChar last = false

/-- What opens and closes a quoted text, and whether a backslash is an escape in it. -/
inductive Quotes (before : Bytes) : UInt8 → Prop → Prop where
  | literal : Quotes before '\''.toUInt8 (EscapePrefix before)
  | identifier : Quotes before '"'.toUInt8 False

/-- The text between two quotes. -/
inductive QuotedText (quote : UInt8) (escapes : Prop) : Bytes → Prop where
  | nil : QuotedText quote escapes []
  | plain {text : Bytes} {ch : UInt8} : QuotedText quote escapes text → ch ≠ quote →
      (escapes → ch ≠ '\\'.toUInt8) → QuotedText quote escapes (text ++ [ch])
  | doubled {text : Bytes} : QuotedText quote escapes text →
      QuotedText quote escapes (text ++ [quote, quote])
  | escaped {text : Bytes} {ch : UInt8} : QuotedText quote escapes text → escapes →
      QuotedText quote escapes (text ++ ['\\'.toUInt8, ch])

/-- A token of `length` bytes at the start of `rest`. -/
inductive Token (before rest : Bytes) : ℕ → Prop where
  | enclosed {opening closing tail : Bytes} {n : ℕ} : Encloses opening closing →
      rest = opening ++ tail → closing <+: tail.drop n →
      (∀ j < n, ¬ closing <+: tail.drop j) →
      Token before rest (opening.length + n + closing.length)
  | quoted {quote : UInt8} {escapes : Prop} {text after : Bytes} :
      Quotes before quote escapes → rest = quote :: (text ++ quote :: after) →
      QuotedText quote escapes text → quote ∉ after.head? →
      Token before rest (text.length + 2)

/-- What starts a token, be it ended or not. -/
def Opens (rest : Bytes) : Prop :=
  (∃ opening closing, Encloses opening closing ∧ opening <+: rest) ∨
    ['\''.toUInt8] <+: rest ∨ ['"'.toUInt8] <+: rest

/-- The positions between tokens. -/
inductive AtCode (sql : Bytes) : ℕ → Prop where
  | start : AtCode sql 0
  | token {i n : ℕ} : AtCode sql i → Token (sql.take i) (sql.drop i) n → AtCode sql (i + n)
  | code {i : ℕ} : AtCode sql i → i < sql.length → ¬ Opens (sql.drop i) → AtCode sql (i + 1)

def jinjaMarkers : List String := ["\x7b\x7b", "\x7b%", "\x7b#"]

/-- A marker that starts at position `i`. -/
def MarkerAt (sql : Bytes) (i : ℕ) (marker : String) : Prop :=
  marker ∈ jinjaMarkers ∧ ascii marker <+: sql.drop i

/-! ## Bytes at a position -/

section Bytes
variable {sql : Bytes} {i : ℕ}

theorem byteAt_iff {c : Char} : byteAt sql i c = true ↔ [c.toUInt8] <+: sql.drop i := by
  unfold byteAt
  rw [beq_iff_eq]
  constructor
  · intro h
    obtain ⟨hi, hget⟩ := List.getElem?_eq_some_iff.mp h
    rw [List.drop_eq_getElem_cons hi, hget]
    exact List.prefix_append [c.toUInt8] _
  · rintro ⟨rest, hrest⟩
    have hhead := congrArg List.head? hrest
    rw [List.head?_drop] at hhead
    exact hhead.symm

theorem pair_iff {c d : Char} : (byteAt sql i c && byteAt sql (i + 1) d) = true ↔
    [c.toUInt8, d.toUInt8] <+: sql.drop i := by
  rw [Bool.and_eq_true, byteAt_iff, byteAt_iff]
  constructor
  · rintro ⟨⟨rest, hrest⟩, hsecond⟩
    rw [← List.drop_drop, ← hrest] at hsecond
    rw [← hrest]
    exact (List.prefix_cons_inj _).mpr hsecond
  · intro h
    refine ⟨(List.prefix_append [c.toUInt8] [d.toUInt8]).trans h, ?_⟩
    obtain ⟨rest, hrest⟩ := h
    rw [← List.drop_drop, ← hrest]
    exact List.prefix_append [d.toUInt8] rest

end Bytes

/-! ## Delimiters -/

theorem delimiterTail_eq_some {rest tail : Bytes} : delimiterTail rest = some tail ↔
    ∃ tag : Bytes, tail = tag ++ ['$'.toUInt8] ∧ (∀ ch ∈ tag, isIdentifierChar ch = true) ∧
      tail <+: rest := by
  have hdollar : isIdentifierChar '$'.toUInt8 = false := by decide
  induction rest generalizing tail with
  | nil =>
      refine ⟨nofun, ?_⟩
      rintro ⟨tag, rfl, -, hlead⟩
      exact absurd (List.prefix_nil.mp hlead) (List.append_ne_nil_of_right_ne_nil _
        (List.cons_ne_nil _ _))
  | cons ch rest ih =>
      rw [delimiterTail]
      by_cases hch : ch = '$'.toUInt8
      · rw [if_pos hch]
        constructor
        · intro h
          refine ⟨[], ?_, nofun, ?_⟩
          · rw [← Option.some.inj h, hch, List.nil_append]
          · rw [← Option.some.inj h]
            exact List.prefix_append [ch] rest
        · rintro ⟨tag, rfl, htag, hlead⟩
          cases tag with
          | nil => rw [hch, List.nil_append]
          | cons first tag =>
              rw [List.cons_append, List.cons_prefix_cons] at hlead
              have hfirst := htag first List.mem_cons_self
              rw [hlead.1, hch, hdollar] at hfirst
              cases hfirst
      · rw [if_neg hch]
        cases hident : isIdentifierChar ch with
        | false =>
            rw [if_neg Bool.false_ne_true]
            refine ⟨nofun, ?_⟩
            rintro ⟨tag, rfl, htag, hlead⟩
            cases tag with
            | nil =>
                rw [List.nil_append, List.cons_prefix_cons] at hlead
                exact absurd hlead.1.symm hch
            | cons first tag =>
                rw [List.cons_append, List.cons_prefix_cons] at hlead
                have hfirst := htag first List.mem_cons_self
                rw [hlead.1, hident] at hfirst
                cases hfirst
        | true =>
            rw [if_pos rfl, Option.map_eq_some_iff]
            constructor
            · rintro ⟨others, hothers, rfl⟩
              obtain ⟨tag, rfl, htag, hlead⟩ := ih.mp hothers
              exact ⟨ch :: tag, rfl, List.forall_mem_cons.mpr ⟨hident, htag⟩,
                (List.prefix_cons_inj ch).mpr hlead⟩
            · rintro ⟨tag, rfl, htag, hlead⟩
              cases tag with
              | nil =>
                  rw [List.nil_append, List.cons_prefix_cons] at hlead
                  exact absurd hlead.1.symm hch
              | cons first tag =>
                  rw [List.cons_append, List.cons_prefix_cons] at hlead
                  refine ⟨tag ++ ['$'.toUInt8], ih.mpr ⟨tag, rfl, ?_, hlead.2⟩, ?_⟩
                  · exact fun c hc => htag c (List.mem_cons_of_mem _ hc)
                  · rw [hlead.1, List.cons_append]

theorem parseDollarQuoteDelimiter_eq_some {sql delimiter : Bytes} {i : ℕ} :
    parseDollarQuoteDelimiter sql i = some delimiter ↔
      DollarDelimiter delimiter ∧ delimiter <+: sql.drop i := by
  unfold parseDollarQuoteDelimiter DollarDelimiter
  cases hfirst : byteAt sql i '$' with
  | false =>
      rw [if_neg Bool.false_ne_true]
      refine ⟨nofun, ?_⟩
      rintro ⟨⟨tag, rfl, -⟩, hlead⟩
      have hbyte := byteAt_iff.mpr ((List.prefix_append ['$'.toUInt8] _).trans hlead)
      rw [hfirst] at hbyte
      cases hbyte
  | true =>
      obtain ⟨rest, hrest⟩ := byteAt_iff.mp hfirst
      have htail : sql.drop (i + 1) = rest := by
        rw [← List.drop_drop, ← hrest]
        rfl
      rw [if_pos rfl, Option.map_eq_some_iff, htail, ← hrest]
      constructor
      · rintro ⟨tail, hparsed, rfl⟩
        obtain ⟨tag, rfl, htag, hlead⟩ := delimiterTail_eq_some.mp hparsed
        exact ⟨⟨tag, rfl, htag⟩, (List.prefix_cons_inj _).mpr hlead⟩
      · rintro ⟨⟨tag, rfl, htag⟩, hlead⟩
        exact ⟨_, delimiterTail_eq_some.mpr
          ⟨tag, rfl, htag, (List.prefix_cons_inj _).mp hlead⟩, rfl⟩

/-! ## What a round of the loop does -/

section Rounds
variable {sql : Bytes} {scan : Scan}

/-- The scan is in a comment or a dollar-quoted literal. -/
inductive Enclosed (scan : Scan) : Bytes → Bytes → Prop where
  | lineComment : scan.state = .lineComment → Enclosed scan (ascii "--") (ascii "\n")
  | blockComment : scan.state = .blockComment → Enclosed scan (ascii "/*") (ascii "*/")
  | dollarQuote {delimiter : Bytes} : scan.state = .dollarQuote →
      scan.dollarQuoteDelimiter = some delimiter → DollarDelimiter delimiter →
      Enclosed scan delimiter delimiter

/-- The scan is between two quotes. -/
inductive Quoted (scan : Scan) : UInt8 → Prop → Prop where
  | literal {escapes : Prop} : scan.state = .singleQuote →
      (scan.singleQuoteBackslashEscape = true ↔ escapes) → Quoted scan '\''.toUInt8 escapes
  | identifier : scan.state = .doubleQuote → Quoted scan '"'.toUInt8 False

theorem Enclosed.encloses {opening closing : Bytes} (h : Enclosed scan opening closing) :
    Encloses opening closing := by
  cases h with
  | lineComment => exact .lineComment
  | blockComment => exact .blockComment
  | dollarQuote _ _ hdelimiter => exact .dollarQuote hdelimiter

theorem Enclosed.not_normal {opening closing : Bytes} (h : Enclosed scan opening closing) :
    scan.state ≠ .normal := by
  cases h with
  | lineComment hstate | blockComment hstate | dollarQuote hstate => rw [hstate]; nofun

theorem Quoted.not_normal {quote : UInt8} {escapes : Prop} (h : Quoted scan quote escapes) :
    scan.state ≠ .normal := by
  cases h with
  | literal hstate | identifier hstate => rw [hstate]; nofun

theorem escapePrefix_concat {front : Bytes} {ch : UInt8} : EscapePrefix (front ++ [ch]) ↔
    (ch = 'e'.toUInt8 ∨ ch = 'E'.toUInt8) ∧
      ∀ last ∈ front.getLast?, isIdentifierChar last = false := by
  constructor
  · rintro ⟨other, last, heq, hlast, hfront⟩
    obtain ⟨rfl, hch⟩ := List.append_inj' heq rfl
    rw [List.singleton_inj.mp hch]
    exact ⟨hlast, hfront⟩
  · rintro ⟨hch, hfront⟩
    exact ⟨front, ch, rfl, hch, hfront⟩

theorem byteAt_eq {p : ℕ} {ch : UInt8} (h : sql[p]? = some ch) (c : Char) :
    byteAt sql p c = true ↔ ch = c.toUInt8 := by
  unfold byteAt
  rw [h, beq_iff_eq]
  exact ⟨Option.some.inj, congrArg some⟩

theorem allowsBackslashEscapedQuote_iff {i : ℕ} (hi : i ≤ sql.length) :
    allowsBackslashEscapedQuote sql i = true ↔ EscapePrefix (sql.take i) := by
  cases i with
  | zero =>
      refine iff_of_false Bool.false_ne_true ?_
      rintro ⟨front, ch, heq, -⟩
      exact List.append_ne_nil_of_right_ne_nil _ (List.cons_ne_nil _ _) heq.symm
  | succ p =>
      have hget : sql[p]? = some sql[p] := List.getElem?_eq_getElem hi
      unfold allowsBackslashEscapedQuote
      rw [List.take_add_one, hget, Option.toList_some, escapePrefix_concat, Bool.and_eq_true,
        Bool.or_eq_true, byteAt_eq hget, byteAt_eq hget]
      apply and_congr_right
      intro _
      cases p with
      | zero => exact iff_of_true rfl nofun
      | succ before =>
          have hbefore : sql[before]? = some sql[before] :=
            List.getElem?_eq_getElem (Nat.lt_of_succ_lt hi)
          dsimp only
          rw [List.take_add_one, hbefore, Option.toList_some, List.getLast?_concat,
            Option.any_some, Bool.not_eq_true']
          exact ⟨fun h last hlast => Option.some.inj hlast ▸ h, fun h => h _ rfl⟩

/-- A round in code comes to a token or passes one byte. -/
theorem normal_step (hstate : scan.state = .normal) (hi : scan.i < sql.length) :
    (∃ opening closing, Encloses opening closing ∧ opening <+: sql.drop scan.i ∧
      Enclosed (step sql scan) opening closing ∧
      (step sql scan).i = scan.i + opening.length) ∨
    (∃ quote escapes, Quotes (sql.take scan.i) quote escapes ∧ [quote] <+: sql.drop scan.i ∧
      Quoted (step sql scan) quote escapes ∧ (step sql scan).i = scan.i + 1) ∨
    (¬ Opens (sql.drop scan.i) ∧ (step sql scan).state = .normal ∧
      (step sql scan).i = scan.i + 1) := by
  have hstep : step sql scan = stepNormalState sql scan := by
    unfold step
    rw [hstate]
  rw [hstep]
  unfold stepNormalState
  dsimp only
  by_cases hline : (byteAt sql scan.i '-' && byteAt sql (scan.i + 1) '-') = true
  · rw [if_pos hline]
    exact Or.inl ⟨_, _, .lineComment, pair_iff.mp hline, .lineComment rfl, rfl⟩
  · rw [if_neg hline]
    by_cases hblock : (byteAt sql scan.i '/' && byteAt sql (scan.i + 1) '*') = true
    · rw [if_pos hblock]
      exact Or.inl ⟨_, _, .blockComment, pair_iff.mp hblock, .blockComment rfl, rfl⟩
    · rw [if_neg hblock]
      by_cases hsingle : byteAt sql scan.i '\'' = true
      · rw [if_pos hsingle]
        exact Or.inr (Or.inl ⟨_, _, .literal, byteAt_iff.mp hsingle,
          .literal rfl (allowsBackslashEscapedQuote_iff (Nat.le_of_lt hi)), rfl⟩)
      · rw [if_neg hsingle]
        by_cases hdouble : byteAt sql scan.i '"' = true
        · rw [if_pos hdouble]
          exact Or.inr (Or.inl ⟨_, _, .identifier, byteAt_iff.mp hdouble, .identifier rfl, rfl⟩)
        · rw [if_neg hdouble]
          cases hdollar : parseDollarQuoteDelimiter sql scan.i with
          | some delimiter =>
              obtain ⟨hdelimiter, hlead⟩ := parseDollarQuoteDelimiter_eq_some.mp hdollar
              exact Or.inl ⟨_, _, .dollarQuote hdelimiter, hlead,
                .dollarQuote rfl rfl hdelimiter, rfl⟩
          | none =>
              refine Or.inr (Or.inr ⟨?_, rfl, rfl⟩)
              rintro (⟨opening, closing, hencloses, hlead⟩ | hlead | hlead)
              · cases hencloses with
                | lineComment => exact hline (pair_iff.mpr hlead)
                | blockComment => exact hblock (pair_iff.mpr hlead)
                | dollarQuote hdelimiter =>
                    rw [parseDollarQuoteDelimiter_eq_some.mpr ⟨hdelimiter, hlead⟩] at hdollar
                    cases hdollar
              · exact hsingle (byteAt_iff.mpr hlead)
              · exact hdouble (byteAt_iff.mpr hlead)

/-- A round in a comment or a dollar-quoted literal ends it where its end stands. -/
theorem enclosed_step {opening closing : Bytes} (h : Enclosed scan opening closing) :
    (closing <+: sql.drop scan.i ∧ (step sql scan).state = .normal ∧
      (step sql scan).i = scan.i + closing.length) ∨
    (¬ closing <+: sql.drop scan.i ∧ Enclosed (step sql scan) opening closing ∧
      (step sql scan).i = scan.i + 1) := by
  unfold step
  cases h with
  | lineComment hstate =>
      rw [hstate]
      dsimp only
      unfold stepLineCommentState moveTo
      by_cases hbyte : byteAt sql scan.i '\n' = true
      · rw [if_pos hbyte]
        exact Or.inl ⟨byteAt_iff.mp hbyte, rfl, rfl⟩
      · rw [if_neg hbyte]
        exact Or.inr ⟨fun hlead => hbyte (byteAt_iff.mpr hlead), .lineComment rfl, rfl⟩
  | blockComment hstate =>
      rw [hstate]
      dsimp only
      unfold stepBlockCommentState moveTo
      by_cases hpair : (byteAt sql scan.i '*' && byteAt sql (scan.i + 1) '/') = true
      · rw [if_pos hpair]
        exact Or.inl ⟨pair_iff.mp hpair, rfl, rfl⟩
      · rw [if_neg hpair]
        exact Or.inr ⟨fun hlead => hpair (pair_iff.mpr hlead), .blockComment rfl, rfl⟩
  | dollarQuote hstate hsome hdelimiter =>
      rw [hstate]
      dsimp only
      unfold stepDollarQuoteState
      rw [hsome]
      dsimp only
      by_cases hend : (sql.drop scan.i).take opening.length = opening
      · rw [if_pos hend]
        exact Or.inl ⟨List.prefix_iff_eq_take.mpr hend.symm, rfl, rfl⟩
      · rw [if_neg hend]
        refine Or.inr ⟨fun hlead => hend (List.prefix_iff_eq_take.mp hlead).symm, ?_, rfl⟩
        exact .dollarQuote rfl rfl hdelimiter

/-- A round between two quotes passes one part of the text, or ends it. -/
theorem quoted_step {quote : UInt8} {escapes : Prop} (h : Quoted scan quote escapes)
    (hi : scan.i < sql.length) :
    ([quote, quote] <+: sql.drop scan.i ∧ Quoted (step sql scan) quote escapes ∧
      (step sql scan).i = scan.i + 2) ∨
    (escapes ∧ ∃ rest, sql.drop scan.i = '\\'.toUInt8 :: rest ∧
      Quoted (step sql scan) quote escapes ∧
      (step sql scan).i = min (scan.i + 2) sql.length) ∨
    ([quote] <+: sql.drop scan.i ∧ ¬ [quote, quote] <+: sql.drop scan.i ∧
      (step sql scan).state = .normal ∧ (step sql scan).i = scan.i + 1) ∨
    (∃ ch, [ch] <+: sql.drop scan.i ∧ ch ≠ quote ∧ (escapes → ch ≠ '\\'.toUInt8) ∧
      Quoted (step sql scan) quote escapes ∧ (step sql scan).i = scan.i + 1) := by
  have hfirst : [sql[scan.i]] <+: sql.drop scan.i := by
    rw [List.drop_eq_getElem_cons hi]
    exact List.prefix_append [sql[scan.i]] _
  have hbyte : ∀ c : Char, sql[scan.i] = c.toUInt8 → byteAt sql scan.i c = true :=
    fun c hc => byteAt_iff.mpr (hc ▸ hfirst)
  unfold step
  cases h with
  | literal hstate hescapes =>
      rw [hstate]
      dsimp only
      unfold stepSingleQuoteState moveTo
      by_cases hpair : (byteAt sql scan.i '\'' && byteAt sql (scan.i + 1) '\'') = true
      · rw [if_pos hpair]
        exact Or.inl ⟨pair_iff.mp hpair, .literal rfl hescapes, rfl⟩
      · rw [if_neg hpair]
        have hnot : ¬ ['\''.toUInt8, '\''.toUInt8] <+: sql.drop scan.i :=
          fun hlead => hpair (pair_iff.mpr hlead)
        by_cases hslash : (scan.singleQuoteBackslashEscape && byteAt sql scan.i '\\') = true
        · rw [if_pos hslash]
          rw [Bool.and_eq_true] at hslash
          obtain ⟨rest, hrest⟩ := byteAt_iff.mp hslash.2
          exact Or.inr (Or.inl ⟨hescapes.mp hslash.1, rest, hrest.symm, .literal rfl hescapes,
            rfl⟩)
        · rw [if_neg hslash]
          by_cases hquote : byteAt sql scan.i '\'' = true
          · rw [if_pos hquote]
            exact Or.inr (Or.inr (Or.inl ⟨byteAt_iff.mp hquote, hnot, rfl, rfl⟩))
          · rw [if_neg hquote]
            refine Or.inr (Or.inr (Or.inr ⟨_, hfirst, fun heq => hquote (hbyte _ heq), ?_,
              .literal rfl hescapes, rfl⟩))
            intro hescape heq
            exact hslash (Bool.and_eq_true _ _ ▸ ⟨hescapes.mpr hescape, hbyte _ heq⟩)
  | identifier hstate =>
      rw [hstate]
      dsimp only
      unfold stepDoubleQuoteState moveTo
      by_cases hpair : (byteAt sql scan.i '"' && byteAt sql (scan.i + 1) '"') = true
      · rw [if_pos hpair]
        exact Or.inl ⟨pair_iff.mp hpair, .identifier rfl, rfl⟩
      · rw [if_neg hpair]
        have hnot : ¬ ['"'.toUInt8, '"'.toUInt8] <+: sql.drop scan.i :=
          fun hlead => hpair (pair_iff.mpr hlead)
        by_cases hquote : byteAt sql scan.i '"' = true
        · rw [if_pos hquote]
          exact Or.inr (Or.inr (Or.inl ⟨byteAt_iff.mp hquote, hnot, rfl, rfl⟩))
        · rw [if_neg hquote]
          exact Or.inr (Or.inr (Or.inr ⟨_, hfirst, fun heq => hquote (hbyte _ heq), nofun,
            .identifier rfl, rfl⟩))

end Rounds

/-! ## One token at a time -/

theorem head_of_lead {first : UInt8} {others rest : Bytes} (h : first :: others <+: rest) :
    rest.head? = some first := by
  obtain ⟨after, rfl⟩ := h
  rfl

theorem heads_eq {a b : UInt8} {as bs rest : Bytes} (ha : a :: as <+: rest)
    (hb : b :: bs <+: rest) : a = b :=
  Option.some.inj ((head_of_lead ha).symm.trans (head_of_lead hb))

theorem encloses_unique {opening closing other otherClosing rest : Bytes}
    (h : Encloses opening closing) (hother : Encloses other otherClosing)
    (hlead : opening <+: rest) (hotherLead : other <+: rest) :
    opening = other ∧ closing = otherClosing := by
  cases h with
  | lineComment =>
      cases hother with
      | lineComment => exact ⟨rfl, rfl⟩
      | blockComment => exact absurd (heads_eq hlead hotherLead) (by decide)
      | dollarQuote hdelimiter =>
          obtain ⟨tag, rfl, -⟩ := hdelimiter
          exact absurd (heads_eq hlead hotherLead) (by decide)
  | blockComment =>
      cases hother with
      | lineComment => exact absurd (heads_eq hlead hotherLead) (by decide)
      | blockComment => exact ⟨rfl, rfl⟩
      | dollarQuote hdelimiter =>
          obtain ⟨tag, rfl, -⟩ := hdelimiter
          exact absurd (heads_eq hlead hotherLead) (by decide)
  | dollarQuote hdelimiter =>
      cases hother with
      | lineComment =>
          obtain ⟨tag, rfl, -⟩ := hdelimiter
          exact absurd (heads_eq hlead hotherLead) (by decide)
      | blockComment =>
          obtain ⟨tag, rfl, -⟩ := hdelimiter
          exact absurd (heads_eq hlead hotherLead) (by decide)
      | dollarQuote hdelimiter' =>
          have hparse := (@parseDollarQuoteDelimiter_eq_some rest _ 0).mpr ⟨hdelimiter, hlead⟩
          have hother := (@parseDollarQuoteDelimiter_eq_some rest _ 0).mpr
            ⟨hdelimiter', hotherLead⟩
          rw [hparse] at hother
          exact ⟨Option.some.inj hother, Option.some.inj hother⟩

theorem encloses_not_quotes {opening closing before rest : Bytes} {quote : UInt8} {escapes : Prop}
    (h : Encloses opening closing) (hquotes : Quotes before quote escapes)
    (hlead : opening <+: rest) : ¬ [quote] <+: rest := by
  intro hquote
  cases h with
  | lineComment => cases hquotes <;> exact absurd (heads_eq hlead hquote) (by decide)
  | blockComment => cases hquotes <;> exact absurd (heads_eq hlead hquote) (by decide)
  | dollarQuote hdelimiter =>
      obtain ⟨tag, rfl, -⟩ := hdelimiter
      cases hquotes <;> exact absurd (heads_eq hlead hquote) (by decide)

theorem quotes_unique {before rest : Bytes} {quote other : UInt8} {escapes otherEscapes : Prop}
    (h : Quotes before quote escapes) (hother : Quotes before other otherEscapes)
    (hlead : [quote] <+: rest) (hotherLead : [other] <+: rest) :
    quote = other ∧ escapes = otherEscapes := by
  cases h with
  | literal =>
      cases hother with
      | literal => exact ⟨rfl, rfl⟩
      | identifier => exact absurd (heads_eq hlead hotherLead) (by decide)
  | identifier =>
      cases hother with
      | literal => exact absurd (heads_eq hlead hotherLead) (by decide)
      | identifier => exact ⟨rfl, rfl⟩

theorem Quotes.opens {before rest : Bytes} {quote : UInt8} {escapes : Prop}
    (h : Quotes before quote escapes) (hlead : [quote] <+: rest) : Opens rest := by
  cases h with
  | literal => exact Or.inr (Or.inl hlead)
  | identifier => exact Or.inr (Or.inr hlead)

theorem Quotes.not_backslash {before : Bytes} {quote : UInt8} {escapes : Prop}
    (h : Quotes before quote escapes) : quote ≠ '\\'.toUInt8 := by
  cases h <;> decide

/-! ## The scan stays on the tokens -/

/-- Where the scan is, by the token it is in. -/
inductive OnTokens (sql : Bytes) (scan : Scan) : Prop where
  | ended : sql.length ≤ scan.i → OnTokens sql scan
  | code : scan.state = .normal → AtCode sql scan.i → OnTokens sql scan
  | enclosed {opening closing tail : Bytes} {start n : ℕ} : Enclosed scan opening closing →
      AtCode sql start → sql.drop start = opening ++ tail →
      scan.i = start + opening.length + n → (∀ j < n, ¬ closing <+: tail.drop j) →
      OnTokens sql scan
  | quoted {quote : UInt8} {escapes : Prop} {text : Bytes} {start : ℕ} :
      Quoted scan quote escapes → AtCode sql start → Quotes (sql.take start) quote escapes →
      sql.drop start = quote :: (text ++ sql.drop scan.i) →
      scan.i = start + 1 + text.length → QuotedText quote escapes text → OnTokens sql scan

section Sound
variable {sql : Bytes} {scan : Scan}

theorem drop_of_lead {part : Bytes} {i : ℕ} (h : part <+: sql.drop i) :
    sql.drop i = part ++ sql.drop (i + part.length) := by
  obtain ⟨rest, hrest⟩ := h
  rw [← List.drop_drop, ← hrest, List.drop_left]

theorem OnTokens.step (h : OnTokens sql scan) (hi : scan.i < sql.length) :
    OnTokens sql (step sql scan) := by
  cases h with
  | ended hend => exact absurd hi (Nat.not_lt.mpr hend)
  | code hstate hcode =>
      obtain ⟨opening, closing, hencloses, hlead, hnext, hmove⟩ |
        ⟨quote, escapes, hquotes, hlead, hnext, hmove⟩ | ⟨hplain, hnext, hmove⟩ :=
        normal_step hstate hi
      · exact .enclosed hnext hcode (drop_of_lead hlead) hmove
          fun j hj => absurd hj (Nat.not_lt_zero j)
      · refine @OnTokens.quoted sql _ _ _ [] _ hnext hcode hquotes ?_ hmove .nil
        rw [hmove]
        exact drop_of_lead hlead
      · exact .code hnext (hmove ▸ hcode.code hi hplain)
  | @enclosed opening closing tail start n hin hcode hdrop hplace hfirst =>
      have hrest : sql.drop scan.i = tail.drop n := by
        rw [hplace, Nat.add_assoc, ← List.drop_drop, hdrop, ← List.drop_drop, List.drop_left]
      obtain ⟨hclose, hnext, hmove⟩ | ⟨hopen, hnext, hmove⟩ := @enclosed_step sql _ _ _ hin
      · refine .code hnext ?_
        rw [hrest] at hclose
        have htoken := hcode.token (Token.enclosed hin.encloses hdrop hclose hfirst)
        rw [hmove, hplace, Nat.add_assoc, Nat.add_assoc, ← Nat.add_assoc opening.length]
        exact htoken
      · refine .enclosed (n := n + 1) hnext hcode hdrop ?_ fun j hj => ?_
        · rw [hmove, hplace]
          rfl
        · cases Nat.lt_succ_iff_lt_or_eq.mp hj with
          | inl hlt => exact hfirst j hlt
          | inr heq => exact heq ▸ hrest ▸ hopen
  | @quoted quote escapes text start hin hcode hquotes hdrop hplace htext =>
      have hextend : ∀ part : Bytes, part <+: sql.drop scan.i →
          (JinjaScan.step sql scan).i = scan.i + part.length →
          sql.drop start = quote :: ((text ++ part) ++ sql.drop (JinjaScan.step sql scan).i) ∧
            (JinjaScan.step sql scan).i = start + 1 + (text ++ part).length := by
        intro part hlead hmove
        rw [hdrop, drop_of_lead hlead, hmove, hplace, List.length_append, List.append_assoc]
        exact ⟨rfl, Nat.add_assoc ..⟩
      obtain ⟨hlead, hnext, hmove⟩ | ⟨hescapes, rest, hrest, hnext, hmove⟩ |
        ⟨hlead, hnot, hnext, hmove⟩ | ⟨ch, hlead, hquote, hslash, hnext, hmove⟩ :=
        quoted_step hin hi
      · obtain ⟨hdrop', hplace'⟩ := hextend _ hlead hmove
        exact .quoted hnext hcode hquotes hdrop' hplace' htext.doubled
      · cases rest with
        | nil =>
            -- a backslash at the end of the query escapes nothing
            have hlength := congrArg List.length hrest
            rw [List.length_drop, List.length_singleton] at hlength
            refine .ended ?_
            rw [hmove]
            omega
        | cons ch rest =>
            have hlead : ['\\'.toUInt8, ch] <+: sql.drop scan.i :=
              hrest ▸ List.prefix_append ['\\'.toUInt8, ch] rest
            have hlength := hlead.length_le
            rw [List.length_drop, List.length_cons, List.length_singleton] at hlength
            rw [Nat.min_eq_left (by omega)] at hmove
            obtain ⟨hdrop', hplace'⟩ := hextend _ hlead hmove
            exact .quoted hnext hcode hquotes hdrop' hplace' (htext.escaped hescapes)
      · have hsplit : sql.drop scan.i = quote :: sql.drop (scan.i + 1) := drop_of_lead hlead
        have hend : quote ∉ (sql.drop (scan.i + 1)).head? := by
          intro hmem
          obtain ⟨rest, hrest⟩ := List.head?_eq_some_iff.mp hmem
          rw [hsplit, hrest] at hnot
          exact hnot (List.prefix_append [quote, quote] rest)
        refine .code hnext ?_
        have htoken := hcode.token (Token.quoted hquotes (hsplit ▸ hdrop) htext hend)
        rw [hmove, hplace]
        have hsum : start + 1 + text.length + 1 = start + (text.length + 2) := by omega
        rw [hsum]
        exact htoken
      · obtain ⟨hdrop', hplace'⟩ := hextend _ hlead hmove
        exact .quoted hnext hcode hquotes hdrop' hplace' (htext.plain hquote hslash)

end Sound

/-! ## The scan comes to every token -/

/-- The scan behind a number of rounds. -/
def scanAt (sql : Bytes) (rounds : ℕ) : Scan := scanFrom sql rounds initialScan

section Complete
variable {sql : Bytes}

theorem scanFrom_succ (rounds : ℕ) (scan : Scan) : scanFrom sql (rounds + 1) scan =
    if (scanFrom sql rounds scan).i < sql.length then step sql (scanFrom sql rounds scan)
    else scanFrom sql rounds scan := by
  induction rounds generalizing scan with
  | zero => rfl
  | succ rounds ih =>
      by_cases hi : scan.i < sql.length
      · rw [scanFrom, if_pos hi, ih, scanFrom, if_pos hi]
      · rw [scanFrom, if_neg hi, scanFrom, if_neg hi, if_neg hi]

theorem scanAt_succ {rounds : ℕ} (h : (scanAt sql rounds).i < sql.length) :
    scanAt sql (rounds + 1) = step sql (scanAt sql rounds) :=
  (scanFrom_succ rounds initialScan).trans (if_pos h)

theorem scanAt_stays {rounds : ℕ} (h : ¬ (scanAt sql rounds).i < sql.length) :
    scanAt sql (rounds + 1) = scanAt sql rounds :=
  (scanFrom_succ rounds initialScan).trans (if_neg h)

theorem scanAt_onTokens (rounds : ℕ) : OnTokens sql (scanAt sql rounds) := by
  induction rounds with
  | zero => exact .code rfl .start
  | succ rounds ih =>
      by_cases hi : (scanAt sql rounds).i < sql.length
      · rw [scanAt_succ hi]
        exact ih.step hi
      · rw [scanAt_stays hi]
        exact ih

theorem scanAt_closable (rounds : ℕ) : Closable (scanAt sql rounds) := by
  induction rounds with
  | zero => exact (Option.some_ne_none []).symm
  | succ rounds ih =>
      by_cases hi : (scanAt sql rounds).i < sql.length
      · rw [scanAt_succ hi]
        exact (step_progress ih hi).2
      · rw [scanAt_stays hi]
        exact ih

/-- A round that is made moves on. -/
theorem scanAt_progress {rounds : ℕ} (h : (scanAt sql rounds).i < sql.length) :
    (scanAt sql rounds).i < (scanAt sql (rounds + 1)).i := by
  rw [scanAt_succ h]
  exact (step_progress (scanAt_closable rounds) h).1

theorem le_scanAt {rounds : ℕ} (h : (scanAt sql rounds).i < sql.length) :
    rounds ≤ (scanAt sql rounds).i := by
  induction rounds with
  | zero => exact Nat.zero_le _
  | succ rounds ih =>
      by_cases hi : (scanAt sql rounds).i < sql.length
      · exact Nat.lt_of_le_of_lt (ih hi) (scanAt_progress hi)
      · rw [scanAt_stays hi] at h
        exact absurd h hi

theorem lt_length_of_drop {i : ℕ} {first : UInt8} {rest : Bytes} (h : sql.drop i = first :: rest) :
    i < sql.length := by
  have hlength := congrArg List.length h
  rw [List.length_drop, List.length_cons] at hlength
  omega

theorem lt_length_of_lead {i : ℕ} {part : Bytes} (h : part <+: sql.drop i) (hne : part ≠ []) :
    i < sql.length := by
  have hlength := h.length_le
  rw [List.length_drop] at hlength
  have hpos := List.length_pos_iff.mpr hne
  omega

theorem Encloses.closing_ne_nil {opening closing : Bytes} (h : Encloses opening closing) :
    closing ≠ [] := by
  cases h with
  | lineComment | blockComment => exact List.cons_ne_nil _ _
  | dollarQuote hdelimiter =>
      obtain ⟨tag, rfl, -⟩ := hdelimiter
      exact List.cons_ne_nil _ _

theorem Encloses.opening_ne_nil {opening closing : Bytes} (h : Encloses opening closing) :
    opening ≠ [] := by
  cases h with
  | lineComment | blockComment => exact List.cons_ne_nil _ _
  | dollarQuote hdelimiter =>
      obtain ⟨tag, rfl, -⟩ := hdelimiter
      exact List.cons_ne_nil _ _

/-- The scan is in code at `i` in some round. -/
def Visited (sql : Bytes) (i : ℕ) : Prop :=
  ∃ rounds, (scanAt sql rounds).i = i ∧ (scanAt sql rounds).state = .normal

theorem visited_enclosed {opening closing tail : Bytes} {i n : ℕ}
    (h : Visited sql i) (hencloses : Encloses opening closing)
    (hdrop : sql.drop i = opening ++ tail) (hclose : closing <+: tail.drop n)
    (hfirst : ∀ j < n, ¬ closing <+: tail.drop j) :
    Visited sql (i + (opening.length + n + closing.length)) := by
  obtain ⟨rounds, rfl, hstate⟩ := h
  have hrest : ∀ j, sql.drop ((scanAt sql rounds).i + opening.length + j) = tail.drop j := by
    intro j
    rw [Nat.add_assoc, ← List.drop_drop, hdrop, ← List.drop_drop, List.drop_left]
  have hlead : opening <+: sql.drop (scanAt sql rounds).i := hdrop ▸ List.prefix_append opening tail
  have hrun : ∀ j ≤ n, ∃ later, Enclosed (scanAt sql later) opening closing ∧
      (scanAt sql later).i = (scanAt sql rounds).i + opening.length + j := by
    intro j hj
    induction j with
    | zero =>
        have hi := lt_length_of_lead hlead hencloses.opening_ne_nil
        refine ⟨rounds + 1, ?_⟩
        rw [scanAt_succ hi]
        obtain ⟨o, c, hother, hotherLead, hnext, hmove⟩ |
          ⟨quote, escapes, hquotes, hquoteLead, -⟩ | ⟨hplain, -⟩ := normal_step hstate hi
        · obtain ⟨rfl, rfl⟩ := encloses_unique hencloses hother hlead hotherLead
          exact ⟨hnext, hmove⟩
        · exact absurd hquoteLead (encloses_not_quotes hencloses hquotes hlead)
        · exact absurd (Or.inl ⟨opening, closing, hencloses, hlead⟩) hplain
    | succ j ih =>
        obtain ⟨later, hin, hplace⟩ := ih (Nat.le_of_succ_le hj)
        have hi : (scanAt sql later).i < sql.length := by
          have htail : n < tail.length := lt_length_of_lead hclose hencloses.closing_ne_nil
          have hlength := congrArg List.length (hrest j)
          rw [List.length_drop, List.length_drop] at hlength
          omega
        refine ⟨later + 1, ?_⟩
        rw [scanAt_succ hi]
        obtain ⟨hended, -⟩ | ⟨-, hnext, hmove⟩ := @enclosed_step sql _ _ _ hin
        · rw [hplace, hrest] at hended
          exact absurd hended (hfirst j hj)
        · exact ⟨hnext, hmove.trans (congrArg (· + 1) hplace)⟩
  obtain ⟨later, hin, hplace⟩ := hrun n (Nat.le_refl n)
  rw [← hrest, ← hplace] at hclose
  have hi := lt_length_of_lead hclose hencloses.closing_ne_nil
  refine ⟨later + 1, ?_⟩
  rw [scanAt_succ hi]
  obtain ⟨-, hnext, hmove⟩ | ⟨hopen, -⟩ := @enclosed_step sql _ _ _ hin
  · exact ⟨by rw [hmove, hplace, Nat.add_assoc, Nat.add_assoc, ← Nat.add_assoc opening.length],
      hnext⟩
  · exact absurd hclose hopen

theorem drop_append_of {i : ℕ} {text after : Bytes} {quote : UInt8}
    (h : sql.drop i = quote :: (text ++ after)) : sql.drop (i + 1 + text.length) = after := by
  rw [← List.drop_drop, ← List.drop_drop, h, List.drop_one, List.tail_cons, List.drop_left]

theorem visited_quoted {quote : UInt8} {escapes : Prop} {text after : Bytes} {i : ℕ}
    (h : Visited sql i) (hquotes : Quotes (sql.take i) quote escapes)
    (hdrop : sql.drop i = quote :: (text ++ quote :: after))
    (htext : QuotedText quote escapes text) (hend : quote ∉ after.head?) :
    Visited sql (i + (text.length + 2)) := by
  obtain ⟨rounds, rfl, hstate⟩ := h
  have hlead : [quote] <+: sql.drop (scanAt sql rounds).i :=
    hdrop ▸ List.prefix_append [quote] (text ++ quote :: after)
  -- the scan passes the text part by part, whatever comes behind it
  have hrun : ∀ {front : Bytes}, QuotedText quote escapes front → ∀ ch others,
      sql.drop (scanAt sql rounds).i = quote :: (front ++ ch :: others) →
      ∃ later, Quoted (scanAt sql later) quote escapes ∧
        (scanAt sql later).i = (scanAt sql rounds).i + 1 + front.length := by
    intro front hfront
    induction hfront with
    | nil =>
        intro ch others _
        have hi := lt_length_of_drop hdrop
        refine ⟨rounds + 1, ?_⟩
        rw [scanAt_succ hi]
        obtain ⟨o, c, hother, hotherLead, -⟩ | ⟨other, es, hother, hotherLead, hnext, hmove⟩ |
          ⟨hplain, -⟩ := normal_step hstate hi
        · exact absurd hlead (encloses_not_quotes hother hquotes hotherLead)
        · obtain ⟨rfl, rfl⟩ := quotes_unique hquotes hother hlead hotherLead
          exact ⟨hnext, hmove⟩
        · exact absurd (hquotes.opens hlead) hplain
    | @plain front ch _ hne hslash ih =>
        intro next others hsplit
        rw [List.append_assoc, List.singleton_append] at hsplit
        obtain ⟨later, hin, hplace⟩ := ih ch (next :: others) hsplit
        have hrest := drop_append_of hsplit
        rw [← hplace] at hrest
        have hfirst : [ch] <+: sql.drop (scanAt sql later).i :=
          hrest ▸ List.prefix_append [ch] (next :: others)
        have hi := lt_length_of_drop hrest
        refine ⟨later + 1, ?_⟩
        rw [scanAt_succ hi]
        obtain ⟨hpair, -⟩ | ⟨hescapes, rest, hbackslash, -⟩ | ⟨hquote, -⟩ |
          ⟨_, _, _, _, hnext, hmove⟩ := quoted_step hin hi
        · exact absurd (heads_eq hfirst hpair) hne
        · exact absurd (List.cons.inj (hrest.symm.trans hbackslash)).1 (hslash hescapes)
        · exact absurd (heads_eq hfirst hquote) hne
        · rw [hmove, hplace, List.length_append]
          exact ⟨hnext, rfl⟩
    | @doubled front _ ih =>
        intro next others hsplit
        rw [List.append_assoc] at hsplit
        obtain ⟨later, hin, hplace⟩ := ih quote (quote :: next :: others) hsplit
        have hrest : sql.drop _ = quote :: quote :: next :: others := drop_append_of hsplit
        rw [← hplace] at hrest
        have hpair : [quote, quote] <+: sql.drop (scanAt sql later).i :=
          hrest ▸ List.prefix_append [quote, quote] (next :: others)
        have hi := lt_length_of_drop hrest
        refine ⟨later + 1, ?_⟩
        rw [scanAt_succ hi]
        obtain ⟨-, hnext, hmove⟩ | ⟨-, rest, hbackslash, -⟩ | ⟨-, hnot, -⟩ |
          ⟨ch, hch, hne, -⟩ := quoted_step hin hi
        · rw [hmove, hplace, List.length_append]
          exact ⟨hnext, rfl⟩
        · exact absurd (List.cons.inj (hrest.symm.trans hbackslash)).1 hquotes.not_backslash
        · exact absurd hpair hnot
        · exact absurd (heads_eq hch hpair) hne
    | @escaped front ch _ hescapes ih =>
        intro next others hsplit
        rw [List.append_assoc] at hsplit
        obtain ⟨later, hin, hplace⟩ := ih '\\'.toUInt8 (ch :: next :: others) hsplit
        have hrest : sql.drop _ = '\\'.toUInt8 :: ch :: next :: others := drop_append_of hsplit
        rw [← hplace] at hrest
        have hfirst : ['\\'.toUInt8] <+: sql.drop (scanAt sql later).i :=
          hrest ▸ List.prefix_append ['\\'.toUInt8] (ch :: next :: others)
        have hi := lt_length_of_drop hrest
        have hlength := congrArg List.length hrest
        rw [List.length_drop, List.length_cons, List.length_cons] at hlength
        refine ⟨later + 1, ?_⟩
        rw [scanAt_succ hi]
        obtain ⟨hpair, -⟩ | ⟨-, rest, -, hnext, hmove⟩ | ⟨hquote, -⟩ |
          ⟨c, hc, -, hslash, -⟩ := quoted_step hin hi
        · exact absurd (heads_eq hpair hfirst) hquotes.not_backslash
        · rw [Nat.min_eq_left (by omega)] at hmove
          rw [hmove, hplace, List.length_append]
          exact ⟨hnext, rfl⟩
        · exact absurd (heads_eq hquote hfirst) hquotes.not_backslash
        · exact absurd (heads_eq hc hfirst) (hslash hescapes)
  obtain ⟨later, hin, hplace⟩ := hrun htext quote after hdrop
  have hrest := drop_append_of hdrop
  rw [← hplace] at hrest
  have hquote : [quote] <+: sql.drop (scanAt sql later).i :=
    hrest ▸ List.prefix_append [quote] after
  have hi := lt_length_of_drop hrest
  refine ⟨later + 1, ?_⟩
  rw [scanAt_succ hi]
  obtain ⟨hpair, -⟩ | ⟨-, rest, hbackslash, -⟩ | ⟨-, -, hnext, hmove⟩ |
    ⟨ch, hch, hne, -⟩ := quoted_step hin hi
  · rw [hrest, List.prefix_cons_inj] at hpair
    exact absurd (head_of_lead hpair) hend
  · exact absurd (List.cons.inj (hrest.symm.trans hbackslash)).1 hquotes.not_backslash
  · refine ⟨?_, hnext⟩
    rw [hmove, hplace]
    omega
  · exact absurd (heads_eq hch hquote) hne

/-- The scan comes to every position between tokens. -/
theorem AtCode.visited {i : ℕ} (h : AtCode sql i) : Visited sql i := by
  induction h with
  | start => exact ⟨0, rfl, rfl⟩
  | token _ htoken ih =>
      cases htoken with
      | enclosed hencloses hdrop hclose hfirst =>
          exact visited_enclosed ih hencloses hdrop hclose hfirst
      | quoted hquotes hdrop htext hend => exact visited_quoted ih hquotes hdrop htext hend
  | code _ hi hplain ih =>
      obtain ⟨rounds, rfl, hstate⟩ := ih
      refine ⟨rounds + 1, ?_⟩
      rw [scanAt_succ hi]
      obtain ⟨opening, closing, hencloses, hlead, -⟩ | ⟨quote, escapes, hquotes, hlead, -⟩ |
        ⟨-, hnext, hmove⟩ := normal_step hstate hi
      · exact absurd (Or.inl ⟨opening, closing, hencloses, hlead⟩) hplain
      · exact absurd (hquotes.opens hlead) hplain
      · exact ⟨hmove, hnext⟩

/-- And in code it is at such positions only. -/
theorem Visited.atCode {i : ℕ} (h : Visited sql i) (hi : i < sql.length) : AtCode sql i := by
  obtain ⟨rounds, rfl, hstate⟩ := h
  cases @scanAt_onTokens sql rounds with
  | ended hend => exact absurd hi (Nat.not_lt.mpr hend)
  | code _ hcode => exact hcode
  | enclosed hin => exact absurd hstate hin.not_normal
  | quoted hin => exact absurd hstate hin.not_normal

end Complete

/-! ## Markers -/

section Markers
variable {sql : Bytes} {i : ℕ} {marker : String}

theorem byteAt_inj {c d : Char} (hc : byteAt sql i c = true) (hd : byteAt sql i d = true) :
    c.toUInt8 = d.toUInt8 :=
  heads_eq (byteAt_iff.mp hc) (byteAt_iff.mp hd)

theorem markerAt_iff : MarkerAt sql i marker ↔ byteAt sql i '\x7b' = true ∧
    (marker = "\x7b\x7b" ∧ byteAt sql (i + 1) '\x7b' = true ∨
      marker = "\x7b%" ∧ byteAt sql (i + 1) '%' = true ∨
      marker = "\x7b#" ∧ byteAt sql (i + 1) '#' = true) := by
  unfold MarkerAt jinjaMarkers
  rw [List.mem_cons, List.mem_cons, List.mem_singleton]
  constructor
  · rintro ⟨rfl | rfl | rfl, hlead⟩
    · have hpair := Bool.and_eq_true _ _ ▸ pair_iff.mpr hlead
      exact ⟨hpair.1, Or.inl ⟨rfl, hpair.2⟩⟩
    · have hpair := Bool.and_eq_true _ _ ▸ pair_iff.mpr hlead
      exact ⟨hpair.1, Or.inr (Or.inl ⟨rfl, hpair.2⟩)⟩
    · have hpair := Bool.and_eq_true _ _ ▸ pair_iff.mpr hlead
      exact ⟨hpair.1, Or.inr (Or.inr ⟨rfl, hpair.2⟩)⟩
  · rintro ⟨hfirst, ⟨rfl, hsecond⟩ | ⟨rfl, hsecond⟩ | ⟨rfl, hsecond⟩⟩
    · exact ⟨Or.inl rfl, pair_iff.mp (Bool.and_eq_true _ _ ▸ ⟨hfirst, hsecond⟩)⟩
    · exact ⟨Or.inr (Or.inl rfl), pair_iff.mp (Bool.and_eq_true _ _ ▸ ⟨hfirst, hsecond⟩)⟩
    · exact ⟨Or.inr (Or.inr rfl), pair_iff.mp (Bool.and_eq_true _ _ ▸ ⟨hfirst, hsecond⟩)⟩

theorem mem_pushUniqueJinjaMarker {markers : List String} {new : String} :
    marker ∈ pushUniqueJinjaMarker markers new ↔ marker ∈ markers ∨ marker = new := by
  unfold pushUniqueJinjaMarker
  cases h : markers.contains new with
  | true =>
      rw [if_pos rfl]
      refine ⟨Or.inl, ?_⟩
      rintro (hmem | rfl)
      · exact hmem
      · exact List.contains_iff_mem.mp h
  | false => rw [if_neg Bool.false_ne_true, List.mem_append, List.mem_singleton]

theorem mem_detectJinjaMarker {markers : List String} :
    marker ∈ detectJinjaMarker sql i markers ↔ marker ∈ markers ∨ MarkerAt sql i marker := by
  rw [markerAt_iff]
  unfold detectJinjaMarker
  cases hfirst : byteAt sql i '\x7b' with
  | false => simp only [Bool.false_eq_true, if_false, false_and, or_false]
  | true =>
      cases hbrace : byteAt sql (i + 1) '\x7b' with
      | true =>
          have hpercent : byteAt sql (i + 1) '%' = false := Bool.eq_false_iff.mpr fun h =>
            absurd (byteAt_inj hbrace h) (by decide)
          have hhash : byteAt sql (i + 1) '#' = false := Bool.eq_false_iff.mpr fun h =>
            absurd (byteAt_inj hbrace h) (by decide)
          simp only [if_true, hpercent, hhash, mem_pushUniqueJinjaMarker, Bool.false_eq_true,
            and_false, or_false, and_true, true_and]
      | false =>
          cases hpercent : byteAt sql (i + 1) '%' with
          | true =>
              have hhash : byteAt sql (i + 1) '#' = false := Bool.eq_false_iff.mpr fun h =>
                absurd (byteAt_inj hpercent h) (by decide)
              simp only [if_true, if_false, hhash, mem_pushUniqueJinjaMarker, Bool.false_eq_true,
                and_false, false_or, or_false, and_true, true_and]
          | false =>
              cases hhash : byteAt sql (i + 1) '#' with
              | true =>
                  simp only [if_true, if_false, mem_pushUniqueJinjaMarker, Bool.false_eq_true,
                    and_false, false_or, and_true, true_and]
              | false =>
                  simp only [if_true, if_false, Bool.false_eq_true, and_false, or_self, or_false]

/-- No token opens with a brace. -/
theorem MarkerAt.not_opens (h : MarkerAt sql i marker) : ¬ Opens (sql.drop i) := by
  have hbrace := byteAt_iff.mp (markerAt_iff.mp h).1
  rintro (⟨opening, closing, hencloses, hlead⟩ | hlead | hlead)
  · cases hencloses with
    | lineComment | blockComment => exact absurd (heads_eq hbrace hlead) (by decide)
    | dollarQuote hdelimiter =>
        obtain ⟨tag, rfl, -⟩ := hdelimiter
        exact absurd (heads_eq hbrace hlead) (by decide)
  · exact absurd (heads_eq hbrace hlead) (by decide)
  · exact absurd (heads_eq hbrace hlead) (by decide)

theorem stepNormalState_markers {scan : Scan} : marker ∈ (stepNormalState sql scan).markers ↔
    marker ∈ scan.markers ∨ MarkerAt sql scan.i marker := by
  have hopens : Opens (sql.drop scan.i) →
      (marker ∈ scan.markers ↔ marker ∈ scan.markers ∨ MarkerAt sql scan.i marker) :=
    fun hopens => ⟨Or.inl, fun h => h.resolve_right fun hat => hat.not_opens hopens⟩
  unfold stepNormalState
  dsimp only
  by_cases hline : (byteAt sql scan.i '-' && byteAt sql (scan.i + 1) '-') = true
  · rw [if_pos hline]
    exact hopens (Or.inl ⟨_, _, .lineComment, pair_iff.mp hline⟩)
  · rw [if_neg hline]
    by_cases hblock : (byteAt sql scan.i '/' && byteAt sql (scan.i + 1) '*') = true
    · rw [if_pos hblock]
      exact hopens (Or.inl ⟨_, _, .blockComment, pair_iff.mp hblock⟩)
    · rw [if_neg hblock]
      by_cases hsingle : byteAt sql scan.i '\'' = true
      · rw [if_pos hsingle]
        exact hopens (Or.inr (Or.inl (byteAt_iff.mp hsingle)))
      · rw [if_neg hsingle]
        by_cases hdouble : byteAt sql scan.i '"' = true
        · rw [if_pos hdouble]
          exact hopens (Or.inr (Or.inr (byteAt_iff.mp hdouble)))
        · rw [if_neg hdouble]
          cases hdollar : parseDollarQuoteDelimiter sql scan.i with
          | some delimiter =>
              obtain ⟨hdelimiter, hlead⟩ := parseDollarQuoteDelimiter_eq_some.mp hdollar
              exact hopens (Or.inl ⟨_, _, .dollarQuote hdelimiter, hlead⟩)
          | none => exact mem_detectJinjaMarker

theorem step_markers {scan : Scan} : marker ∈ (step sql scan).markers ↔
    marker ∈ scan.markers ∨ scan.state = .normal ∧ MarkerAt sql scan.i marker := by
  unfold step
  cases hstate : scan.state with
  | normal =>
      rw [eq_self, true_and]
      exact stepNormalState_markers
  | singleQuote =>
      dsimp only
      split <;> exact ⟨Or.inl, fun h => h.resolve_right fun hat => nomatch hat.1⟩
  | doubleQuote | lineComment | blockComment =>
      exact ⟨Or.inl, fun h => h.resolve_right fun hat => nomatch hat.1⟩
  | dollarQuote =>
      have hsame : (stepDollarQuoteState sql scan).markers = scan.markers := by
        unfold stepDollarQuoteState
        dsimp only
        split
        · split <;> rfl
        · rfl
      dsimp only
      rw [hsame]
      exact ⟨Or.inl, fun h => h.resolve_right fun hat => nomatch hat.1⟩

/-- The markers found are those the scan has come to in code. -/
theorem scanAt_markers (rounds : ℕ) : marker ∈ (scanAt sql rounds).markers ↔
    ∃ earlier < rounds, (scanAt sql earlier).i < sql.length ∧
      (scanAt sql earlier).state = .normal ∧ MarkerAt sql (scanAt sql earlier).i marker := by
  induction rounds with
  | zero => exact iff_of_false List.not_mem_nil fun ⟨_, h, _⟩ => absurd h (Nat.not_lt_zero _)
  | succ rounds ih =>
      have hsplit : (∃ earlier < rounds + 1, (scanAt sql earlier).i < sql.length ∧
          (scanAt sql earlier).state = .normal ∧ MarkerAt sql (scanAt sql earlier).i marker) ↔
          marker ∈ (scanAt sql rounds).markers ∨ (scanAt sql rounds).i < sql.length ∧
            (scanAt sql rounds).state = .normal ∧
            MarkerAt sql (scanAt sql rounds).i marker := by
        rw [ih]
        constructor
        · rintro ⟨earlier, hlt, hfound⟩
          cases Nat.lt_succ_iff_lt_or_eq.mp hlt with
          | inl hlt => exact Or.inl ⟨earlier, hlt, hfound⟩
          | inr heq => exact Or.inr (heq ▸ hfound)
        · rintro (⟨earlier, hlt, hfound⟩ | hfound)
          · exact ⟨earlier, Nat.lt_succ_of_lt hlt, hfound⟩
          · exact ⟨rounds, Nat.lt_succ_self _, hfound⟩
      rw [hsplit]
      by_cases hi : (scanAt sql rounds).i < sql.length
      · rw [scanAt_succ hi, step_markers]
        simp only [hi, true_and]
      · rw [scanAt_stays hi]
        simp only [hi, false_and, or_false]

/-- A marker is reported exactly when it starts at a position of code, every round of the loop
moves on, and the loop ends. -/
theorem recipeQueryJinjaMarkers_spec (sql : Bytes) :
    (∀ marker, marker ∈ recipeQueryJinjaMarkers sql ↔
      ∃ i, AtCode sql i ∧ MarkerAt sql i marker) ∧
    (∀ rounds, (scanAt sql rounds).i < sql.length →
      (scanAt sql rounds).i < (scanAt sql (rounds + 1)).i) ∧
    sql.length ≤ (scanAt sql sql.length).i := by
  refine ⟨fun marker => ?_, fun rounds h => scanAt_progress h, recipeQueryJinjaMarkers_ends sql⟩
  change marker ∈ (scanAt sql sql.length).markers ↔ _
  rw [scanAt_markers]
  constructor
  · rintro ⟨rounds, -, hi, hstate, hat⟩
    exact ⟨_, Visited.atCode ⟨rounds, rfl, hstate⟩ hi, hat⟩
  · rintro ⟨i, hcode, hat⟩
    obtain ⟨rounds, rfl, hstate⟩ := hcode.visited
    have hi : (scanAt sql rounds).i < sql.length :=
      lt_length_of_lead (byteAt_iff.mp (markerAt_iff.mp hat).1) (List.cons_ne_nil _ _)
    exact ⟨rounds, Nat.lt_of_le_of_lt (le_scanAt hi) hi, hi, hstate, hat⟩

end Markers

end DbtNova.JinjaScan
