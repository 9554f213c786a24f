import DbtNova.Error
import DbtNova.Json
import DbtNova.Placeholders
import DbtNova.Text
import Mathlib.Algebra.Order.Ring.Int
import Mathlib.Data.List.Forall2

/-!
# Named parameters of SQL statements

The DuckDB and the Snowflake provider replace `:name` by `?` with a scanner each. The
two scanners are one loop with three switches. A turn of the loop looks at one character
and the next one, and takes one or both; so what the loop makes of a colon depends on
the text before it, and a reading of that text character by character, one behind,
finds it out (`Mode`).

How an engine reads a statement is given. All bytes the source compares are ASCII, so
reading characters instead changes nothing. A parameter map is an association list in
which the first entry of a key counts.
-/
namespace DbtNova.NamedParameters
open Placeholders

abbrev ParameterMap := List (String × JsonValue)

def isIdentifierStart (c : Char) : Bool := c.isAlpha || c == '_'

def isIdentifierContinue (c : Char) : Bool := c.isAlphanum || c == '_'

inductive RewriteState where
  | code
  | singleQuotedString
  | dollarQuotedString
  | doubleQuotedIdentifier
  | lineComment
  | blockComment
  deriving DecidableEq, Repr

structure RewrittenSql where
  sql : String
  orderedParameters : List String
  deriving DecidableEq, Repr

def missingValue (name : String) : DbtNovaError :=
  .invalidParams ("Missing value for SQL parameter :" ++ name)

/-- What the Snowflake scanner knows and the DuckDB scanner does not. -/
structure Dialect where
  backslashEscapes : Bool
  dollarQuotes : Bool
  variantPaths : Bool
  deriving DecidableEq, Repr

/-- The characters that a turn of the loop copies, and the state after it. -/
structure Advance where
  copied : ℕ
  state : RewriteState
  deriving DecidableEq, Repr

section Scanner
variable (d : Dialect)

/-- A turn that takes no parameter, at a character with the next one. -/
def advance (state : RewriteState) (c : Char) (next : Option Char) : Advance :=
  match state with
  | .code =>
      if c = '\'' then ⟨1, .singleQuotedString⟩
      else if c = '"' then ⟨1, .doubleQuotedIdentifier⟩
      else if d.dollarQuotes = true ∧ c = '$' ∧ next = some '$' then ⟨2, .dollarQuotedString⟩
      else if c = '-' ∧ next = some '-' then ⟨2, .lineComment⟩
      else if c = '/' ∧ next = some '*' then ⟨2, .blockComment⟩
      else if c = ':' ∧ next = some ':' then ⟨2, .code⟩
      else ⟨1, .code⟩
  | .singleQuotedString =>
      if d.backslashEscapes = true ∧ c = '\\' ∧ next ≠ none then ⟨2, .singleQuotedString⟩
      else if c = '\'' ∧ next = some '\'' then ⟨2, .singleQuotedString⟩
      else if c = '\'' then ⟨1, .code⟩
      else ⟨1, .singleQuotedString⟩
  | .dollarQuotedString =>
      if c = '$' ∧ next = some '$' then ⟨2, .code⟩ else ⟨1, .dollarQuotedString⟩
  | .doubleQuotedIdentifier =>
      if c = '"' ∧ next = some '"' then ⟨2, .doubleQuotedIdentifier⟩
      else if c = '"' then ⟨1, .code⟩
      else ⟨1, .doubleQuotedIdentifier⟩
  | .lineComment => if c = '\n' then ⟨1, .code⟩ else ⟨1, .lineComment⟩
  | .blockComment =>
      if c = '*' ∧ next = some '/' then ⟨2, .code⟩ else ⟨1, .blockComment⟩

/-- Whether a colon behind this character continues a path instead. -/
def continuesPath (previous : Option Char) : Bool :=
  d.variantPaths && previous.any fun c =>
    isIdentifierContinue c || c == '"' || c == ']' || c == ')' || c == '$'

def colonStartsNamedParameter (previous : Option Char) : List Char → Bool
  | ':' :: c :: _ => isIdentifierStart c && !continuesPath d previous
  | _ => false

/-- The loop, with what it appends to the two outputs. Every turn takes a character, so
the length of the text is fuel enough. -/
def rewriteLoop (parameters : ParameterMap) :
    ℕ → RewriteState → Option Char → List Char → Result (List Char × List String)
  | 0, _, _, _ => .ok ([], [])
  | _ + 1, _, _, [] => .ok ([], [])
  | fuel + 1, state, previous, c :: rest =>
      if state = .code ∧ colonStartsNamedParameter d previous (c :: rest) = true then
        let name := rest.takeWhile isIdentifierContinue
        if (parameters.lookup (String.ofList name)).isNone then
          .error (missingValue (String.ofList name))
        else do
          let (sql, order) ←
            rewriteLoop parameters fuel .code name.getLast? (rest.drop name.length)
          return ('?' :: sql, String.ofList name :: order)
      else
        let turn := advance d state c rest.head?
        let copied := (c :: rest).take turn.copied
        do
          let (sql, order) ← rewriteLoop parameters fuel turn.state copied.getLast?
            ((c :: rest).drop turn.copied)
          return (copied ++ sql, order)

def rewriteWith (statement : String) (parameters : ParameterMap) : Result RewrittenSql := do
  let (sql, order) ←
    rewriteLoop d parameters statement.toList.length .code none statement.toList
  return ⟨String.ofList sql, order⟩

end Scanner

def duckdb : Dialect := ⟨false, false, false⟩

def snowflake : Dialect := ⟨true, true, true⟩

namespace Duckdb

def rewriteNamedParameters : String → ParameterMap → Result RewrittenSql := rewriteWith duckdb

end Duckdb

namespace Snowflake

def rewriteNamedParameters : String → ParameterMap → Result RewrittenSql := rewriteWith snowflake

end Snowflake

/-! ## The scanner one character behind -/

def named : Spelling where
  opener := ':'
  mark := '?'
  starts := isIdentifierStart
  continues := isIdentifierContinue
  continues_of_starts c h := by
    unfold isIdentifierStart at h
    unfold isIdentifierContinue Char.isAlphanum
    cases halpha : c.isAlpha with
    | true => rfl
    | false =>
        rw [halpha, Bool.false_or] at h
        rw [h, Bool.or_true]
  continues_opener := by decide
  continues_mark := by decide
  opener_ne_mark := by decide

/-- The state in which the last character was met, and that character if it has not
been taken together with the one before. -/
abbrev Mode := RewriteState × Option Char

section Modes
variable (d : Dialect)

def feed (m : Mode) (c : Char) : Mode :=
  match m.2 with
  | none => (m.1, some c)
  | some b =>
      if (advance d m.1 b (some c)).copied = 2 then ((advance d m.1 b (some c)).state, none)
      else ((advance d m.1 b none).state, some c)

def modeAfter (before : List Char) : Mode := before.foldl (feed d) (.code, none)

/-- Whether the scanner meets this character in code, and not as the second of two. -/
def meetsInCode (m : Mode) (c : Char) : Bool :=
  match m.2 with
  | none => m.1 == .code
  | some b =>
      (advance d m.1 b (some c)).copied == 1 && (advance d m.1 b none).state == .code

/-- Whether the scanner takes a `:name` behind this text for a parameter. -/
def takesParameter (before : List Char) : Bool :=
  meetsInCode d (modeAfter d before) ':' && !continuesPath d before.getLast?

/-! ### The two readings agree -/

/-- Without a next character nothing is taken together. -/
theorem advance_none (state : RewriteState) (c : Char) : (advance d state c none).copied = 1 := by
  cases state with
  | code =>
      simp only [advance, reduceCtorEq, and_false, if_false]
      split_ifs <;> rfl
  | singleQuotedString =>
      simp only [advance, reduceCtorEq, ne_eq, not_true_eq_false, and_false, if_false]
      split_ifs <;> rfl
  | dollarQuotedString => simp only [advance, reduceCtorEq, and_false, if_false]
  | doubleQuotedIdentifier =>
      simp only [advance, reduceCtorEq, and_false, if_false]
      split_ifs <;> rfl
  | lineComment =>
      simp only [advance]
      split_ifs <;> rfl
  | blockComment => simp only [advance, reduceCtorEq, and_false, if_false]

/-- A character is taken with the next one, or alone, and then leads to the same state
whatever comes next. -/
theorem advance_cases (state : RewriteState) (c : Char) (next : Option Char) :
    (advance d state c next).copied = 2 ∨ advance d state c next = advance d state c none := by
  cases state with
  | code =>
      simp only [advance, reduceCtorEq, and_false, if_false]
      split_ifs <;> first | exact .inl rfl | exact .inr rfl
  | singleQuotedString =>
      simp only [advance, reduceCtorEq, ne_eq, not_true_eq_false, and_false, if_false]
      split_ifs <;> first | exact .inl rfl | exact .inr rfl
  | dollarQuotedString =>
      simp only [advance, reduceCtorEq, and_false, if_false]
      split_ifs <;> first | exact .inl rfl | exact .inr rfl
  | doubleQuotedIdentifier =>
      simp only [advance, reduceCtorEq, and_false, if_false]
      split_ifs <;> first | exact .inl rfl | exact .inr rfl
  | lineComment => exact .inr rfl
  | blockComment =>
      simp only [advance, reduceCtorEq, and_false, if_false]
      split_ifs <;> first | exact .inl rfl | exact .inr rfl

/-- Where the loop stands in a mode: the last character has been taken, and not as the
first of two. -/
def StandsAt (state : RewriteState) (m : Mode) (next : Option Char) : Prop :=
  m = (state, none) ∨
    ∃ b, m.2 = some b ∧ (advance d m.1 b none).state = state ∧
      ∀ c, next = some c → (advance d m.1 b (some c)).copied = 1

section Stand
variable {d : Dialect} {state : RewriteState} {m : Mode} {c : Char} {next : Option Char}

theorem StandsAt.feed (h : StandsAt d state m (some c)) : feed d m c = (state, some c) := by
  unfold NamedParameters.feed
  cases h with
  | inl hm => rw [hm]
  | inr hm =>
      obtain ⟨b, hb, hstate, hone⟩ := hm
      simp only [hb, hone c rfl, hstate]
      rw [if_neg (by decide)]

theorem StandsAt.meetsInCode (h : StandsAt d state m (some c)) :
    meetsInCode d m c = true ↔ state = .code := by
  unfold NamedParameters.meetsInCode
  cases h with
  | inl hm => simp [hm]
  | inr hm =>
      obtain ⟨b, hb, hstate, hone⟩ := hm
      simp [hb, hone c rfl, hstate]

theorem standsAt_alone (h : (advance d state c next).copied = 1) :
    StandsAt d (advance d state c next).state (state, some c) next := by
  have hsame : advance d state c next = advance d state c none := by
    cases advance_cases d state c next with
    | inl htwo =>
        rw [htwo] at h
        cases h
    | inr hsame => exact hsame
  refine .inr ⟨c, rfl, by rw [hsame], ?_⟩
  intro e he
  rw [← he]
  exact h

theorem advance_identifier (h : isIdentifierContinue c = true) :
    advance d .code c next = ⟨1, .code⟩ := by
  have hne : ∀ e : Char, isIdentifierContinue e = false → c ≠ e := by
    intro e he hce
    rw [hce, he] at h
    cases h
  simp only [advance, hne '\'' (by decide), hne '"' (by decide), hne '$' (by decide),
    hne '-' (by decide), hne '/' (by decide), hne ':' (by decide), false_and, and_false, if_false]

theorem advance_colon (h : next ≠ some ':') : advance d .code ':' next = ⟨1, .code⟩ := by
  have h₁ : (':' : Char) ≠ '\'' := by decide
  have h₂ : (':' : Char) ≠ '"' := by decide
  have h₃ : (':' : Char) ≠ '$' := by decide
  have h₄ : (':' : Char) ≠ '-' := by decide
  have h₅ : (':' : Char) ≠ '/' := by decide
  simp only [advance, h₁, h₂, h₃, h₄, h₅, h, false_and, and_false, if_false]

/-- Reading a name stays in code. -/
theorem foldl_feed_name {b : Char} (hb : ∀ next, next ≠ some ':' →
      advance d .code b next = ⟨1, .code⟩) {name : List Char}
    (hname : ∀ c ∈ name, isIdentifierContinue c = true) (hne : name ≠ []) :
    ∃ last, name.getLast? = some last ∧ isIdentifierContinue last = true ∧
      name.foldl (NamedParameters.feed d) (.code, some b) = (.code, some last) := by
  induction name generalizing b with
  | nil => exact absurd rfl hne
  | cons n name ih =>
      have hn := hname n List.mem_cons_self
      have hcolon : some n ≠ some ':' := by
        intro heq
        rw [Option.some.inj heq] at hn
        exact absurd hn (by decide)
      have hfeed : NamedParameters.feed d (.code, some b) n = (.code, some n) := by
        unfold NamedParameters.feed
        simp only [hb (some n) hcolon, hb none (by simp)]
        rw [if_neg (by decide)]
      rw [List.foldl_cons, hfeed]
      cases name with
      | nil => exact ⟨n, rfl, hn, rfl⟩
      | cons x xs =>
          obtain ⟨last, hlast, hcontinue, hfold⟩ := ih (fun next _ => advance_identifier hn)
            (fun c hc => hname c (List.mem_cons_of_mem n hc)) (List.cons_ne_nil x xs)
          exact ⟨last, by rw [List.getLast?_cons_cons]; exact hlast, hcontinue, hfold⟩

theorem takesParameter_iff {before : List Char} (rest : List Char)
    (hstand : StandsAt d state (modeAfter d before) (some c)) :
    (c = named.opener ∧ named.opens rest = true ∧ takesParameter d before = true) ↔
      state = .code ∧ colonStartsNamedParameter d before.getLast? (c :: rest) = true := by
  constructor
  · intro h
    obtain ⟨hc, hopens, htakes⟩ := h
    have hcolon : c = ':' := hc
    subst hcolon
    obtain ⟨hmeets, hpath⟩ := Bool.and_eq_true_iff.mp htakes
    refine ⟨hstand.meetsInCode.mp hmeets, ?_⟩
    cases rest with
    | nil => cases hopens
    | cons n rest => exact Bool.and_eq_true_iff.mpr ⟨hopens, hpath⟩
  · intro h
    obtain ⟨hstate, hstarts⟩ := h
    unfold colonStartsNamedParameter at hstarts
    split at hstarts
    next n rest' heq =>
      obtain ⟨hc, hrest⟩ := List.cons.inj heq
      subst hc
      subst hrest
      obtain ⟨hopens, hpath⟩ := Bool.and_eq_true_iff.mp hstarts
      refine ⟨rfl, hopens, ?_⟩
      exact Bool.and_eq_true_iff.mpr ⟨hstand.meetsInCode.mpr hstate, hpath⟩
    · cases hstarts

end Stand

theorem modeAfter_append (before rest : List Char) :
    modeAfter d (before ++ rest) = rest.foldl (feed d) (modeAfter d before) :=
  List.foldl_append

/-- The name that opens a text, and what follows it. -/
theorem split_name {rest : List Char} (hopens : named.opens rest = true) :
    ∃ name after, rest = name ++ after ∧ rest.takeWhile isIdentifierContinue = name ∧
      (∀ c ∈ name, isIdentifierContinue c = true) ∧ named.goesOn after = false ∧ name ≠ [] := by
  refine ⟨rest.takeWhile isIdentifierContinue, rest.dropWhile isIdentifierContinue,
    List.takeWhile_append_dropWhile.symm, rfl, ?_, ?_, ?_⟩
  · have hall := List.all_takeWhile (p := isIdentifierContinue) (l := rest)
    exact List.all_eq_true.mp hall
  · cases hdrop : rest.dropWhile isIdentifierContinue with
    | nil => rfl
    | cons c after =>
        have hhead := List.head?_dropWhile_not isIdentifierContinue rest
        rw [hdrop] at hhead
        have hc : isIdentifierContinue c = false := by simpa using hhead
        exact hc
  · cases rest with
    | nil => cases hopens
    | cons c rest =>
        have hc : isIdentifierContinue c = true := named.continues_of_starts c hopens
        rw [List.takeWhile_cons_of_pos hc]
        exact List.cons_ne_nil _ _

/-- Behind a name the loop stands in code. -/
theorem standsAt_name {before name : List Char}
    (hstand : StandsAt d .code (modeAfter d before) (some ':'))
    (hname : ∀ c ∈ name, isIdentifierContinue c = true) (hne : name ≠ []) :
    name.getLast? = (before ++ [':'] ++ name).getLast? ∧
      ∀ next, StandsAt d .code (modeAfter d (before ++ [':'] ++ name)) next := by
  have hmode : modeAfter d (before ++ [':']) = (.code, some ':') := by
    rw [modeAfter_append, List.foldl_cons, hstand.feed]
    rfl
  obtain ⟨last, hlast, hcontinues, hfold⟩ := foldl_feed_name (d := d)
    (fun next hnext => advance_colon hnext) hname hne
  constructor
  · rw [List.getLast?_append, hlast, Option.some_or]
  · intro next
    rw [modeAfter_append, hmode, hfold]
    refine .inr ⟨last, rfl, ?_, ?_⟩
    · rw [advance_identifier hcontinues]
    · intro e _
      rw [advance_identifier hcontinues]

/-- The second of two characters taken together opens nothing. -/
theorem pair_taken {before : List Char} {state : RewriteState} {c e : Char}
    (hmode : modeAfter d (before ++ [c]) = (state, some c))
    (htwo : (advance d state c (some e)).copied = 2) :
    modeAfter d (before ++ [c] ++ [e]) = ((advance d state c (some e)).state, none) ∧
      ¬ (e = ':' ∧ takesParameter d (before ++ [c]) = true) := by
  constructor
  · rw [modeAfter_append, hmode, List.foldl_cons, feed]
    simp only [htwo, if_true, List.foldl_nil]
  · rintro ⟨rfl, htake⟩
    have hmeets := (Bool.and_eq_true_iff.mp htake).1
    rw [hmode] at hmeets
    simp only [meetsInCode, htwo] at hmeets
    cases hmeets

/-- A name found has to have a value. -/
def requireValue (parameters : ParameterMap) (name : List Char) : Result String :=
  if (parameters.lookup (String.ofList name)).isNone then
    .error (missingValue (String.ofList name))
  else .ok (String.ofList name)

/-- The loop replaces what the reading one behind takes for parameters, as far as they
have values. -/
theorem rewriteLoop_eq {parameters : ParameterMap} {fuel : ℕ} {state : RewriteState}
    {before text : List Char} (hfuel : text.length ≤ fuel)
    (hstand : ∀ c, text.head? = some c → StandsAt d state (modeAfter d before) (some c)) :
    rewriteLoop d parameters fuel state before.getLast? text = (do
      let order ← (namesFrom named (takesParameter d) before text).mapM (requireValue parameters)
      return ((rewriteFrom named (takesParameter d) before false text).map Prod.fst, order)) := by
  induction fuel generalizing state before text with
  | zero =>
      have hnil : text = [] := List.length_eq_zero_iff.mp (Nat.le_zero.mp hfuel)
      subst hnil
      rfl
  | succ fuel ih =>
      cases text with
      | nil => rfl
      | cons c rest =>
          have hstand := hstand c rfl
          have htakes := takesParameter_iff rest hstand
          have hlength : rest.length ≤ fuel := Nat.le_of_succ_le_succ hfuel
          conv_lhs => unfold rewriteLoop
          by_cases hparam : state = .code ∧
              colonStartsNamedParameter d before.getLast? (c :: rest) = true
          · rw [if_pos hparam]
            obtain ⟨hc, hopens, hp⟩ := htakes.mpr hparam
            have hcolon : c = ':' := hc
            obtain ⟨name, after, hsplit, hname, hcontinues, hafter, hne⟩ := split_name hopens
            have hnamed : rest.takeWhile named.continues = name := hname
            rw [hparam.1, hcolon] at hstand
            obtain ⟨hprev, hnext⟩ := standsAt_name d hstand hcontinues hne
            rw [← hcolon] at hprev hnext
            have hdrop : rest.drop name.length = after := by rw [hsplit, List.drop_left]
            have hshort : after.length ≤ fuel := by
              rw [hsplit, List.length_append] at hlength
              omega
            rw [rewriteFrom_open hc hopens hp, namesFrom_open hc hopens hp, hnamed, List.mapM_cons]
            simp only [hname, hdrop, hprev, ih hshort fun e _ => hnext (some e)]
            rw [hsplit, rewriteFrom_skip hcontinues hafter, namesFrom_skip hcontinues]
            unfold requireValue
            split_ifs with hvalue
            · rfl
            · simp only [bind_assoc, pure_bind]
              rfl
          · rw [if_neg hparam]
            have hnot := fun htake => hparam (htakes.mp htake)
            rw [rewriteFrom_copy hnot, namesFrom_copy hnot]
            have hfeed : modeAfter d (before ++ [c]) = (state, some c) := by
              rw [modeAfter_append, List.foldl_cons, hstand.feed]
              rfl
            cases advance_cases d state c rest.head? with
            | inl htwo =>
                cases rest with
                | nil =>
                    rw [List.head?_nil, advance_none] at htwo
                    cases htwo
                | cons e rest =>
                    rw [List.head?_cons] at htwo
                    obtain ⟨hmode, hnone⟩ := pair_taken d hfeed htwo
                    have hnot' : ¬ (e = named.opener ∧ named.opens rest = true ∧
                        takesParameter d (before ++ [c]) = true) := fun h => hnone ⟨h.1, h.2.2⟩
                    have hprev : [c, e].getLast? = (before ++ [c] ++ [e]).getLast? := by simp
                    simp only [List.head?_cons, htwo, List.take_succ_cons, List.take_zero,
                      List.drop_succ_cons, List.drop_zero, hprev]
                    rw [ih (Nat.le_of_succ_le hlength) (fun _ _ => .inl hmode),
                      rewriteFrom_copy hnot', namesFrom_copy hnot']
                    simp only [bind_assoc, pure_bind]
                    rfl
            | inr hone =>
                have hcopied : (advance d state c rest.head?).copied = 1 := by
                  rw [hone]
                  exact advance_none d state c
                have hprev : [c].getLast? = (before ++ [c]).getLast? := by simp
                have hnext : ∀ e, rest.head? = some e →
                    StandsAt d (advance d state c rest.head?).state (modeAfter d (before ++ [c]))
                      (some e) := by
                  intro e he
                  rw [hfeed, ← he]
                  exact standsAt_alone hcopied
                simp only [hcopied, List.take_succ_cons, List.take_zero, List.drop_succ_cons,
                  List.drop_zero, hprev]
                rw [ih hlength hnext]
                simp only [bind_assoc, pure_bind]
                rfl

theorem rewriteWith_eq (statement : String) (parameters : ParameterMap) :
    rewriteWith d statement parameters = (do
      let order ← (namesFrom named (takesParameter d) [] statement.toList).mapM
        (requireValue parameters)
      return ⟨String.ofList
        ((rewriteFrom named (takesParameter d) [] false statement.toList).map Prod.fst), order⟩) := by
  have hstart : ∀ c, statement.toList.head? = some c →
      StandsAt d .code (modeAfter d []) (some c) := fun _ _ => .inl rfl
  have hloop : rewriteLoop d parameters statement.toList.length .code ([] : List Char).getLast?
      statement.toList = _ := rewriteLoop_eq d (Nat.le_refl _) hstart
  rw [List.getLast?_nil] at hloop
  unfold rewriteWith
  rw [hloop]
  simp only [bind_assoc, pure_bind]

/-! ### An engine that reads as the scanner does -/

theorem advance_question {state : RewriteState} {c : Char}
    (h : (advance d state c none).state = .code) : (advance d state c (some '?')).copied = 1 := by
  cases state with
  | code =>
      simp only [advance, Option.some.injEq, Char.reduceEq, and_false, if_false]
      split_ifs <;> rfl
  | singleQuotedString =>
      simp only [advance, reduceCtorEq, ne_eq, not_true_eq_false, and_false, if_false] at h
      split_ifs at h with hquote
      subst hquote
      simp [advance]
  | dollarQuotedString => simp [advance] at h
  | doubleQuotedIdentifier => simp [advance] ; split_ifs <;> rfl
  | lineComment =>
      simp only [advance]
      split_ifs <;> rfl
  | blockComment => simp [advance] at h

theorem feed_of_meetsInCode {m : Mode} {c : Char} (h : meetsInCode d m c = true) :
    feed d m c = (.code, some c) := by
  obtain ⟨state, pending⟩ := m
  cases pending with
  | none =>
      have hstate : state = .code := beq_iff_eq.mp h
      rw [hstate]
      rfl
  | some b =>
      obtain ⟨hone, hstate⟩ := Bool.and_eq_true_iff.mp h
      unfold feed
      simp only [beq_iff_eq.mp hone, beq_iff_eq.mp hstate]
      rw [if_neg (by decide)]

theorem meetsInCode_question {m : Mode} (h : meetsInCode d m ':' = true) :
    meetsInCode d m '?' = true := by
  obtain ⟨state, pending⟩ := m
  cases pending with
  | none => exact h
  | some b =>
      obtain ⟨-, hstate⟩ := Bool.and_eq_true_iff.mp h
      have hone := advance_question d (beq_iff_eq.mp hstate)
      exact Bool.and_eq_true_iff.mpr ⟨beq_iff_eq.mpr hone, hstate⟩

theorem advance_mark (next : Option Char) : advance d .code '?' next = ⟨1, .code⟩ := by
  simp [advance]

def dialectReading : Reading named where
  code before := meetsInCode d (modeAfter d before) '?'
  placeholder := takesParameter d
  code_of_placeholder before h := meetsInCode_question d (Bool.and_eq_true_iff.mp h).1
  code_after before name rest hplaceholder hopens hname hend := by
    have hmeets := (Bool.and_eq_true_iff.mp hplaceholder).1
    have hne : name ≠ [] := by
      intro hnil
      rw [hnil] at hopens
      cases hopens
    obtain ⟨last, -, hlast, hfold⟩ := foldl_feed_name (d := d)
      (fun next hnext => advance_colon hnext) hname hne
    have hnamed : modeAfter d (before ++ ':' :: (name ++ rest)) =
        rest.foldl (feed d) (.code, some last) := by
      rw [modeAfter_append, List.foldl_cons, feed_of_meetsInCode d hmeets, List.foldl_append, hfold]
    have hmarked : modeAfter d (before ++ '?' :: rest) =
        rest.foldl (feed d) (.code, some '?') := by
      rw [modeAfter_append, List.foldl_cons,
        feed_of_meetsInCode d (meetsInCode_question d hmeets)]
    change meetsInCode d (modeAfter d (before ++ ':' :: (name ++ rest))) '?' =
      meetsInCode d (modeAfter d (before ++ '?' :: rest)) '?'
    rw [hnamed, hmarked]
    cases rest with
    | nil => simp [meetsInCode, advance_identifier hlast, advance_mark]
    | cons c rest =>
        -- neither the name nor the mark is taken together with what follows
        have hfeed : feed d (.code, some last) c = feed d (.code, some '?') c := by
          simp [feed, advance_identifier hlast, advance_mark]
        rw [List.foldl_cons, List.foldl_cons, hfeed]

end Modes

/-! ## Binding the values -/

def isDigits (digits : List Char) : Bool := !digits.isEmpty && digits.all Char.isDigit

def digitsValue (digits : List Char) : ℕ :=
  digits.foldl (fun n c => 10 * n + (c.toNat - 48)) 0

/-- The value of a number text without fraction and exponent. -/
def asInteger (text : String) : Option ℤ :=
  match text.toList with
  | '-' :: digits => if isDigits digits then some (-(digitsValue digits : ℤ)) else none
  | digits => if isDigits digits then some (digitsValue digits : ℤ) else none

def isI64 (n : ℤ) : Bool := decide (-2 ^ 63 ≤ n ∧ n < 2 ^ 63)

def isU64 (n : ℤ) : Bool := decide (0 ≤ n ∧ n < 2 ^ 64)

namespace Duckdb

inductive DuckValue where
  | null
  | boolean (flag : Bool)
  | bigInt (value : ℤ)
  | double (text : String)
  | text (value : String)
  deriving DecidableEq, Repr

def jsonToDuckValue : JsonValue → Result DuckValue
  | .null => .ok .null
  | .bool flag => .ok (.boolean flag)
  | .number text =>
      match asInteger text with
      | some n =>
          if isI64 n then .ok (.bigInt n)
          else if isU64 n then
            .error (.invalidParams ("SQL parameter value " ++ toString n ++
              " exceeds signed 64-bit integer range"))
          else .ok (.double text)
      | none => .ok (.double text)
  | .string value => .ok (.text value)
  | .array _ | .object _ =>
      .error (.invalidParams
        "SQL parameters must be scalar values (null, bool, number, or string)")

def bindValue (parameters : ParameterMap) (name : String) : Result DuckValue :=
  match parameters.lookup name with
  | some value => jsonToDuckValue value
  | none => .error (missingValue name)

def buildBindValues (order : List String) (parameters : ParameterMap) :
    Result (List DuckValue) :=
  order.mapM (bindValue parameters)

end Duckdb

namespace Snowflake

structure SnowflakeBinding where
  typeName : String
  value : JsonValue

def inferBindingType : JsonValue → Option String
  | .bool _ => some "BOOLEAN"
  | .number text =>
      if (asInteger text).any fun n => isI64 n || isU64 n then some "FIXED" else some "REAL"
  | .string _ => some "TEXT"
  | .null | .array _ | .object _ => none

def bindingValue : JsonValue → Result JsonValue
  | .null => .ok .null
  | .bool flag => .ok (.string (if flag then "true" else "false"))
  | .number text => .ok (.string text)
  | .string text => .ok (.string text)
  | .array _ | .object _ =>
      .error (.invalidParams "Snowflake SQL parameters must be scalar JSON values")

def buildBinding (parameters : ParameterMap) (types : List (String × String)) (name : String) :
    Result SnowflakeBinding :=
  match parameters.lookup name with
  | none => .error (missingValue name)
  | some value =>
      let typeName :=
        match types.lookup name with
        | some typeName => Text.toAsciiUppercase typeName
        | none => (inferBindingType value).getD ""
      if typeName = "" then
        .error (.invalidParams ("Snowflake null parameter :" ++ name ++
          " requires explicit parameter_types"))
      else do return ⟨typeName, ← bindingValue value⟩

/-- The bindings under their positions, which start at 1. -/
def buildBindings (order : List String) (parameters : ParameterMap)
    (types : List (String × String)) : Result (List (String × SnowflakeBinding)) :=
  match types.find? fun entry => (parameters.lookup entry.1).isNone with
  | some entry =>
      .error (.invalidParams ("parameter_types contains '" ++ entry.1 ++
        "' but parameters does not"))
  | none => do
      let bindings ← order.mapM (buildBinding parameters types)
      return bindings.mapIdx fun i binding => (toString (i + 1), binding)

end Snowflake

/-! ## What a rewriting has to preserve -/

theorem mapM_requireValue {parameters : ParameterMap} {names : List (List Char)}
    {order : List String} :
    names.mapM (requireValue parameters) = .ok order ↔
      (∀ name ∈ names, (parameters.lookup (String.ofList name)).isSome = true) ∧
        order = names.map String.ofList := by
  induction names generalizing order with
  | nil =>
      rw [List.mapM_nil]
      constructor
      · intro h
        exact ⟨fun name hname => absurd hname List.not_mem_nil, (Except.ok.inj h).symm⟩
      · intro h
        rw [h.2]
        rfl
  | cons name names ih =>
      rw [List.mapM_cons, bind_eq_ok, List.forall_mem_cons, List.map_cons]
      constructor
      · intro h
        obtain ⟨first, hfirst, h⟩ := h
        obtain ⟨others, hothers, h⟩ := bind_eq_ok.mp h
        obtain ⟨hvalues, hnames⟩ := ih.mp hothers
        unfold requireValue at hfirst
        split at hfirst
        · cases hfirst
        next hvalue =>
          rw [← Except.ok.inj h, ← Except.ok.inj hfirst, hnames]
          rw [Bool.not_eq_true, Option.isNone_eq_false_iff] at hvalue
          exact ⟨⟨hvalue, hvalues⟩, rfl⟩
      · intro h
        obtain ⟨⟨hvalue, hvalues⟩, horder⟩ := h
        refine ⟨String.ofList name, ?_, ?_⟩
        · unfold requireValue
          rw [if_neg]
          rw [Bool.not_eq_true, Option.isNone_eq_false_iff]
          exact hvalue
        · rw [ih.mpr ⟨hvalues, rfl⟩, horder]
          rfl

section Preservation
variable (d : Dialect) (engine : Reading named) (statement : String) (parameters : ParameterMap)

/-- Every parameter that the scanner finds has a value. -/
def Accepted : Prop :=
  ∀ name ∈ namesFrom named (takesParameter d) [] statement.toList,
    (parameters.lookup (String.ofList name)).isSome = true

/-- The scanner and the engine agree at every `:name`, and the engine sees no `?`. -/
def ReadsAs : Prop :=
  AgreeFrom named (takesParameter d) engine.placeholder [] statement.toList ∧
    UnmarkedFrom named engine.code [] statement.toList

/-- The placeholders of the engine are replaced and listed, and it sees no other `?`. -/
def Preserved (out : RewrittenSql) : Prop :=
  Faithful engine statement.toList out.sql.toList (out.orderedParameters.map String.toList)

/-- How many values the engine expects. -/
def expectedValues (out : RewrittenSql) : ℕ :=
  (marksFrom named engine.code [] out.sql.toList).count true

variable {d engine statement parameters} {out : RewrittenSql}

theorem rewriteWith_ok_iff :
    rewriteWith d statement parameters = .ok out ↔
      Accepted d statement parameters ∧ out =
        ⟨String.ofList ((rewriteFrom named (takesParameter d) [] false statement.toList).map
            Prod.fst),
          (namesFrom named (takesParameter d) [] statement.toList).map String.ofList⟩ := by
  rw [rewriteWith_eq, bind_eq_ok]
  constructor
  · intro h
    obtain ⟨order, horder, hout⟩ := h
    obtain ⟨hvalues, hnames⟩ := mapM_requireValue.mp horder
    rw [← Except.ok.inj hout, hnames]
    exact ⟨hvalues, rfl⟩
  · intro h
    exact ⟨_, mapM_requireValue.mpr ⟨h.1, rfl⟩, by rw [h.2]; rfl⟩

theorem preserved_iff (h : rewriteWith d statement parameters = .ok out) :
    Preserved engine statement out ↔ ReadsAs d engine statement := by
  have hout := (rewriteWith_ok_iff.mp h).2
  have hnames : ∀ names : List (List Char),
      (names.map String.ofList).map String.toList = names := by
    intro names
    rw [List.map_map]
    exact List.map_id'' (fun name => String.toList_ofList) names
  unfold Preserved ReadsAs
  rw [hout, String.toList_ofList, hnames]
  exact faithful_iff engine (takesParameter d) statement.toList

theorem Preserved.length_eq (h : Preserved engine statement out) :
    out.orderedParameters.length = expectedValues engine out := by
  have hcount := h.count_marks
  rw [List.length_map] at hcount
  exact hcount.symm

/-- An engine that reads as the scanner does can only be confused by a `?`. -/
theorem readsAs_dialectReading :
    ReadsAs d (dialectReading d) statement ↔
      UnmarkedFrom named (dialectReading d).code [] statement.toList :=
  ⟨fun h => h.2, fun h => ⟨fun _ _ _ _ => rfl, h⟩⟩

end Preservation

/-! ## The two providers -/

section Providers
variable (duckEngine snowEngine : Reading named) (statement : String) (parameters : ParameterMap)
  (types : List (String × String))

/-- The engines read the statement alike. -/
def RulesCoincide : Prop :=
  ∀ before rest, statement.toList = before ++ rest →
    duckEngine.placeholder before = snowEngine.placeholder before ∧
      duckEngine.code before = snowEngine.code before

/-- Rewriting and binding for an engine of each kind. -/
structure PreservesStatement : Prop where
  duckdb_text : ∀ out, Duckdb.rewriteNamedParameters statement parameters = .ok out →
    Preserved duckEngine statement out
  duckdb_values : ∀ out values, Duckdb.rewriteNamedParameters statement parameters = .ok out →
    Duckdb.buildBindValues out.orderedParameters parameters = .ok values →
    values.length = expectedValues duckEngine out ∧
      List.Forall₂ (fun name value => Duckdb.bindValue parameters name = .ok value)
        out.orderedParameters values
  snowflake_text : ∀ out, Snowflake.rewriteNamedParameters statement parameters = .ok out →
    Preserved snowEngine statement out
  snowflake_values : ∀ out values,
    Snowflake.rewriteNamedParameters statement parameters = .ok out →
    Snowflake.buildBindings out.orderedParameters parameters types = .ok values →
    values.length = expectedValues snowEngine out ∧
      values.map Prod.fst = (List.range values.length).map (fun i => toString (i + 1)) ∧
      List.Forall₂ (fun name value => Snowflake.buildBinding parameters types name = .ok value)
        out.orderedParameters (values.map Prod.snd)
  same_rewriting : RulesCoincide duckEngine snowEngine statement → ∀ duckOut snowOut,
    Duckdb.rewriteNamedParameters statement parameters = .ok duckOut →
    Snowflake.rewriteNamedParameters statement parameters = .ok snowOut → duckOut = snowOut

variable {duckEngine snowEngine statement parameters types}

theorem buildBindValues_ok {order : List String} {values : List Duckdb.DuckValue}
    (h : Duckdb.buildBindValues order parameters = .ok values) :
    List.Forall₂ (fun name value => Duckdb.bindValue parameters name = .ok value) order values :=
  forall₂_of_mapM_ok h

theorem buildBindings_ok {order : List String}
    {values : List (String × Snowflake.SnowflakeBinding)}
    (h : Snowflake.buildBindings order parameters types = .ok values) :
    values.map Prod.fst = (List.range values.length).map (fun i => toString (i + 1)) ∧
      List.Forall₂ (fun name value => Snowflake.buildBinding parameters types name = .ok value)
        order (values.map Prod.snd) := by
  unfold Snowflake.buildBindings at h
  split at h
  · cases h
  obtain ⟨bindings, hbindings, hvalues⟩ := bind_eq_ok.mp h
  rw [← Except.ok.inj hvalues]
  constructor
  · apply List.ext_getElem
    · simp
    · intro i hi hi'
      simp
  · have hsnd : (bindings.mapIdx fun i binding => (toString (i + 1), binding)).map Prod.snd =
        bindings := by
      apply List.ext_getElem
      · simp
      · intro i hi hi'
        simp
    rw [hsnd]
    exact forall₂_of_mapM_ok hbindings

/-- Statements that both scanners read as engines that coincide on them are rewritten
alike. -/
theorem eq_of_readsAs {duckOut snowOut : RewrittenSql}
    (hrules : RulesCoincide duckEngine snowEngine statement)
    (hduck : rewriteWith duckdb statement parameters = .ok duckOut)
    (hsnow : rewriteWith snowflake statement parameters = .ok snowOut)
    (hduckReads : ReadsAs duckdb duckEngine statement)
    (hsnowReads : ReadsAs snowflake snowEngine statement) : duckOut = snowOut := by
  have hagree : AgreeFrom named (takesParameter duckdb) (takesParameter snowflake) []
      statement.toList := by
    intro before rest htext hopens
    rw [hduckReads.1 before rest htext hopens, hsnowReads.1 before rest htext hopens,
      List.nil_append]
    exact (hrules before _ htext).1
  rw [(rewriteWith_ok_iff.mp hduck).2, (rewriteWith_ok_iff.mp hsnow).2,
    hagree.rewriteFrom_eq false, hagree.namesFrom_eq]

theorem rewriting_preserves_iff (duckEngine snowEngine : Reading named) (statement : String)
    (parameters : ParameterMap) (types : List (String × String)) :
    PreservesStatement duckEngine snowEngine statement parameters types ↔
      (Accepted duckdb statement parameters → ReadsAs duckdb duckEngine statement) ∧
        (Accepted snowflake statement parameters → ReadsAs snowflake snowEngine statement) := by
  constructor
  · intro h
    constructor
    · intro haccepted
      have hout := rewriteWith_ok_iff.mpr ⟨haccepted, rfl⟩
      exact (preserved_iff hout).mp (h.duckdb_text _ hout)
    · intro haccepted
      have hout := rewriteWith_ok_iff.mpr ⟨haccepted, rfl⟩
      exact (preserved_iff hout).mp (h.snowflake_text _ hout)
  · intro h
    obtain ⟨hduck, hsnow⟩ := h
    have hduckText : ∀ out, Duckdb.rewriteNamedParameters statement parameters = .ok out →
        Preserved duckEngine statement out := fun out hout =>
      (preserved_iff hout).mpr (hduck (rewriteWith_ok_iff.mp hout).1)
    have hsnowText : ∀ out, Snowflake.rewriteNamedParameters statement parameters = .ok out →
        Preserved snowEngine statement out := fun out hout =>
      (preserved_iff hout).mpr (hsnow (rewriteWith_ok_iff.mp hout).1)
    refine ⟨hduckText, ?_, hsnowText, ?_, ?_⟩
    · intro out values hout hvalues
      have hbound := buildBindValues_ok hvalues
      exact ⟨hbound.length_eq.symm.trans (hduckText out hout).length_eq, hbound⟩
    · intro out values hout hvalues
      obtain ⟨hkeys, hbound⟩ := buildBindings_ok hvalues
      have hlength := hbound.length_eq.symm.trans (hsnowText out hout).length_eq
      rw [List.length_map] at hlength
      exact ⟨hlength, hkeys, hbound⟩
    · intro hrules duckOut snowOut hduckOut hsnowOut
      exact eq_of_readsAs hrules hduckOut hsnowOut (hduck (rewriteWith_ok_iff.mp hduckOut).1)
        (hsnow (rewriteWith_ok_iff.mp hsnowOut).1)

/-- A `?` of the statement takes the value of the parameter behind it, even where the
engines read as the scanners do; and DuckDB also knows dollar quotes. -/
theorem question_mark_not_preserved :
    ¬ PreservesStatement (dialectReading duckdb) (dialectReading snowflake) "select ?, :a"
        [("a", .number "1")] [] ∧
      ¬ PreservesStatement (dialectReading ⟨false, true, false⟩) (dialectReading snowflake)
        "select $$:a$$" [("a", .number "1")] [] := by
  constructor
  · intro h
    have hout : Duckdb.rewriteNamedParameters "select ?, :a" [("a", .number "1")] =
        .ok ⟨"select ?, ?", ["a"]⟩ := by decide
    have hlength := (h.duckdb_values _ [.bigInt 1] hout (by decide)).1
    exact absurd hlength (by decide)
  · intro h
    have hout : Duckdb.rewriteNamedParameters "select $$:a$$" [("a", .number "1")] =
        .ok ⟨"select $$?$$", ["a"]⟩ := by decide
    have hlength := (h.duckdb_values _ [.bigInt 1] hout (by decide)).1
    exact absurd hlength (by decide)

end Providers

end DbtNova.NamedParameters
