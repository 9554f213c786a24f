import Mathlib.Data.List.Forall2
import Mathlib.Tactic.Common

/-!
# A reference lexer for SQL quoting and comments

Single-quoted literals and double-quoted identifiers escape their delimiter by
doubling it; `--` comments end at a line feed and block comments do not nest.
Comments yield no token. A character of code is a token of its own, so two
texts with equal code tokens also have equal words.

Every character carries a mark. Callers mark the characters whose influence
they study; a quoted token is marked when one of its characters, delimiters
included, is. The lexer is a fold over characters, hence every statement about
a text is an induction over that fold.
-/
namespace DbtNova.SqlLexer

structure Glyph where
  char : Char
  mark : Bool
  deriving DecidableEq, Repr

inductive Quote where
  | single
  | double
  deriving DecidableEq, Repr

def Quote.char : Quote → Char
  | .single => '\''
  | .double => '"'

inductive Token where
  | symbol (c : Char)
  | quoted (q : Quote) (closed : Bool) (content : List Char) (marked : Bool)
  deriving DecidableEq, Repr

/-- `dash` and `slash` hold back one character that may open a comment;
`quoteSeen` has read a delimiter that either closes or is the first of two. -/
inductive Mode where
  | code
  | dash
  | slash
  | quoted (q : Quote) (content : List Char) (marked : Bool)
  | quoteSeen (q : Quote) (content : List Char) (marked : Bool)
  | lineComment
  | blockComment
  | blockStar
  deriving DecidableEq, Repr

structure State where
  tokens : List Token
  mode : Mode
  deriving DecidableEq, Repr

/-- Read one character in code position. -/
def codeStep (tokens : List Token) (g : Glyph) : State :=
  if g.char = '\'' then ⟨tokens, .quoted .single [] g.mark⟩
  else if g.char = '"' then ⟨tokens, .quoted .double [] g.mark⟩
  else if g.char = '-' then ⟨tokens, .dash⟩
  else if g.char = '/' then ⟨tokens, .slash⟩
  else ⟨tokens ++ [.symbol g.char], .code⟩

def step (s : State) (g : Glyph) : State :=
  match s.mode with
  | .code => codeStep s.tokens g
  | .dash =>
      if g.char = '-' then { s with mode := .lineComment }
      else codeStep (s.tokens ++ [.symbol '-']) g
  | .slash =>
      if g.char = '*' then { s with mode := .blockComment }
      else codeStep (s.tokens ++ [.symbol '/']) g
  | .quoted q content m =>
      if g.char = q.char then { s with mode := .quoteSeen q content (m || g.mark) }
      else { s with mode := .quoted q (content ++ [g.char]) (m || g.mark) }
  | .quoteSeen q content m =>
      if g.char = q.char then { s with mode := .quoted q (content ++ [g.char]) (m || g.mark) }
      else codeStep (s.tokens ++ [.quoted q true content m]) g
  | .lineComment => if g.char = '\n' then { s with mode := .code } else s
  | .blockComment => if g.char = '*' then { s with mode := .blockStar } else s
  | .blockStar =>
      if g.char = '/' then { s with mode := .code }
      else if g.char = '*' then s
      else { s with mode := .blockComment }

def run (s : State) (gs : List Glyph) : State := gs.foldl step s

def State.finish (s : State) : List Token :=
  match s.mode with
  | .dash => s.tokens ++ [.symbol '-']
  | .slash => s.tokens ++ [.symbol '/']
  | .quoted q content m => s.tokens ++ [.quoted q false content m]
  | .quoteSeen q content m => s.tokens ++ [.quoted q true content m]
  | .code | .lineComment | .blockComment | .blockStar => s.tokens

def start : State := ⟨[], .code⟩

def lex (gs : List Glyph) : List Token := (run start gs).finish

@[simp] theorem run_nil (s : State) : run s [] = s := rfl

@[simp] theorem run_cons (s : State) (g : Glyph) (gs : List Glyph) :
    run s (g :: gs) = run (step s g) gs := rfl

@[simp] theorem run_append (s : State) (xs ys : List Glyph) :
    run s (xs ++ ys) = run (run s xs) ys := List.foldl_append ..

/-! ## Agreement up to marked quoted content -/

/-- Contents may differ only when a marked character took part. -/
def ContentAgree (xs : List Char) (m : Bool) (ys : List Char) (n : Bool) : Prop :=
  xs = ys ∨ m = true ∨ n = true

def Token.Agree : Token → Token → Prop
  | .symbol c, .symbol d => c = d
  | .quoted q b xs m, .quoted r c ys n => q = r ∧ b = c ∧ ContentAgree xs m ys n
  | _, _ => False

instance (xs ys : List Char) (m n : Bool) : Decidable (ContentAgree xs m ys n) :=
  inferInstanceAs (Decidable (xs = ys ∨ m = true ∨ n = true))

instance : DecidableRel Token.Agree
  | .symbol c, .symbol d => inferInstanceAs (Decidable (c = d))
  | .quoted q b xs m, .quoted r c ys n =>
      inferInstanceAs (Decidable (q = r ∧ b = c ∧ ContentAgree xs m ys n))
  | .symbol _, .quoted _ _ _ _ => .isFalse id
  | .quoted _ _ _ _, .symbol _ => .isFalse id

/-- Equal token lists except inside marked quoted tokens. -/
def SameStructure (xs ys : List Token) : Prop := List.Forall₂ Token.Agree xs ys

instance (xs ys : List Token) : Decidable (SameStructure xs ys) :=
  inferInstanceAs (Decidable (List.Forall₂ Token.Agree xs ys))

def Mode.Agree : Mode → Mode → Prop
  | .quoted q xs m, .quoted r ys n => q = r ∧ ContentAgree xs m ys n
  | .quoteSeen q xs m, .quoteSeen r ys n => q = r ∧ ContentAgree xs m ys n
  | a, b => a = b

def State.Agree (s t : State) : Prop :=
  SameStructure s.tokens t.tokens ∧ s.mode.Agree t.mode

theorem contentAgree_snoc {xs ys : List Char} {m n : Bool} (h : ContentAgree xs m ys n)
    (g : Glyph) :
    ContentAgree (xs ++ [g.char]) (m || g.mark) (ys ++ [g.char]) (n || g.mark) := by
  rcases h with rfl | rfl | rfl
  · exact .inl rfl
  · exact .inr (.inl rfl)
  · exact .inr (.inr rfl)

theorem contentAgree_or {xs ys : List Char} {m n : Bool} (h : ContentAgree xs m ys n)
    (b : Bool) : ContentAgree xs (m || b) ys (n || b) := by
  rcases h with rfl | rfl | rfl
  · exact .inl rfl
  · exact .inr (.inl rfl)
  · exact .inr (.inr rfl)

theorem Token.agree_refl (t : Token) : t.Agree t := by
  cases t <;> simp [Token.Agree, ContentAgree]

theorem Mode.agree_refl (m : Mode) : m.Agree m := by
  cases m <;> simp [Mode.Agree, ContentAgree]

theorem sameStructure_refl (ts : List Token) : SameStructure ts ts :=
  List.forall₂_same.mpr fun t _ => t.agree_refl

theorem State.agree_refl (s : State) : s.Agree s :=
  ⟨sameStructure_refl s.tokens, s.mode.agree_refl⟩

theorem sameStructure_snoc {xs ys : List Token} (h : SameStructure xs ys) {a b : Token}
    (hab : a.Agree b) : SameStructure (xs ++ [a]) (ys ++ [b]) :=
  List.rel_append h (.cons hab .nil)

theorem codeStep_agree {xs ys : List Token} (h : SameStructure xs ys) (g : Glyph) :
    (codeStep xs g).Agree (codeStep ys g) := by
  unfold codeStep
  split_ifs
  all_goals first
    | exact ⟨h, Mode.agree_refl _⟩
    | exact ⟨sameStructure_snoc h rfl, Mode.agree_refl _⟩

/-- Agreement survives reading the same character. -/
theorem step_agree {s t : State} (h : s.Agree t) (g : Glyph) :
    (step s g).Agree (step t g) := by
  obtain ⟨xs, m⟩ := s
  obtain ⟨ys, n⟩ := t
  obtain ⟨htokens, hmode⟩ := h
  cases m <;> cases n <;> simp only [Mode.Agree, reduceCtorEq] at hmode
  case code.code => exact codeStep_agree htokens g
  case dash.dash =>
    simp only [step]
    split_ifs
    · exact ⟨htokens, rfl⟩
    · exact codeStep_agree (sameStructure_snoc htokens (Token.agree_refl _)) g
  case slash.slash =>
    simp only [step]
    split_ifs
    · exact ⟨htokens, rfl⟩
    · exact codeStep_agree (sameStructure_snoc htokens (Token.agree_refl _)) g
  case quoted.quoted =>
    obtain ⟨rfl, hcontent⟩ := hmode
    simp only [step]
    split_ifs
    · exact ⟨htokens, rfl, contentAgree_or hcontent g.mark⟩
    · exact ⟨htokens, rfl, contentAgree_snoc hcontent g⟩
  case quoteSeen.quoteSeen =>
    obtain ⟨rfl, hcontent⟩ := hmode
    simp only [step]
    split_ifs
    · exact ⟨htokens, rfl, contentAgree_snoc hcontent g⟩
    · refine codeStep_agree (sameStructure_snoc htokens ?_) g
      exact ⟨rfl, rfl, hcontent⟩
  case lineComment.lineComment =>
    simp only [step]
    split_ifs
    all_goals exact ⟨htokens, rfl⟩
  case blockComment.blockComment =>
    simp only [step]
    split_ifs
    all_goals exact ⟨htokens, rfl⟩
  case blockStar.blockStar =>
    simp only [step]
    split_ifs
    all_goals exact ⟨htokens, rfl⟩

theorem run_agree {s t : State} (h : s.Agree t) (gs : List Glyph) :
    (run s gs).Agree (run t gs) := by
  induction gs generalizing s t with
  | nil => exact h
  | cons g gs ih => exact ih (step_agree h g)

theorem finish_agree {s t : State} (h : s.Agree t) : SameStructure s.finish t.finish := by
  obtain ⟨xs, m⟩ := s
  obtain ⟨ys, n⟩ := t
  obtain ⟨htokens, hmode⟩ := h
  cases m <;> cases n <;> simp only [Mode.Agree, reduceCtorEq] at hmode
  case quoted.quoted =>
    exact sameStructure_snoc htokens ⟨hmode.1, rfl, hmode.2⟩
  case quoteSeen.quoteSeen =>
    exact sameStructure_snoc htokens ⟨hmode.1, rfl, hmode.2⟩
  all_goals first
    | exact htokens
    | exact sameStructure_snoc htokens rfl

/-! ## Divergence is permanent -/

theorem prefix_codeStep (ts : List Token) (g : Glyph) : ts <+: (codeStep ts g).tokens := by
  unfold codeStep
  split_ifs
  all_goals simp

theorem prefix_step (s : State) (g : Glyph) : s.tokens <+: (step s g).tokens := by
  unfold step
  split
  all_goals first
    | exact prefix_codeStep _ _
    | (split_ifs
       all_goals first
         | exact List.prefix_rfl
         | exact (List.prefix_append _ _).trans (prefix_codeStep _ _))

theorem prefix_run (s : State) (gs : List Glyph) : s.tokens <+: (run s gs).tokens := by
  induction gs generalizing s with
  | nil => exact List.prefix_rfl
  | cons g gs ih => exact (prefix_step s g).trans (ih (step s g))

theorem prefix_finish (s : State) : s.tokens <+: s.finish := by
  unfold State.finish
  split
  all_goals simp

/-- Two emitted tokens at one position that no marking excuses. -/
def Diverged (xs ys : List Token) : Prop :=
  ∃ (i : ℕ) (a b : Token), xs[i]? = some a ∧ ys[i]? = some b ∧ ¬ a.Agree b

theorem Diverged.mono {xs ys xs' ys' : List Token} (h : Diverged xs ys)
    (hx : xs <+: xs') (hy : ys <+: ys') : Diverged xs' ys' := by
  obtain ⟨i, a, b, ha, hb, hab⟩ := h
  obtain ⟨u, rfl⟩ := hx
  obtain ⟨v, rfl⟩ := hy
  refine ⟨i, a, b, ?_, ?_, hab⟩
  · rw [List.getElem?_append_left (List.getElem?_eq_some_iff.mp ha).choose, ha]
  · rw [List.getElem?_append_left (List.getElem?_eq_some_iff.mp hb).choose, hb]

theorem Diverged.not_sameStructure {xs ys : List Token} (h : Diverged xs ys) :
    ¬ SameStructure xs ys := by
  obtain ⟨i, a, b, ha, hb, hab⟩ := h
  intro hs
  obtain ⟨hi, rfl⟩ := List.getElem?_eq_some_iff.mp ha
  obtain ⟨hj, rfl⟩ := List.getElem?_eq_some_iff.mp hb
  exact hab ((List.forall₂_iff_get.mp hs).2 i hi hj)

/-- Once the emitted tokens diverge, no continuation can hide it. -/
theorem Diverged.finish {s t : State} (h : Diverged s.tokens t.tokens)
    (xs ys : List Glyph) : ¬ SameStructure (run s xs).finish (run t ys).finish :=
  (h.mono ((prefix_run s xs).trans (prefix_finish _))
    ((prefix_run t ys).trans (prefix_finish _))).not_sameStructure

/-- Different code characters behind agreeing tokens are a divergence. -/
theorem diverged_symbol {xs ys : List Token} (h : xs.length = ys.length) {c d : Char}
    (hcd : c ≠ d) : Diverged (xs ++ [.symbol c]) (ys ++ [.symbol d]) := by
  refine ⟨xs.length, .symbol c, .symbol d, by simp, by simp [h], ?_⟩
  simpa [Token.Agree] using hcd

end DbtNova.SqlLexer
