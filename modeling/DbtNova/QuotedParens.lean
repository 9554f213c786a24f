import Mathlib.Tactic.Common

/-!
# Parentheses outside quotes

A text is matched when its parentheses are, those inside quoted parts not counted. A quoted part is
in single or double quotes, and a backslash in it takes the next character for the text. The scan
goes on to the parenthesis that closes an open one; it finds it exactly where a matched text ends.
-/
namespace DbtNova.QuotedParens

variable {cs inner back body : List Char} {c q : Char} {depth n : ℕ} {escaped : Bool}

def isQuote (c : Char) : Bool := c == '\'' || c == '"'

/-- What may stand between two quotes. -/
inductive Quoted (q : Char) : List Char → Prop
  | nil : Quoted q []
  | plain (c : Char) (body : List Char) : c ≠ q → c ≠ '\\' → Quoted q body → Quoted q (c :: body)
  | escape (c : Char) (body : List Char) : Quoted q body → Quoted q ('\\' :: c :: body)

inductive Matched : List Char → Prop
  | nil : Matched []
  | plain (c : Char) (cs : List Char) : isQuote c = false → c ≠ '(' → c ≠ ')' → Matched cs →
      Matched (c :: cs)
  | quoted (q : Char) (body cs : List Char) : isQuote q = true → Quoted q body → Matched cs →
      Matched (q :: (body ++ q :: cs))
  | group (inner cs : List Char) : Matched inner → Matched cs →
      Matched ('(' :: (inner ++ ')' :: cs))

/-- Where the scan stands: in a quoted part, behind a backslash or not, or in none. -/
inductive Mode
  | code
  | quoted (q : Char) (escaped : Bool)

def quotedStep (q : Char) (escaped : Bool) (c : Char) : Mode :=
  if c = '\\' ∧ escaped = false then .quoted q true
  else if c = q ∧ escaped = false then .code
  else .quoted q false

/-- The characters before the parenthesis that closes the one in which `depth` others are open. -/
def closeFrom : List Char → ℕ → Mode → Option ℕ
  | [], _, _ => none
  | c :: cs, depth, .quoted q escaped =>
      (closeFrom cs depth (quotedStep q escaped c)).map (· + 1)
  | c :: cs, depth, .code =>
      if isQuote c then (closeFrom cs depth (.quoted c false)).map (· + 1)
      else if c = '(' then (closeFrom cs (depth + 1) .code).map (· + 1)
      else if c = ')' then
        match depth with
        | 0 => some 0
        | depth + 1 => (closeFrom cs depth .code).map (· + 1)
      else (closeFrom cs depth .code).map (· + 1)

theorem closeFrom_cons_quoted : closeFrom (c :: cs) depth (.quoted q escaped) =
    (closeFrom cs depth (quotedStep q escaped c)).map (· + 1) := rfl

theorem closeFrom_cons_code : closeFrom (c :: cs) depth .code =
    if isQuote c then (closeFrom cs depth (.quoted c false)).map (· + 1)
    else if c = '(' then (closeFrom cs (depth + 1) .code).map (· + 1)
    else if c = ')' then
      match depth with
      | 0 => some 0
      | depth + 1 => (closeFrom cs depth .code).map (· + 1)
    else (closeFrom cs depth .code).map (· + 1) := rfl

/-! ### What is matched is passed over -/

theorem closeFrom_quoted (h : Quoted q body) (hquote : isQuote q = true) (cs : List Char)
    (depth : ℕ) :
    closeFrom (body ++ q :: cs) depth (.quoted q false) =
      (closeFrom cs depth .code).map (· + (body.length + 1)) := by
  have hne : q ≠ '\\' := by
    rintro rfl
    exact absurd hquote (by decide)
  induction h with
  | nil =>
      rw [List.nil_append, closeFrom_cons_quoted, quotedStep, if_neg (fun h => hne h.1), if_pos ⟨rfl, rfl⟩]
      rfl
  | plain c body hcq hslash _ ih =>
      rw [List.cons_append, closeFrom_cons_quoted, quotedStep, if_neg (fun h => hslash h.1),
        if_neg (fun h => hcq h.1), ih, Option.map_map]
      rfl
  | escape c body _ ih =>
      have hbackslash : quotedStep q false '\\' = .quoted q true := by rfl
      have hnext : quotedStep q true c = .quoted q false := by
        unfold quotedStep
        simp
      rw [List.cons_append, List.cons_append, closeFrom_cons_quoted, hbackslash,
        closeFrom_cons_quoted, hnext, ih,
        Option.map_map, Option.map_map]
      rfl

theorem closeFrom_matched (h : Matched inner) (cs : List Char) (depth : ℕ) :
    closeFrom (inner ++ cs) depth .code =
      (closeFrom cs depth .code).map (· + inner.length) := by
  induction h generalizing cs depth with
  | nil => exact Option.map_id_apply.symm
  | plain c rest hquote hopen hclose _ ih =>
      rw [List.cons_append, closeFrom_cons_code, hquote, if_neg Bool.false_ne_true, if_neg hopen,
        if_neg hclose, ih, Option.map_map]
      rfl
  | quoted q body rest hquote hbody _ ih =>
      rw [List.cons_append, List.append_assoc, List.cons_append, closeFrom_cons_code, if_pos hquote,
        closeFrom_quoted hbody hquote, ih, Option.map_map, Option.map_map]
      congr 1
      funext n
      simp only [Function.comp_apply, List.length_cons, List.length_append]
      omega
  | group first rest _ _ ih ih' =>
      have hclose : ∀ tail : List Char, closeFrom (')' :: tail) (depth + 1) .code =
          (closeFrom tail depth .code).map (· + 1) := fun _ => rfl
      have hopen : ∀ tail : List Char, closeFrom ('(' :: tail) depth .code =
          (closeFrom tail (depth + 1) .code).map (· + 1) := fun _ => rfl
      rw [List.cons_append, List.append_assoc, List.cons_append, hopen, ih, hclose, ih',
        Option.map_map, Option.map_map, Option.map_map]
      congr 1
      funext n
      simp only [Function.comp_apply, List.length_cons, List.length_append]
      omega

/-! ### What is passed over is matched -/

/-- A text that closes `depth` parentheses and is matched otherwise. -/
inductive Closes : ℕ → List Char → Prop
  | last (inner : List Char) : Matched inner → Closes 0 inner
  | close (depth : ℕ) (inner cs : List Char) : Matched inner → Closes depth cs →
      Closes (depth + 1) (inner ++ ')' :: cs)

/-- The rest of a text from where the scan stands. -/
inductive Remaining : ℕ → Mode → List Char → Prop
  | code (depth : ℕ) (cs : List Char) : Closes depth cs → Remaining depth .code cs
  | quoted (depth : ℕ) (q : Char) (body cs : List Char) : Quoted q body → Closes depth cs →
      Remaining depth (.quoted q false) (body ++ q :: cs)
  | escaped (depth : ℕ) (q c : Char) (body cs : List Char) : Quoted q body → Closes depth cs →
      Remaining depth (.quoted q true) (c :: (body ++ q :: cs))

/-- What keeps a text matched in front of it keeps a closing text. -/
theorem Closes.extend {front : List Char} (hfront : ∀ cs, Matched cs → Matched (front ++ cs))
    (h : Closes depth cs) : Closes depth (front ++ cs) := by
  cases h with
  | last _ hinner => exact .last _ (hfront cs hinner)
  | close depth inner cs hinner hcs =>
      rw [← List.append_assoc]
      exact .close depth _ cs (hfront inner hinner) hcs

theorem Closes.group (h : Closes (depth + 1) cs) : Closes depth ('(' :: cs) := by
  cases h with
  | close _ inner rest hinner hrest =>
      have hfront : ∀ cs, Matched cs → Matched (('(' :: (inner ++ [')'])) ++ cs) := by
        intro cs hcs
        have hgroup := Matched.group inner cs hinner hcs
        simpa using hgroup
      have hclosed := hrest.extend hfront
      simpa using hclosed

theorem remaining_of_quotedStep (h : Remaining depth (quotedStep q escaped c) cs) :
    Remaining depth (.quoted q escaped) (c :: cs) := by
  unfold quotedStep at h
  split_ifs at h with hslash hquote
  · obtain ⟨rfl, rfl⟩ := hslash
    cases h with
    | escaped _ d body rest hbody hrest =>
        exact .quoted depth q ('\\' :: d :: body) rest (.escape d body hbody) hrest
  · obtain ⟨rfl, rfl⟩ := hquote
    cases h with
    | code _ hrest => exact .quoted depth c [] cs .nil hrest
  · cases h with
    | quoted _ body rest hbody hrest =>
        cases escaped with
        | true => exact .escaped depth q c body rest hbody hrest
        | false =>
            have hbody' := Quoted.plain c body (fun h => hquote ⟨h, rfl⟩)
              (fun h => hslash ⟨h, rfl⟩) hbody
            exact .quoted depth q (c :: body) rest hbody' hrest

theorem closeFrom_spec {mode : Mode} (h : closeFrom cs depth mode = some n) :
    ∃ front back, cs = front ++ ')' :: back ∧ front.length = n ∧ Remaining depth mode front := by
  induction cs generalizing depth mode n with
  | nil => cases h
  | cons c cs ih =>
      cases mode with
      | quoted q escaped =>
          obtain ⟨k, hk, rfl⟩ := Option.map_eq_some_iff.mp h
          obtain ⟨front, back, rfl, rfl, hfront⟩ := ih hk
          exact ⟨c :: front, back, rfl, rfl, remaining_of_quotedStep hfront⟩
      | code =>
          rw [closeFrom_cons_code] at h
          split_ifs at h with hquote hopen hclose
          · obtain ⟨k, hk, rfl⟩ := Option.map_eq_some_iff.mp h
            obtain ⟨front, back, rfl, rfl, hfront⟩ := ih hk
            refine ⟨c :: front, back, rfl, rfl, ?_⟩
            cases hfront with
            | quoted _ body rest hbody hrest =>
                have hkeep : ∀ cs, Matched cs → Matched ((c :: (body ++ [c])) ++ cs) := by
                  intro cs hcs
                  have hmatched := Matched.quoted c body cs hquote hbody hcs
                  simpa using hmatched
                have hclosed := hrest.extend hkeep
                exact .code depth _ (by simpa using hclosed)
          · obtain ⟨k, hk, rfl⟩ := Option.map_eq_some_iff.mp h
            obtain ⟨front, back, rfl, rfl, hfront⟩ := ih hk
            obtain rfl := hopen
            refine ⟨'(' :: front, back, rfl, rfl, ?_⟩
            cases hfront with
            | code _ hclosed => exact .code depth _ hclosed.group
          · obtain rfl := hclose
            cases depth with
            | zero =>
                obtain rfl := Option.some.inj h
                exact ⟨[], cs, rfl, rfl, .code 0 [] (.last [] .nil)⟩
            | succ depth =>
                obtain ⟨k, hk, rfl⟩ := Option.map_eq_some_iff.mp h
                obtain ⟨front, back, rfl, rfl, hfront⟩ := ih hk
                refine ⟨')' :: front, back, rfl, rfl, ?_⟩
                cases hfront with
                | code _ hclosed =>
                    exact .code (depth + 1) _ (.close depth [] front .nil hclosed)
          · obtain ⟨k, hk, rfl⟩ := Option.map_eq_some_iff.mp h
            obtain ⟨front, back, rfl, rfl, hfront⟩ := ih hk
            refine ⟨c :: front, back, rfl, rfl, ?_⟩
            cases hfront with
            | code _ hclosed =>
                have hplain : isQuote c = false := Bool.eq_false_iff.mpr hquote
                have hkeep : ∀ cs, Matched cs → Matched ([c] ++ cs) :=
                  fun cs hcs => .plain c cs hplain hopen hclose hcs
                exact .code depth _ (hclosed.extend hkeep)

/-- The scan finds the end of the matched text behind an open parenthesis. -/
theorem closeFrom_eq_some_iff :
    closeFrom cs 0 .code = some n ↔
      ∃ inner back, cs = inner ++ ')' :: back ∧ inner.length = n ∧ Matched inner := by
  constructor
  · intro h
    obtain ⟨front, back, hcs, hn, hfront⟩ := closeFrom_spec h
    cases hfront with
    | code _ hclosed =>
        cases hclosed with
        | last _ hmatched => exact ⟨front, back, hcs, hn, hmatched⟩
  · rintro ⟨inner, back, rfl, rfl, hinner⟩
    have hhere : closeFrom (')' :: back) 0 .code = some 0 := rfl
    rw [closeFrom_matched hinner, hhere, Option.map_some, Nat.zero_add]

/-- Only one matched text stands before a parenthesis that closes it. -/
theorem Matched.unique {inner' back' : List Char} (h : Matched inner) (h' : Matched inner')
    (heq : inner ++ ')' :: back = inner' ++ ')' :: back') : inner = inner' := by
  have hfirst := closeFrom_eq_some_iff.mpr ⟨inner, back, rfl, rfl, h⟩
  have hsecond := closeFrom_eq_some_iff.mpr ⟨inner', back', rfl, rfl, h'⟩
  rw [heq, hsecond] at hfirst
  exact (List.append_inj heq (Option.some.inj hfirst).symm).1

end DbtNova.QuotedParens
