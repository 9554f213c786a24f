import DbtNova.PathIndex

/-!
# The language of a glob

What a glob pattern of `utils/glob.rs` stands for, said of the characters of the pattern and
without its tokens, against what compiling and matching it decide.
-/
namespace DbtNova.Glob
open Wildcard PathIndex

/-- The texts that a pattern stands for. A run of stars is read whole. -/
inductive Denotes (allowGlobstar : Bool) : List Char → List Char → Prop
  | nil : Denotes allowGlobstar [] []
  | letter {c : Char} {pattern text : List Char} (hstar : c ≠ '*') (hquestion : c ≠ '?')
      (hrest : Denotes allowGlobstar pattern text) :
      Denotes allowGlobstar (c :: pattern) (c :: text)
  | question {c : Char} {pattern text : List Char} (hslash : c ≠ '/')
      (hrest : Denotes allowGlobstar pattern text) :
      Denotes allowGlobstar ('?' :: pattern) (c :: text)
  | star {pattern part text : List Char} (hslash : '/' ∉ part)
      (halone : allowGlobstar = true → pattern.head? ≠ some '*')
      (hrest : Denotes allowGlobstar pattern text) :
      Denotes allowGlobstar ('*' :: pattern) (part ++ text)
  | globstar {stars : ℕ} {pattern part text : List Char} (hallow : allowGlobstar = true)
      (hstars : 2 ≤ stars) (hrun : pattern.head? ≠ some '*')
      (hrest : Denotes allowGlobstar pattern text) :
      Denotes allowGlobstar (List.replicate stars '*' ++ pattern) (part ++ text)

section Simple
variable {allowGlobstar : Bool} {pattern text : List Char} {c : Char}

theorem replicate_head {stars : ℕ} (h : 2 ≤ stars) (pattern : List Char) :
    ∃ rest, List.replicate stars '*' ++ pattern = '*' :: '*' :: rest := by
  obtain ⟨more, rfl⟩ := Nat.exists_eq_add_of_le' h
  exact ⟨List.replicate more '*' ++ pattern, rfl⟩

@[simp] theorem denotes_nil : Denotes allowGlobstar [] text ↔ text = [] := by
  constructor
  · intro h
    generalize hpattern : ([] : List Char) = pattern at h
    cases h with
    | nil => rfl
    | letter => contradiction
    | question => contradiction
    | star => contradiction
    | globstar _ hstars =>
        obtain ⟨rest, hrest⟩ := replicate_head hstars _
        rw [hrest] at hpattern
        contradiction
  · rintro rfl
    exact Denotes.nil

/-- A pattern that begins with another character than a star. -/
theorem denotes_cons (hc : c ≠ '*') :
    Denotes allowGlobstar (c :: pattern) text ↔ ∃ part rest, text = part ++ rest ∧
      (simpleToken c).Accepts '/' part ∧ Denotes allowGlobstar pattern rest := by
  unfold simpleToken
  rw [if_neg hc]
  constructor
  · intro h
    generalize hpattern : c :: pattern = whole at h
    cases h with
    | nil => contradiction
    | letter _ hquestion hrest =>
        obtain ⟨rfl, rfl⟩ := List.cons.inj hpattern
        rw [if_neg hquestion]
        exact ⟨[c], _, rfl, rfl, hrest⟩
    | question hslash hrest =>
        obtain ⟨rfl, rfl⟩ := List.cons.inj hpattern
        rw [if_pos rfl]
        exact ⟨[_], _, rfl, ⟨_, hslash, rfl⟩, hrest⟩
    | star => exact absurd (List.cons.inj hpattern).1 hc
    | globstar _ hstars =>
        obtain ⟨rest, hrest⟩ := replicate_head hstars _
        rw [hrest] at hpattern
        exact absurd (List.cons.inj hpattern).1 hc
  · rintro ⟨part, rest, rfl, haccepts, hrest⟩
    by_cases hquestion : c = '?'
    · rw [if_pos hquestion] at haccepts
      obtain ⟨a, ha, rfl⟩ := haccepts
      rw [hquestion]
      exact Denotes.question ha hrest
    · rw [if_neg hquestion] at haccepts
      obtain rfl : part = [c] := haccepts
      exact Denotes.letter hc hquestion hrest

/-- A star that stands for a run by itself. -/
theorem denotes_star (halone : allowGlobstar = true → pattern.head? ≠ some '*') :
    Denotes allowGlobstar ('*' :: pattern) text ↔ ∃ part rest, text = part ++ rest ∧
      '/' ∉ part ∧ Denotes allowGlobstar pattern rest := by
  constructor
  · intro h
    generalize hpattern : '*' :: pattern = whole at h
    cases h with
    | nil => contradiction
    | letter hstar => exact absurd (List.cons.inj hpattern).1.symm hstar
    | question => exact absurd (List.cons.inj hpattern).1 (by decide)
    | star hslash _ hrest =>
        obtain ⟨-, rfl⟩ := List.cons.inj hpattern
        exact ⟨_, _, rfl, hslash, hrest⟩
    | globstar hallow hstars =>
        obtain ⟨rest, hrest⟩ := replicate_head hstars _
        rw [hrest] at hpattern
        have hhead := halone hallow
        rw [(List.cons.inj hpattern).2] at hhead
        exact absurd rfl hhead
  · rintro ⟨part, rest, rfl, hslash, hrest⟩
    exact Denotes.star hslash halone hrest

theorem head_replicate {stars stars' : ℕ} {pattern pattern' : List Char}
    (hrun : pattern.head? ≠ some '*') (hrun' : pattern'.head? ≠ some '*')
    (h : List.replicate stars '*' ++ pattern = List.replicate stars' '*' ++ pattern') :
    stars = stars' ∧ pattern = pattern' := by
  induction stars generalizing stars' with
  | zero =>
      cases stars' with
      | zero => exact ⟨rfl, h⟩
      | succ stars' =>
          rw [List.replicate_zero, List.nil_append] at h
          rw [h] at hrun
          exact absurd rfl hrun
  | succ stars ih =>
      cases stars' with
      | zero =>
          rw [List.replicate_zero, List.nil_append] at h
          rw [← h] at hrun'
          exact absurd rfl hrun'
      | succ stars' =>
          obtain ⟨hstars, hpattern⟩ := ih (List.cons.inj h).2
          exact ⟨by rw [hstars], hpattern⟩

/-- A whole run of stars, where globstars are allowed. -/
theorem denotes_run {stars : ℕ} (hrun : pattern.head? ≠ some '*') :
    Denotes true (List.replicate stars '*' ++ pattern) text ↔ ∃ part rest, text = part ++ rest ∧
      Matches '/' (starToken stars) part ∧ Denotes true pattern rest := by
  by_cases hnone : stars = 0
  · rw [hnone]
    simp [starToken, Matches]
  by_cases hone : stars = 1
  · rw [hone]
    change Denotes true ('*' :: pattern) text ↔ _
    rw [denotes_star (fun _ => hrun)]
    simp [starToken, Matches, Token.Accepts]
  have hstars : 2 ≤ stars := by omega
  have htoken : starToken stars = [.globStar] := by
    unfold starToken
    rw [if_neg hnone, if_neg hone]
  have hany : ∀ part, Matches '/' (starToken stars) part := by
    intro part
    rw [htoken]
    exact ⟨part, [], (List.append_nil part).symm, trivial, rfl⟩
  constructor
  · intro h
    generalize hpattern : List.replicate stars '*' ++ pattern = whole at h
    obtain ⟨more, hmore⟩ := replicate_head hstars pattern
    cases h with
    | nil =>
        rw [hmore] at hpattern
        contradiction
    | letter hstar =>
        rw [hmore] at hpattern
        exact absurd (List.cons.inj hpattern).1.symm hstar
    | question =>
        rw [hmore] at hpattern
        exact absurd (List.cons.inj hpattern).1 (by decide)
    | star _ halone =>
        rw [hmore] at hpattern
        have hhead := halone rfl
        rw [← (List.cons.inj hpattern).2] at hhead
        exact absurd rfl hhead
    | globstar _ _ hrun' hrest =>
        obtain ⟨-, rfl⟩ := head_replicate hrun hrun' hpattern
        exact ⟨_, _, rfl, hany _, hrest⟩
  · rintro ⟨part, rest, rfl, -, hrest⟩
    exact Denotes.globstar rfl hstars hrun hrest

/-! ## The tokens of a pattern -/

theorem matches_simple :
    Matches '/' (pattern.map simpleToken) text ↔ Denotes false pattern text := by
  induction pattern generalizing text with
  | nil => rw [denotes_nil]; rfl
  | cons c pattern ih =>
      rw [List.map_cons]
      by_cases hc : c = '*'
      · rw [hc, denotes_star (by simp)]
        simp only [Matches, ih]
        rfl
      · rw [denotes_cons hc]
        simp only [Matches, ih]

/-- The run of stars before the rest of the pattern is still open. -/
theorem matches_tokenizeFrom {stars : ℕ} :
    Matches '/' (tokenizeFrom stars pattern) text ↔
      Denotes true (List.replicate stars '*' ++ pattern) text := by
  induction pattern generalizing stars text with
  | nil =>
      rw [denotes_run (by simp)]
      unfold tokenizeFrom
      simp only [denotes_nil]
      constructor
      · intro h
        exact ⟨text, [], (List.append_nil text).symm, h, rfl⟩
      · rintro ⟨part, rest, rfl, h, rfl⟩
        rwa [List.append_nil]
  | cons c pattern ih =>
      unfold tokenizeFrom
      by_cases hc : c = '*'
      · rw [if_pos hc, ih, hc, List.replicate_succ', List.append_assoc, List.singleton_append]
      · have hrun : (c :: pattern).head? ≠ some '*' := by simpa using hc
        have htoken : (if c = '?' then Token.question else Token.char c) = simpleToken c := by
          unfold simpleToken
          rw [if_neg hc]
        rw [if_neg hc, denotes_run hrun, htoken, matches_append]
        simp only [Matches, denotes_cons hc, ih, List.replicate_zero, List.nil_append]

theorem matches_tokenize :
    Matches '/' (tokenize pattern allowGlobstar) text ↔ Denotes allowGlobstar pattern text := by
  unfold tokenize
  cases allowGlobstar with
  | false => exact matches_simple
  | true => exact matches_tokenizeFrom

end Simple

/-- A pattern without wildcards stands for itself. -/
theorem denotes_literal {allowGlobstar : Bool} {pattern text : List Char}
    (h : pattern.any (fun c => c == '*' || c == '?') = false) :
    Denotes allowGlobstar pattern text ↔ pattern = text := by
  induction pattern generalizing text with
  | nil => rw [denotes_nil, eq_comm]
  | cons c pattern ih =>
      rw [List.any_cons, Bool.or_eq_false_iff, Bool.or_eq_false_iff] at h
      obtain ⟨⟨hstar, hquestion⟩, hrest⟩ := h
      have htoken : simpleToken c = .char c := by
        unfold simpleToken
        rw [if_neg (beq_eq_false_iff_ne.mp hstar), if_neg (beq_eq_false_iff_ne.mp hquestion)]
      rw [denotes_cons (beq_eq_false_iff_ne.mp hstar), htoken]
      simp only [ih hrest, Token.Accepts]
      constructor
      · rintro ⟨part, rest, rfl, rfl, rfl⟩
        rfl
      · rintro rfl
        exact ⟨[c], pattern, rfl, rfl, rfl⟩

theorem globMatch_denotes {pattern text : List Char} {allowGlobstar : Bool} :
    globMatchCompiled (compileGlob pattern allowGlobstar) text = true ↔
      Denotes allowGlobstar (stripLeadingDotSlash pattern) (stripLeadingDotSlash text) := by
  unfold globMatchCompiled compileGlob
  dsimp only
  cases hany : (stripLeadingDotSlash pattern).any fun c => c == '*' || c == '?' with
  | true =>
      change matchTokens '/' (tokenize (stripLeadingDotSlash pattern) allowGlobstar) _ = true ↔ _
      rw [matchTokens_iff, matches_tokenize]
  | false =>
      rw [denotes_literal hany]
      exact beq_iff_eq

/-- A compiled glob matches the texts that its pattern stands for, and comparing a pattern
without wildcards decides what its tokens decide. -/
theorem globMatchCompiled_iff (pattern text : List Char) (allowGlobstar : Bool) :
    (globMatchCompiled (compileGlob pattern allowGlobstar) text = true ↔
        Denotes allowGlobstar (stripLeadingDotSlash pattern) (stripLeadingDotSlash text)) ∧
      globMatchCompiled (compileGlob pattern allowGlobstar) text =
        matchTokens '/' (tokenize (stripLeadingDotSlash pattern) allowGlobstar)
          (stripLeadingDotSlash text) := by
  refine ⟨globMatch_denotes, ?_⟩
  rw [Bool.eq_iff_iff, globMatch_denotes, matchTokens_iff, matches_tokenize]

end DbtNova.Glob
