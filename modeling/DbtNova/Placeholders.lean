import Mathlib.Tactic.Common

/-!
# Replacing placeholders in a text

A placeholder is an opening character and a name. Whether one stands at a place of a
text is for a reader of the text to say, from what comes before. `rewriteFrom` replaces
every placeholder by a mark; `Reading` is a reader that also knows which characters
are code, where a mark counts. The results compare two readers: they rewrite a text
alike exactly if they agree about its placeholders, and the marks that a reader sees in
the result are the inserted ones exactly if it sees none in the text.
-/
namespace Placeholders

structure Spelling where
  opener : Char
  mark : Char
  starts : Char → Bool
  continues : Char → Bool
  continues_of_starts : ∀ c, starts c = true → continues c = true
  continues_opener : continues opener = false
  continues_mark : continues mark = false
  opener_ne_mark : opener ≠ mark

section Definitions
variable (ν : Spelling)

/-- A name begins here. -/
def Spelling.opens (text : List Char) : Bool := text.head?.any ν.starts

/-- A name goes on here. -/
def Spelling.goesOn (text : List Char) : Bool := text.head?.any ν.continues

/-- The text with its placeholders replaced, each character with whether it was put
in. `before` has been read, and `naming` tells whether a name is being skipped. -/
def rewriteFrom (placeholder : List Char → Bool) :
    List Char → Bool → List Char → List (Char × Bool)
  | _, _, [] => []
  | before, naming, c :: rest =>
      if naming = true ∧ ν.continues c = true then
        rewriteFrom placeholder (before ++ [c]) true rest
      else if c = ν.opener ∧ ν.opens rest = true ∧ placeholder before = true then
        (ν.mark, true) :: rewriteFrom placeholder (before ++ [c]) true rest
      else (c, false) :: rewriteFrom placeholder (before ++ [c]) false rest

def namesFrom (placeholder : List Char → Bool) : List Char → List Char → List (List Char)
  | _, [] => []
  | before, c :: rest =>
      if c = ν.opener ∧ ν.opens rest = true ∧ placeholder before = true then
        rest.takeWhile ν.continues :: namesFrom placeholder (before ++ [c]) rest
      else namesFrom placeholder (before ++ [c]) rest

/-- For each character, whether it is a mark that counts. -/
def marksFrom (code : List Char → Bool) : List Char → List Char → List Bool
  | _, [] => []
  | before, c :: rest =>
      (c == ν.mark && code before) :: marksFrom code (before ++ [c]) rest

/-- A reader of texts: which characters are code, and which placeholders stand there.
A placeholder counts as one token, so what follows it is read as after a mark. -/
structure Reading where
  code : List Char → Bool
  placeholder : List Char → Bool
  code_of_placeholder : ∀ before, placeholder before = true → code before = true
  code_after : ∀ before name rest, placeholder before = true → ν.opens name = true →
    (∀ c ∈ name, ν.continues c = true) → ν.goesOn rest = false →
    code (before ++ ν.opener :: (name ++ rest)) = code (before ++ ν.mark :: rest)

/-- The two agree wherever the text has the form of a placeholder. -/
def AgreeFrom (p q : List Char → Bool) (before text : List Char) : Prop :=
  ∀ xs rest, text = xs ++ ν.opener :: rest → ν.opens rest = true →
    p (before ++ xs) = q (before ++ xs)

/-- No mark of the text counts. -/
def UnmarkedFrom (code : List Char → Bool) (before text : List Char) : Prop :=
  ∀ xs rest, text = xs ++ ν.mark :: rest → code (before ++ xs) = false

end Definitions

variable {ν : Spelling}

theorem forall_split_cons (prop : List Char → List Char → Prop) {a c : Char}
    {before rest : List Char} :
    (∀ xs ys, c :: rest = xs ++ a :: ys → prop (before ++ xs) ys) ↔
      (c = a → prop before rest) ∧
        ∀ xs ys, rest = xs ++ a :: ys → prop (before ++ [c] ++ xs) ys := by
  constructor
  · intro h
    constructor
    · intro hc
      have hhead := h [] rest (by rw [hc]; rfl)
      rwa [List.append_nil] at hhead
    · intro xs ys hrest
      have htail := h (c :: xs) ys (by rw [hrest]; rfl)
      rwa [List.append_cons] at htail
  · intro h xs ys hsplit
    cases xs with
    | nil =>
        obtain ⟨hc, hrest⟩ := List.cons.inj hsplit
        rw [List.append_nil, ← hrest]
        exact h.1 hc
    | cons x xs =>
        obtain ⟨hc, hrest⟩ := List.cons.inj hsplit
        rw [List.append_cons, ← hc]
        exact h.2 xs ys hrest

theorem agreeFrom_cons {p q : List Char → Bool} {before rest : List Char} {c : Char} :
    AgreeFrom ν p q before (c :: rest) ↔
      (c = ν.opener → ν.opens rest = true → p before = q before) ∧
        AgreeFrom ν p q (before ++ [c]) rest :=
  forall_split_cons fun xs ys => ν.opens ys = true → p xs = q xs

theorem unmarkedFrom_cons {code : List Char → Bool} {before rest : List Char} {c : Char} :
    UnmarkedFrom ν code before (c :: rest) ↔
      (c = ν.mark → code before = false) ∧ UnmarkedFrom ν code (before ++ [c]) rest :=
  forall_split_cons fun xs _ => code xs = false

theorem Spelling.continues_of_eq_opener {c : Char} (h : c = ν.opener) : ν.continues c = false := by
  rw [h]
  exact ν.continues_opener

/-! ## Reading on -/

section Steps
variable {p : List Char → Bool} {before rest : List Char} {c : Char}

theorem rewriteFrom_open (hc : c = ν.opener) (hopens : ν.opens rest = true)
    (hp : p before = true) :
    rewriteFrom ν p before false (c :: rest) =
      (ν.mark, true) :: rewriteFrom ν p (before ++ [c]) true rest := by
  conv_lhs => unfold rewriteFrom
  rw [if_neg (by simp), if_pos ⟨hc, hopens, hp⟩]

theorem rewriteFrom_copy (h : ¬ (c = ν.opener ∧ ν.opens rest = true ∧ p before = true)) :
    rewriteFrom ν p before false (c :: rest) =
      (c, false) :: rewriteFrom ν p (before ++ [c]) false rest := by
  conv_lhs => unfold rewriteFrom
  rw [if_neg (by simp), if_neg h]

theorem rewriteFrom_skip {name : List Char} (hname : ∀ c ∈ name, ν.continues c = true)
    (hend : ν.goesOn rest = false) :
    rewriteFrom ν p before true (name ++ rest) =
      rewriteFrom ν p (before ++ name) false rest := by
  induction name generalizing before with
  | nil =>
      rw [List.nil_append, List.append_nil]
      cases rest with
      | nil => rfl
      | cons c rest =>
          have hc : ν.continues c = false := hend
          unfold rewriteFrom
          simp only [hc, Bool.false_eq_true, and_false, if_false]
  | cons c name ih =>
      have hc := hname c List.mem_cons_self
      rw [List.cons_append]
      conv_lhs => unfold rewriteFrom
      rw [if_pos ⟨rfl, hc⟩, ih fun d hd => hname d (List.mem_cons_of_mem c hd), List.append_assoc,
        List.singleton_append]

theorem namesFrom_open (hc : c = ν.opener) (hopens : ν.opens rest = true)
    (hp : p before = true) :
    namesFrom ν p before (c :: rest) =
      rest.takeWhile ν.continues :: namesFrom ν p (before ++ [c]) rest := by
  conv_lhs => unfold namesFrom
  rw [if_pos ⟨hc, hopens, hp⟩]

theorem namesFrom_copy (h : ¬ (c = ν.opener ∧ ν.opens rest = true ∧ p before = true)) :
    namesFrom ν p before (c :: rest) = namesFrom ν p (before ++ [c]) rest := by
  conv_lhs => unfold namesFrom
  rw [if_neg h]

theorem namesFrom_skip {name : List Char} (hname : ∀ c ∈ name, ν.continues c = true) :
    namesFrom ν p before (name ++ rest) = namesFrom ν p (before ++ name) rest := by
  induction name generalizing before with
  | nil => rw [List.nil_append, List.append_nil]
  | cons c name ih =>
      have hc : ¬ (c = ν.opener ∧ ν.opens (name ++ rest) = true ∧ p before = true) := by
        intro h
        have hcontinues := hname c List.mem_cons_self
        rw [ν.continues_of_eq_opener h.1] at hcontinues
        cases hcontinues
      rw [List.cons_append, namesFrom_copy hc, ih fun d hd => hname d (List.mem_cons_of_mem c hd),
        List.append_assoc, List.singleton_append]

end Steps

/-! ## Two readers -/

section Compare
variable {p q : List Char → Bool}

theorem AgreeFrom.rewriteFrom_eq {before text : List Char} (h : AgreeFrom ν p q before text)
    (naming : Bool) : rewriteFrom ν p before naming text = rewriteFrom ν q before naming text := by
  induction text generalizing before naming with
  | nil => rfl
  | cons c rest ih =>
      obtain ⟨hhead, htail⟩ := agreeFrom_cons.mp h
      unfold rewriteFrom
      rw [ih htail true, ih htail false]
      by_cases hopen : c = ν.opener ∧ ν.opens rest = true
      · rw [hhead hopen.1 hopen.2]
      · have hnot : ∀ b : Bool, ¬ (c = ν.opener ∧ ν.opens rest = true ∧ b = true) :=
          fun b hb => hopen ⟨hb.1, hb.2.1⟩
        rw [if_neg (hnot (p before)), if_neg (hnot (q before))]

theorem AgreeFrom.namesFrom_eq {before text : List Char} (h : AgreeFrom ν p q before text) :
    namesFrom ν p before text = namesFrom ν q before text := by
  induction text generalizing before with
  | nil => rfl
  | cons c rest ih =>
      obtain ⟨hhead, htail⟩ := agreeFrom_cons.mp h
      unfold namesFrom
      rw [ih htail]
      by_cases hopen : c = ν.opener ∧ ν.opens rest = true
      · rw [hhead hopen.1 hopen.2]
      · have hnot : ∀ b : Bool, ¬ (c = ν.opener ∧ ν.opens rest = true ∧ b = true) :=
          fun b hb => hopen ⟨hb.1, hb.2.1⟩
        rw [if_neg (hnot (p before)), if_neg (hnot (q before))]

/-- Every mark that was put in has a name. -/
theorem count_inserted {before text : List Char} {naming : Bool} :
    ((rewriteFrom ν p before naming text).map Prod.snd).count true =
      (namesFrom ν p before text).length := by
  induction text generalizing before naming with
  | nil => rfl
  | cons c rest ih =>
      unfold rewriteFrom namesFrom
      by_cases hskip : naming = true ∧ ν.continues c = true
      · have hopen : ¬ (c = ν.opener ∧ ν.opens rest = true ∧ p before = true) := by
          intro h
          rw [ν.continues_of_eq_opener h.1] at hskip
          cases hskip.2
        rw [if_pos hskip, if_neg hopen, ih]
      rw [if_neg hskip]
      by_cases hopen : c = ν.opener ∧ ν.opens rest = true ∧ p before = true
      · rw [if_pos hopen, if_pos hopen, List.map_cons, List.count_cons_self, List.length_cons, ih]
      · rw [if_neg hopen, if_neg hopen, List.map_cons, List.count_cons_of_ne Bool.false_ne_true, ih]

/-- Already the rewritten texts tell two readers apart. -/
theorem rewriteFrom_eq_iff {before text : List Char} {naming : Bool} :
    (rewriteFrom ν p before naming text).map Prod.fst =
        (rewriteFrom ν q before naming text).map Prod.fst ↔
      AgreeFrom ν p q before text := by
  constructor
  · intro h
    induction text generalizing before naming with
    | nil =>
        intro xs rest htext
        cases xs with
        | nil => cases htext
        | cons x xs => cases htext
    | cons c rest ih =>
        unfold rewriteFrom at h
        rw [agreeFrom_cons]
        by_cases hskip : naming = true ∧ ν.continues c = true
        · rw [if_pos hskip, if_pos hskip] at h
          refine ⟨?_, ih h⟩
          intro hc
          rw [ν.continues_of_eq_opener hc] at hskip
          cases hskip.2
        rw [if_neg hskip, if_neg hskip] at h
        by_cases hopen : c = ν.opener ∧ ν.opens rest = true
        · -- the first character shows whether the placeholder was replaced
          have hfirst : ∀ b : Bool, (c = ν.opener ∧ ν.opens rest = true ∧ b = true) ↔ b = true :=
            fun b => ⟨fun hb => hb.2.2, fun hb => ⟨hopen.1, hopen.2, hb⟩⟩
          simp only [hfirst] at h
          cases hp : p before with
          | true =>
              cases hq : q before with
              | true =>
                  simp only [hp, hq, if_true, List.map_cons] at h
                  exact ⟨fun _ _ => rfl, ih (List.cons.inj h).2⟩
              | false =>
                  simp only [hp, hq, if_true, Bool.false_eq_true, if_false, List.map_cons] at h
                  exact absurd ((List.cons.inj h).1.trans hopen.1).symm ν.opener_ne_mark
          | false =>
              cases hq : q before with
              | true =>
                  simp only [hp, hq, if_true, Bool.false_eq_true, if_false, List.map_cons] at h
                  exact absurd (hopen.1.symm.trans (List.cons.inj h).1) ν.opener_ne_mark
              | false =>
                  simp only [hp, hq, Bool.false_eq_true, if_false, List.map_cons] at h
                  exact ⟨fun _ _ => rfl, ih (List.cons.inj h).2⟩
        · have hnot : ∀ b : Bool, ¬ (c = ν.opener ∧ ν.opens rest = true ∧ b = true) :=
            fun b hb => hopen ⟨hb.1, hb.2.1⟩
          rw [if_neg (hnot (p before)), if_neg (hnot (q before)), List.map_cons, List.map_cons] at h
          exact ⟨fun hc ho => absurd ⟨hc, ho⟩ hopen, ih (List.cons.inj h).2⟩
  · intro h
    rw [h.rewriteFrom_eq]

end Compare

/-! ## The marks of a rewritten text -/

/-- What has been read of a text and of its rewriting, in the middle of a name or
outside one: whatever comes next is read alike. -/
def Follows (r : Reading ν) (before before' text : List Char) : Bool → Prop
  | false => ∀ rest, r.code (before' ++ rest) = r.code (before ++ rest)
  | true => ∃ xs xs' name, before = xs ++ ν.opener :: name ∧ before' = xs' ++ [ν.mark] ∧
      r.placeholder xs = true ∧ (∀ c ∈ name, ν.continues c = true) ∧
      ν.opens (name ++ text) = true ∧
      ∀ rest, r.code (xs' ++ ν.mark :: rest) = r.code (xs ++ ν.mark :: rest)

theorem Follows.code_eq {r : Reading ν} {before before' text : List Char} {naming : Bool}
    (h : Follows r before before' text naming) (hend : naming = true → ν.goesOn text = false)
    {rest : List Char} (hrest : naming = true → ν.goesOn rest = false) :
    r.code (before' ++ rest) = r.code (before ++ rest) := by
  cases naming with
  | false => exact h rest
  | true =>
      obtain ⟨xs, xs', name, hbefore, hbefore', hplaceholder, hname, hopens, hcode⟩ := h
      have hnamed : ν.opens name = true := by
        cases name with
        | cons c name => exact hopens
        | nil =>
            rw [List.nil_append] at hopens
            have hgoes := hend rfl
            cases text with
            | nil => cases hopens
            | cons c text =>
                have hc := ν.continues_of_starts c hopens
                rw [show ν.goesOn (c :: text) = ν.continues c from rfl, hc] at hgoes
                cases hgoes
      rw [hbefore, hbefore', List.append_assoc, List.singleton_append, hcode rest,
        List.append_assoc, List.cons_append,
        r.code_after xs name rest hplaceholder hnamed hname (hrest rfl)]

theorem marksFrom_iff (r : Reading ν) {before before' text : List Char} {naming : Bool}
    (h : Follows r before before' text naming) :
    marksFrom ν r.code before' ((rewriteFrom ν r.placeholder before naming text).map Prod.fst) =
        (rewriteFrom ν r.placeholder before naming text).map Prod.snd ↔
      UnmarkedFrom ν r.code before text := by
  induction text generalizing before before' naming with
  | nil =>
      constructor
      · intro _ xs rest htext
        cases xs with
        | nil => cases htext
        | cons x xs => cases htext
      · intro _
        rfl
  | cons c rest ih =>
      unfold rewriteFrom
      rw [unmarkedFrom_cons]
      by_cases hskip : naming = true ∧ ν.continues c = true
      · rw [if_pos hskip]
        have hmark : ¬ c = ν.mark := by
          intro hc
          rw [hc, ν.continues_mark] at hskip
          cases hskip.2
        have hfollows : Follows r (before ++ [c]) before' rest true := by
          rw [hskip.1] at h
          obtain ⟨xs, xs', name, hbefore, hbefore', hplaceholder, hname, hopens, hcode⟩ := h
          refine ⟨xs, xs', name ++ [c], ?_, hbefore', hplaceholder, ?_, ?_, hcode⟩
          · rw [hbefore, List.append_assoc, List.cons_append]
          · intro d hd
            cases List.mem_append.mp hd with
            | inl hold => exact hname d hold
            | inr hnew => exact List.mem_singleton.mp hnew ▸ hskip.2
          · rw [List.append_assoc, List.singleton_append]
            exact hopens
        rw [ih hfollows]
        exact ⟨fun hrest => ⟨fun hc => absurd hc hmark, hrest⟩, fun hboth => hboth.2⟩
      · rw [if_neg hskip]
        -- no name goes on here, so both texts are read alike from here
        have hend : naming = true → ν.goesOn (c :: rest) = false := by
          intro hnaming
          cases hc : ν.continues c with
          | false => exact hc
          | true => exact absurd ⟨hnaming, hc⟩ hskip
        have hcode : ∀ ys, (naming = true → ν.goesOn ys = false) →
            r.code (before' ++ ys) = r.code (before ++ ys) := fun ys hys => h.code_eq hend hys
        have hnow : r.code before' = r.code before := by
          have hnil := hcode [] (fun _ => rfl)
          rwa [List.append_nil, List.append_nil] at hnil
        by_cases hopen : c = ν.opener ∧ ν.opens rest = true ∧ r.placeholder before = true
        · rw [if_pos hopen]
          have hfollows : Follows r (before ++ [c]) (before' ++ [ν.mark]) rest true := by
            refine ⟨before, before', [], ?_, rfl, hopen.2.2, ?_, hopen.2.1, ?_⟩
            · rw [hopen.1]
            · intro d hd
              cases hd
            · intro ys
              exact hcode (ν.mark :: ys) (fun _ => ν.continues_mark)
          have hcounts : (ν.mark == ν.mark && r.code before') = true := by
            rw [hnow, r.code_of_placeholder before hopen.2.2, beq_self_eq_true, Bool.and_self]
          simp only [List.map_cons, marksFrom, hcounts, List.cons.injEq, true_and]
          rw [ih hfollows]
          have hmark : ¬ c = ν.mark := fun hc => ν.opener_ne_mark (hopen.1.symm.trans hc)
          exact ⟨fun hrest => ⟨fun hc => absurd hc hmark, hrest⟩, fun hboth => hboth.2⟩
        · rw [if_neg hopen]
          have hfollows : Follows r (before ++ [c]) (before' ++ [c]) rest false := by
            intro ys
            rw [List.append_assoc, List.append_assoc]
            exact hcode ([c] ++ ys) hend
          simp only [List.map_cons, marksFrom, List.cons.injEq]
          rw [ih hfollows, hnow]
          have hhead : (c == ν.mark && r.code before) = false ↔
              (c = ν.mark → r.code before = false) := by
            by_cases hc : c = ν.mark
            · simp [hc]
            · simp [hc]
          rw [hhead]

/-- What a rewriting has to do for a reader: replace its placeholders, list their
names, and leave no mark that counts but the inserted ones. -/
structure Faithful (r : Reading ν) (text result : List Char) (names : List (List Char)) :
    Prop where
  text_eq : result = (rewriteFrom ν r.placeholder [] false text).map Prod.fst
  names_eq : names = namesFrom ν r.placeholder [] text
  marks_eq : marksFrom ν r.code [] result =
    (rewriteFrom ν r.placeholder [] false text).map Prod.snd

/-- The reader sees as many marks as there are names. -/
theorem Faithful.count_marks {r : Reading ν} {text result : List Char} {names : List (List Char)}
    (h : Faithful r text result names) :
    (marksFrom ν r.code [] result).count true = names.length := by
  rw [h.marks_eq, h.names_eq, count_inserted]

theorem faithful_iff (r : Reading ν) (p : List Char → Bool) (text : List Char) :
    Faithful r text ((rewriteFrom ν p [] false text).map Prod.fst) (namesFrom ν p [] text) ↔
      AgreeFrom ν p r.placeholder [] text ∧ UnmarkedFrom ν r.code [] text := by
  have hfollows : Follows r [] [] text false := fun _ => rfl
  have hmarks := marksFrom_iff r hfollows
  constructor
  · intro h
    refine ⟨rewriteFrom_eq_iff.mp h.text_eq, hmarks.mp ?_⟩
    rw [← h.text_eq]
    exact h.marks_eq
  · intro h
    have htext := h.1.rewriteFrom_eq false
    refine ⟨?_, h.1.namesFrom_eq, ?_⟩
    · rw [htext]
    · rw [htext]
      exact hmarks.mpr h.2

end Placeholders
