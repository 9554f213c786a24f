import Mathlib.Data.List.Infix
import Mathlib.Tactic.Common

/-!
# Rewriting in passes and rewriting at once

A pass replaces every occurrence of a word that starts behind a boundary. Several
passes may read what an earlier one has written. Rewriting at once cuts the text into
pieces: a character of the text, or an occurrence with what is written for it, which no
later pass looks into. The two agree when no pass can find its word in a place that
touches a written text.
-/
namespace DbtNova.RewritePasses

variable {α : Type}

/-! ## Pieces -/

inductive Piece (α : Type) where
  | kept (c : α)
  | written (source target : List α)
  deriving DecidableEq

/-- What a piece stands for in the text at the start. -/
def Piece.source : Piece α → List α
  | .kept c => [c]
  | .written source _ => source

def Piece.target : Piece α → List α
  | .kept c => [c]
  | .written _ target => target

/-- The character before the next piece. -/
def Piece.after (previous : Option α) (piece : Piece α) : Option α :=
  piece.target.getLast?.or previous

@[simp] theorem flatMap_source_kept (text : List α) :
    (text.map Piece.kept).flatMap Piece.source = text := by
  induction text with
  | nil => rfl
  | cons c text ih => rw [List.map_cons, List.flatMap_cons, ih, Piece.source, List.singleton_append]

@[simp] theorem flatMap_target_kept (text : List α) :
    (text.map Piece.kept).flatMap Piece.target = text := by
  induction text with
  | nil => rfl
  | cons c text ih => rw [List.map_cons, List.flatMap_cons, ih, Piece.target, List.singleton_append]

theorem getLast?_or_cons (c : α) (text : List α) (previous : Option α) :
    (c :: text).getLast?.or previous = text.getLast?.or (some c) := by
  cases text with
  | nil => rfl
  | cons d rest =>
      rw [List.getLast?_cons_cons, List.getLast?_cons]
      rfl

theorem getLast?_or {text : List α} (h : text ≠ []) (previous : Option α) :
    text.getLast?.or previous = text.getLast? := by
  cases text with
  | nil => exact absurd rfl h
  | cons c rest =>
      rw [List.getLast?_cons]
      rfl

variable [DecidableEq α] (boundary : Option α → Bool)

/-! ## A pass over a text -/

/-- The occurrences are found from left to right; the counter passes over the rest of
one. -/
def replaceFrom (needle replacement : List α) : ℕ → Option α → List α → List α
  | _, _, [] => []
  | skipped + 1, _, c :: rest => replaceFrom needle replacement skipped (some c) rest
  | 0, previous, c :: rest =>
      if boundary previous = true ∧ needle <+: c :: rest then
        replacement ++ replaceFrom needle replacement (needle.length - 1) (some c) rest
      else c :: replaceFrom needle replacement 0 (some c) rest

section Text
variable {boundary} {needle replacement text rest : List α} {previous : Option α} {c : α}

theorem replaceFrom_skip (text : List α) (previous : Option α) :
    replaceFrom boundary needle replacement text.length previous (text ++ rest) =
      replaceFrom boundary needle replacement 0 (text.getLast?.or previous) rest := by
  induction text generalizing previous with
  | nil => rfl
  | cons c text ih =>
      rw [List.length_cons, List.cons_append, replaceFrom, ih, getLast?_or_cons]

theorem replaceFrom_hit (hne : needle ≠ []) (hboundary : boundary previous = true) :
    replaceFrom boundary needle replacement 0 previous (needle ++ rest) =
      replacement ++ replaceFrom boundary needle replacement 0 needle.getLast? rest := by
  cases needle with
  | nil => exact absurd rfl hne
  | cons c needle =>
      rw [List.cons_append, replaceFrom, if_pos ⟨hboundary, List.prefix_append _ _⟩,
        List.length_cons, Nat.add_sub_cancel, replaceFrom_skip,
        ← @Option.or_none _ (c :: needle).getLast?, getLast?_or_cons]

theorem replaceFrom_miss (h : ¬ (boundary previous = true ∧ needle <+: c :: rest)) :
    replaceFrom boundary needle replacement 0 previous (c :: rest) =
      c :: replaceFrom boundary needle replacement 0 (some c) rest := by
  rw [replaceFrom, if_neg h]

/-- A front in which no occurrence starts is copied. -/
theorem replaceFrom_copy (h : ∀ front back, text = front ++ back → back ≠ [] →
      boundary (front.getLast?.or previous) = true → ¬ needle <+: back ++ rest) :
    replaceFrom boundary needle replacement 0 previous (text ++ rest) =
      text ++ replaceFrom boundary needle replacement 0 (text.getLast?.or previous) rest := by
  induction text generalizing previous with
  | nil => rfl
  | cons c text ih =>
      have hmiss : ¬ (boundary previous = true ∧ needle <+: c :: (text ++ rest)) :=
        fun hhit => h [] (c :: text) rfl (List.cons_ne_nil c text) hhit.1 hhit.2
      rw [List.cons_append, replaceFrom_miss hmiss, getLast?_or_cons, List.cons_append, ih]
      intro front back heq hback hboundary
      apply h (c :: front) back (by rw [heq, List.cons_append]) hback
      rwa [getLast?_or_cons]

variable (boundary) in
/-- A text is taken apart as a pass takes it apart. -/
theorem replaceFrom_induction {motive : Option α → List α → Prop} (hne : needle ≠ [])
    (nil : ∀ previous, motive previous [])
    (hit : ∀ previous rest, boundary previous = true → motive needle.getLast? rest →
      motive previous (needle ++ rest))
    (miss : ∀ previous c rest, ¬ (boundary previous = true ∧ needle <+: c :: rest) →
      motive (some c) rest → motive previous (c :: rest))
    (previous : Option α) (text : List α) : motive previous text := by
  induction hn : text.length using Nat.strong_induction_on generalizing text previous with
  | _ n ih =>
      cases text with
      | nil => exact nil previous
      | cons c rest =>
          by_cases hhit : boundary previous = true ∧ needle <+: c :: rest
          · obtain ⟨hboundary, tail, htail⟩ := hhit
            have hpos := List.length_pos_of_ne_nil hne
            have hlength := congrArg List.length htail
            rw [List.length_append] at hlength
            rw [← htail]
            exact hit previous tail hboundary (ih tail.length (by omega) _ _ rfl)
          · rw [List.length_cons] at hn
            exact miss previous c rest hhit (ih rest.length (by omega) _ _ rfl)

/-- Writing the same word again changes nothing. -/
theorem replaceFrom_self (hne : needle ≠ []) (previous : Option α) (text : List α) :
    replaceFrom boundary needle needle 0 previous text = text := by
  induction previous, text using replaceFrom_induction boundary hne with
  | nil previous => rfl
  | hit previous rest hboundary ih => rw [replaceFrom_hit hne hboundary, ih]
  | miss previous c rest hmiss ih => rw [replaceFrom_miss hmiss, ih]

end Text

/-! ## A pass over pieces -/

def passFrom (needle replacement : List α) : ℕ → Option α → List (Piece α) → List (Piece α)
  | _, _, [] => []
  | skipped + 1, previous, piece :: rest =>
      passFrom needle replacement skipped (piece.after previous) rest
  | 0, previous, piece :: rest =>
      if boundary previous = true ∧ needle.map .kept <+: piece :: rest then
        .written needle replacement ::
          passFrom needle replacement (needle.length - 1) (piece.after previous) rest
      else piece :: passFrom needle replacement 0 (piece.after previous) rest

def rewriteOnce (entries : List (List α × List α)) (pieces : List (Piece α)) : List (Piece α) :=
  entries.foldl (fun pieces entry => passFrom boundary entry.1 entry.2 0 none pieces) pieces

def rewriteInPasses (entries : List (List α × List α)) (text : List α) : List α :=
  entries.foldl (fun text entry => replaceFrom boundary entry.1 entry.2 0 none text) text

section Pieces
variable {boundary} {needle replacement : List α} {pieces rest : List (Piece α)}
  {piece : Piece α} {previous : Option α}

theorem passFrom_skip (text : List α) (previous : Option α) :
    passFrom boundary needle replacement text.length previous (text.map .kept ++ rest) =
      passFrom boundary needle replacement 0 (text.getLast?.or previous) rest := by
  induction text generalizing previous with
  | nil => rfl
  | cons c text ih =>
      rw [List.length_cons, List.map_cons, List.cons_append, passFrom, ih, getLast?_or_cons]
      rfl

theorem passFrom_hit (hne : needle ≠ []) (hboundary : boundary previous = true) :
    passFrom boundary needle replacement 0 previous (needle.map .kept ++ rest) =
      .written needle replacement ::
        passFrom boundary needle replacement 0 needle.getLast? rest := by
  cases needle with
  | nil => exact absurd rfl hne
  | cons c needle =>
      rw [List.map_cons, List.cons_append, passFrom,
        if_pos ⟨hboundary, List.prefix_append (Piece.kept c :: needle.map .kept) rest⟩,
        List.length_cons, Nat.add_sub_cancel, passFrom_skip,
        ← @Option.or_none _ (c :: needle).getLast?, getLast?_or_cons]
      rfl

theorem passFrom_miss (h : ¬ (boundary previous = true ∧ needle.map .kept <+: piece :: rest)) :
    passFrom boundary needle replacement 0 previous (piece :: rest) =
      piece :: passFrom boundary needle replacement 0 (piece.after previous) rest := by
  rw [passFrom, if_neg h]

omit [DecidableEq α] in
theorem foldl_after_kept (text : List α) (previous : Option α) :
    (text.map Piece.kept).foldl Piece.after previous = text.getLast?.or previous := by
  induction text generalizing previous with
  | nil => rfl
  | cons c text ih =>
      rw [List.map_cons, List.foldl_cons, ih, getLast?_or_cons]
      rfl

/-- Pieces in which no occurrence starts stay as they are. -/
theorem passFrom_copy {text : List (Piece α)} (h : ∀ front back, text = front ++ back → back ≠ [] →
    boundary (front.foldl Piece.after previous) = true → ¬ needle.map .kept <+: back ++ rest) :
    passFrom boundary needle replacement 0 previous (text ++ rest) =
      text ++ passFrom boundary needle replacement 0 (text.foldl Piece.after previous) rest := by
  induction text generalizing previous with
  | nil => rfl
  | cons piece text ih =>
      have hmiss : ¬ (boundary previous = true ∧ needle.map .kept <+: piece :: (text ++ rest)) :=
        fun hhit => h [] (piece :: text) rfl (List.cons_ne_nil piece text) hhit.1 hhit.2
      rw [List.cons_append, passFrom_miss hmiss, ih, List.foldl_cons, List.cons_append]
      exact fun front back heq => h (piece :: front) back (by rw [heq, List.cons_append])

theorem passFrom_of_absent (h : ∀ front back, pieces = front ++ back → back ≠ [] →
    ¬ needle.map .kept <+: back) (previous : Option α) :
    passFrom boundary needle replacement 0 previous pieces = pieces := by
  have hcopy := @passFrom_copy _ _ boundary needle replacement [] previous pieces
    fun front back heq hback _ => by
      rw [List.append_nil]
      exact h front back heq hback
  rw [List.append_nil, passFrom, List.append_nil] at hcopy
  exact hcopy

variable (boundary) in
/-- Pieces are taken apart as a pass takes them apart. -/
theorem passFrom_induction {motive : Option α → List (Piece α) → Prop} (hne : needle ≠ [])
    (nil : ∀ previous, motive previous [])
    (hit : ∀ previous rest, boundary previous = true → motive needle.getLast? rest →
      motive previous (needle.map .kept ++ rest))
    (miss : ∀ previous piece rest,
      ¬ (boundary previous = true ∧ needle.map .kept <+: piece :: rest) →
      motive (piece.after previous) rest → motive previous (piece :: rest))
    (previous : Option α) (pieces : List (Piece α)) : motive previous pieces := by
  induction hn : pieces.length using Nat.strong_induction_on generalizing pieces previous with
  | _ n ih =>
      cases pieces with
      | nil => exact nil previous
      | cons piece rest =>
          by_cases hhit : boundary previous = true ∧ needle.map .kept <+: piece :: rest
          · obtain ⟨hboundary, tail, htail⟩ := hhit
            have hpos := List.length_pos_of_ne_nil hne
            have hlength := congrArg List.length htail
            rw [List.length_append, List.length_map] at hlength
            rw [← htail]
            exact hit previous tail hboundary (ih tail.length (by omega) _ _ rfl)
          · rw [List.length_cons] at hn
            exact miss previous piece rest hhit (ih rest.length (by omega) _ _ rfl)

/-- A reading of the pieces that takes what is written for the word itself is the same
behind the pass. -/
theorem flatMap_passFrom {read : Piece α → List α} (hne : needle ≠ [])
    (hread : read (.written needle replacement) = (needle.map .kept).flatMap read)
    (previous : Option α) (pieces : List (Piece α)) :
    (passFrom boundary needle replacement 0 previous pieces).flatMap read =
      pieces.flatMap read := by
  induction previous, pieces using passFrom_induction boundary hne with
  | nil previous => rfl
  | hit previous rest hboundary ih =>
      rw [passFrom_hit hne hboundary, List.flatMap_cons, List.flatMap_append, ih, hread]
  | miss previous piece rest hmiss ih =>
      rw [passFrom_miss hmiss, List.flatMap_cons, List.flatMap_cons, ih]

/-- A pass keeps the text at the start. -/
theorem source_passFrom (hne : needle ≠ []) (previous : Option α) (pieces : List (Piece α)) :
    (passFrom boundary needle replacement 0 previous pieces).flatMap Piece.source =
      pieces.flatMap Piece.source :=
  flatMap_passFrom hne (flatMap_source_kept needle).symm previous pieces

theorem mem_passFrom {skipped : ℕ}
    (h : piece ∈ passFrom boundary needle replacement skipped previous pieces) :
    piece ∈ pieces ∨ piece = .written needle replacement := by
  induction pieces generalizing skipped previous with
  | nil => exact Or.inl (by cases skipped <;> exact h)
  | cons first rest ih =>
      have hbehind := fun {skipped} {previous}
          (h : piece ∈ passFrom boundary needle replacement skipped previous rest) =>
        (ih h).imp_left (List.mem_cons_of_mem first)
      cases skipped with
      | succ skipped => exact hbehind h
      | zero =>
          rw [passFrom] at h
          split at h
          · cases List.mem_cons.mp h with
            | inl heq => exact Or.inr heq
            | inr hmem => exact hbehind hmem
          · cases List.mem_cons.mp h with
            | inl heq => exact Or.inl (List.mem_cons.mpr (Or.inl heq))
            | inr hmem => exact hbehind hmem

end Pieces

/-! ## Words that meet a written text -/

/-- An occurrence may start behind this text. -/
def StartsBehind (front : List α) : Prop := front = [] ∨ boundary front.getLast? = true

/-- An occurrence of the word that starts before the text reaches into it. -/
def Reaches (needle text : List α) : Prop :=
  ∃ front back, needle = front ++ back ∧ front ≠ [] ∧ back ≠ [] ∧
    boundary front.getLast? = true ∧ (back <+: text ∨ text <+: back)

/-- An occurrence of the word starts inside of the text. -/
def StartsInside (needle text : List α) : Prop :=
  ∃ front back, text = front ++ back ∧ back ≠ [] ∧ StartsBehind boundary front ∧
    (needle <+: back ∨ back <+: needle)

def Reads (needle text : List α) : Prop :=
  Reaches boundary needle text ∨ StartsInside boundary needle text

/-- What is written stands behind a boundary. -/
def Placed : Option α → List (Piece α) → Prop
  | _, [] => True
  | _, .kept c :: rest => Placed (some c) rest
  | previous, .written source target :: rest =>
      boundary previous = true ∧ Placed ((Piece.written source target).after previous) rest

section Meeting
variable {boundary} {needle replacement front back : List α} {pieces : List (Piece α)}
  {previous previous' : Option α}

omit [DecidableEq α] in
theorem placed_kept_append (text : List α) (previous : Option α) (rest : List (Piece α)) :
    Placed boundary previous (text.map .kept ++ rest) ↔
      Placed boundary (text.getLast?.or previous) rest := by
  induction text generalizing previous with
  | nil => rfl
  | cons c text ih => rw [List.map_cons, List.cons_append, Placed, ih, getLast?_or_cons]

omit [DecidableEq α] in
theorem boundary_after (hsame : boundary previous' = boundary previous) (piece : Piece α) :
    boundary (piece.after previous') = boundary (piece.after previous) := by
  unfold Piece.after
  cases piece.target.getLast? with
  | none => exact hsame
  | some c => rfl

omit [DecidableEq α] in
theorem Placed.congr (hplaced : Placed boundary previous pieces)
    (hsame : boundary previous' = boundary previous) : Placed boundary previous' pieces := by
  induction pieces generalizing previous previous' with
  | nil => trivial
  | cons piece rest ih =>
      cases piece with
      | kept c => exact hplaced
      | written source target =>
          exact ⟨hsame.trans hplaced.1, ih hplaced.2 (boundary_after hsame _)⟩

omit [DecidableEq α] in
/-- A word that is found, but not among the characters of the text, meets a written
piece. -/
theorem exists_met (hback : back <+: pieces.flatMap Piece.target)
    (hnot : ¬ back.map .kept <+: pieces) (hplaced : Placed boundary front.getLast? pieces)
    (hfront : front ≠ []) :
    ∃ source target, .written source target ∈ pieces ∧ Reaches boundary (front ++ back) target := by
  induction pieces generalizing front back with
  | nil =>
      rw [List.prefix_nil.mp hback] at hnot
      exact absurd List.nil_prefix hnot
  | cons piece rest ih =>
      cases back with
      | nil => exact absurd List.nil_prefix hnot
      | cons d back =>
          cases piece with
          | kept c =>
              rw [List.flatMap_cons, Piece.target, List.singleton_append, List.cons_prefix_cons]
                at hback
              rw [List.map_cons, List.cons_prefix_cons, hback.1] at hnot
              have hlast : (front ++ [c]).getLast? = some c := List.getLast?_concat
              rw [Placed, ← hlast] at hplaced
              obtain ⟨source, target, hmem, hreaches⟩ := ih hback.2 (fun h => hnot ⟨rfl, h⟩) hplaced
                (List.append_ne_nil_of_right_ne_nil front (List.cons_ne_nil c []))
              rw [List.append_assoc, List.singleton_append, ← hback.1] at hreaches
              exact ⟨source, target, List.mem_cons_of_mem _ hmem, hreaches⟩
          | written source target =>
              rw [List.flatMap_cons] at hback
              refine ⟨source, target, List.mem_cons_self, front, d :: back, rfl, hfront,
                List.cons_ne_nil d back, hplaced.1, ?_⟩
              exact List.prefix_or_prefix_of_prefix hback (List.prefix_append _ _)

/-- A pass that meets no written text is a pass over the text. -/
theorem target_passFrom (hne : needle ≠ []) (hplaced : Placed boundary previous pieces)
    (hreads : ∀ source target, .written source target ∈ pieces →
      ¬ Reads boundary needle target) :
    (passFrom boundary needle replacement 0 previous pieces).flatMap Piece.target =
      replaceFrom boundary needle replacement 0 previous (pieces.flatMap Piece.target) := by
  induction previous, pieces using passFrom_induction boundary hne with
  | nil previous => rfl
  | hit previous rest hboundary ih =>
      rw [placed_kept_append, getLast?_or hne] at hplaced
      rw [passFrom_hit hne hboundary, List.flatMap_cons, List.flatMap_append,
        flatMap_target_kept, replaceFrom_hit hne hboundary,
        ih hplaced fun source target hmem => hreads source target (List.mem_append_right _ hmem)]
      rfl
  | miss previous piece rest hmiss ih =>
      have hrest := fun source target (hmem : Piece.written source target ∈ rest) =>
        hreads source target (List.mem_cons_of_mem _ hmem)
      rw [passFrom_miss hmiss, List.flatMap_cons, List.flatMap_cons]
      cases piece with
      | kept c =>
          -- an occurrence here would run into a written piece
          have hcopied : ¬ (boundary previous = true ∧
              needle <+: c :: rest.flatMap Piece.target) := by
            rintro ⟨hboundary, hlead⟩
            cases needle with
            | nil => exact hne rfl
            | cons d needle =>
                rw [List.cons_prefix_cons] at hlead
                rw [List.map_cons, List.cons_prefix_cons, hlead.1] at hmiss
                obtain ⟨source, target, hmem, hreaches⟩ := @exists_met _ boundary [c] needle
                  rest hlead.2 (fun h => hmiss ⟨hboundary, rfl, h⟩) hplaced
                  (List.cons_ne_nil c [])
                rw [List.singleton_append, ← hlead.1] at hreaches
                exact hrest source target hmem (Or.inl hreaches)
          rw [Piece.target, List.singleton_append, List.singleton_append,
            replaceFrom_miss hcopied, ih hplaced hrest]
          rfl
      | written source target =>
          have hcopy := @replaceFrom_copy _ _ boundary needle replacement target
            (rest.flatMap Piece.target) previous (by
              intro front back heq hback hboundary hlead
              refine hreads source target List.mem_cons_self
                (Or.inr ⟨front, back, heq, hback, ?_, ?_⟩)
              · cases front with
                | nil => exact Or.inl rfl
                | cons c front =>
                    rw [getLast?_or (List.cons_ne_nil c front)] at hboundary
                    exact Or.inr hboundary
              · exact List.prefix_or_prefix_of_prefix hlead (List.prefix_append _ _))
          rw [Piece.target, hcopy, ih hplaced.2 hrest]
          rfl

/-- Over a text alone, both passes are one. -/
theorem target_passFrom_kept (hne : needle ≠ []) (previous : Option α) (text : List α) :
    (passFrom boundary needle replacement 0 previous (text.map .kept)).flatMap Piece.target =
      replaceFrom boundary needle replacement 0 previous text := by
  have hplaced := (@placed_kept_append _ boundary text previous []).mpr trivial
  rw [List.append_nil] at hplaced
  rw [target_passFrom hne hplaced, flatMap_target_kept]
  intro source target hmem
  obtain ⟨c, _, heq⟩ := List.mem_map.mp hmem
  cases heq

theorem placed_passFrom (hne : needle ≠ []) (hlast : boundary needle.getLast? = true)
    (hreplacement : StartsBehind boundary replacement) (hplaced : Placed boundary previous pieces)
    (hsame : boundary previous' = boundary previous) :
    Placed boundary previous' (passFrom boundary needle replacement 0 previous pieces) := by
  induction previous, pieces using passFrom_induction boundary hne
    generalizing previous' with
  | nil previous => trivial
  | hit previous rest hboundary ih =>
      rw [placed_kept_append, getLast?_or hne] at hplaced
      rw [passFrom_hit hne hboundary]
      refine ⟨hsame.trans hboundary, ih hplaced ?_⟩
      rw [hlast, Piece.after, Piece.target]
      cases hcases : replacement.getLast? with
      | none => exact hsame.trans hboundary
      | some c =>
          cases hreplacement with
          | inl hempty =>
              rw [hempty] at hcases
              cases hcases
          | inr hbehind =>
              rw [hcases] at hbehind
              exact hbehind
  | miss previous piece rest hmiss ih =>
      rw [passFrom_miss hmiss]
      cases piece with
      | kept c => exact ih hplaced rfl
      | written source target =>
          exact ⟨hsame.trans hplaced.1, ih hplaced.2 (boundary_after hsame _)⟩

end Meeting

/-! ## Runs -/

section Runs
variable {boundary} {entries : List (List α × List α)} {pieces : List (Piece α)}

/-- No entry that changes anything reads what an earlier one writes. -/
def Separate (boundary : Option α → Bool) (entries : List (List α × List α)) : Prop :=
  entries.Pairwise fun earlier later =>
    later.1 ≠ later.2 → ¬ Reads boundary later.1 earlier.2

/-- A word ends in a boundary, and so does what is written for it. -/
def Delimited (boundary : Option α → Bool) (entry : List α × List α) : Prop :=
  entry.1 ≠ [] ∧ boundary entry.1.getLast? = true ∧ StartsBehind boundary entry.2

/-- Rewriting at once cuts the text into characters and words with their replacements. -/
theorem source_rewriteOnce (hwords : ∀ entry ∈ entries, Delimited boundary entry)
    (pieces : List (Piece α)) :
    (rewriteOnce boundary entries pieces).flatMap Piece.source = pieces.flatMap Piece.source := by
  induction entries generalizing pieces with
  | nil => rfl
  | cons entry entries ih =>
      rw [List.forall_mem_cons] at hwords
      exact (ih hwords.2 _).trans (source_passFrom hwords.1.1 none pieces)

theorem mem_rewriteOnce {source target : List α}
    (h : .written source target ∈ rewriteOnce boundary entries pieces) :
    .written source target ∈ pieces ∨ (source, target) ∈ entries := by
  induction entries generalizing pieces with
  | nil => exact Or.inl h
  | cons entry entries ih =>
      cases ih h with
      | inr hmem => exact Or.inr (List.mem_cons_of_mem entry hmem)
      | inl hmem =>
          refine (mem_passFrom hmem).imp_right fun heq => ?_
          cases heq
          exact List.mem_cons_self

theorem target_rewriteOnce_of_placed (hwords : ∀ entry ∈ entries, Delimited boundary entry)
    (hseparate : Separate boundary entries) (hplaced : Placed boundary none pieces)
    (hreads : ∀ source target, .written source target ∈ pieces → ∀ entry ∈ entries,
      entry.1 ≠ entry.2 → ¬ Reads boundary entry.1 target) :
    (rewriteOnce boundary entries pieces).flatMap Piece.target =
      rewriteInPasses boundary entries (pieces.flatMap Piece.target) := by
  induction entries generalizing pieces with
  | nil => rfl
  | cons entry entries ih =>
      rw [List.forall_mem_cons] at hwords
      obtain ⟨⟨hne, hlast, hreplacement⟩, hwords⟩ := hwords
      obtain ⟨hfirst, hseparate⟩ := List.pairwise_cons.mp hseparate
      have hpass : (passFrom boundary entry.1 entry.2 0 none pieces).flatMap Piece.target =
          replaceFrom boundary entry.1 entry.2 0 none (pieces.flatMap Piece.target) := by
        by_cases hsame : entry.1 = entry.2
        · rw [← hsame, replaceFrom_self hne]
          exact flatMap_passFrom hne (flatMap_target_kept entry.1).symm none pieces
        · exact target_passFrom hne hplaced fun source target hmem =>
            hreads source target hmem entry List.mem_cons_self hsame
      have hrest := @ih (passFrom boundary entry.1 entry.2 0 none pieces) hwords hseparate
        (placed_passFrom hne hlast hreplacement hplaced rfl) fun source target hmem =>
          match mem_passFrom hmem with
          | .inl hbefore => fun later hlater =>
              hreads source target hbefore later (List.mem_cons_of_mem entry hlater)
          | .inr heq => fun later hlater => by
              cases heq
              exact hfirst later hlater
      rw [hpass] at hrest
      exact hrest

/-- A word that no earlier word occurs in is replaced as a whole. -/
theorem rewriteOnce_word {before after : List (List α × List α)} {entry : List α × List α}
    (hwords : ∀ later ∈ entry :: after, later.1 ≠ [])
    (hbefore : ∀ earlier ∈ before, ∀ front back, entry.1 = front ++ back → back ≠ [] →
      ¬ earlier.1 <+: back) (hboundary : boundary none = true) :
    rewriteOnce boundary (before ++ entry :: after) (entry.1.map .kept) =
      [.written entry.1 entry.2] := by
  have hfront : rewriteOnce boundary before (entry.1.map .kept) = entry.1.map .kept := by
    induction before with
    | nil => rfl
    | cons earlier before ih =>
        rw [List.forall_mem_cons] at hbefore
        refine (congrArg (rewriteOnce boundary before) (passFrom_of_absent ?_ none)).trans
          (ih hbefore.2)
        intro front back heq hne hlead
        obtain ⟨text, rest, hsplit, hfront, hback⟩ := List.map_eq_append_iff.mp heq
        rw [← hback, List.prefix_map_iff_of_injective fun _ _ heq => Piece.kept.inj heq] at hlead
        refine hbefore.1 text rest hsplit (fun hnil => hne ?_) hlead
        rw [← hback, hnil, List.map_nil]
  have hback : rewriteOnce boundary after [.written entry.1 entry.2] =
      [.written entry.1 entry.2] := by
    rw [List.forall_mem_cons] at hwords
    obtain ⟨_, hafter⟩ := hwords
    induction after with
    | nil => rfl
    | cons later after ih =>
        rw [List.forall_mem_cons] at hafter
        refine (congrArg (rewriteOnce boundary after) (passFrom_miss fun hhit => ?_)).trans
          (ih hafter.2)
        cases hneedle : later.1 with
        | nil => exact hafter.1 hneedle
        | cons c needle =>
            have hlead := hhit.2
            rw [hneedle, List.map_cons, List.cons_prefix_cons] at hlead
            cases hlead.1
  have hne := hwords entry List.mem_cons_self
  have hpass := @passFrom_hit _ _ boundary entry.1 entry.2 [] none hne hboundary
  rw [List.append_nil] at hpass
  unfold rewriteOnce at hfront hback ⊢
  rw [List.foldl_append, hfront, List.foldl_cons, hpass]
  exact hback

/-- Passes that read nothing written are rewriting at once. -/
theorem target_rewriteOnce (hwords : ∀ entry ∈ entries, Delimited boundary entry)
    (hseparate : Separate boundary entries) (text : List α) :
    (rewriteOnce boundary entries (text.map .kept)).flatMap Piece.target =
      rewriteInPasses boundary entries text := by
  have hplaced : Placed boundary none (text.map .kept) := by
    have hnil := (@placed_kept_append _ boundary text none []).mpr trivial
    rwa [List.append_nil] at hnil
  have hreads : ∀ source target, .written source target ∈ text.map Piece.kept →
      ∀ entry ∈ entries, entry.1 ≠ entry.2 → ¬ Reads boundary entry.1 target := by
    intro source target hmem
    obtain ⟨c, _, heq⟩ := List.mem_map.mp hmem
    cases heq
  rw [target_rewriteOnce_of_placed hwords hseparate hplaced hreads, flatMap_target_kept]

end Runs

end DbtNova.RewritePasses
