import DbtNova.AliasSubstitution
import DbtNova.PlainFragment
import DbtNova.RewriteChains

/-!
# Aliases that rewrite canonical names

A plain query has aliases made of names, and a qualified name stands for its last part.
Its texts of qualifiers are paths of names, so that a pass over the text is a pass over the
path. If the aliases of a plain query are replaced as if all at once in every fragment, then
no replaced alias has a part that an earlier entry writes.
-/
namespace DbtNova.AliasChains
open PrintedSql (Literal)
open SqlLiterals SqlStructure RewritePasses RewriteChains AliasSubstitution PlainFragment

/-! ## Dotted paths -/

def isNameStart (c : Char) : Bool := c.isLower || c == '_'

def isNameChar (c : Char) : Bool := c.isLower || c.isDigit || c == '_'

/-- A name as most queries have it, in small letters. -/
def isName : List Char → Bool
  | [] => false
  | c :: rest => isNameStart c && rest.all isNameChar

/-- Every name with a dot behind it. -/
def dotted (path : List (List Char)) : List Char := path.flatMap (· ++ ['.'])

def dottedPieces (pieces : List (Piece (List Char))) : List (Piece Char) :=
  pieces.flatMap fun
    | .kept name => (name ++ ['.']).map .kept
    | .written source target => [.written (dotted source) (dotted target)]

section Names
variable {name : List Char} {path path' : List (List Char)} {c : Char}

theorem isNameChar_of_isName (h : isName name = true) : ∀ c ∈ name, isNameChar c = true := by
  cases name with
  | nil => exact fun c hc => absurd hc List.not_mem_nil
  | cons d rest =>
      unfold isName at h
      rw [Bool.and_eq_true, List.all_eq_true] at h
      intro c hc
      cases List.mem_cons.mp hc with
      | inl heq =>
          have hstart := h.1
          unfold isNameStart at hstart
          unfold isNameChar
          rw [heq]
          rw [Bool.or_eq_true] at hstart ⊢
          exact hstart.imp_left fun hlower => by rw [hlower, Bool.true_or]
      | inr hmem => exact h.2 c hmem

theorem isName_ne_nil (h : isName name = true) : name ≠ [] := by
  rintro rfl
  cases h

theorem plainChar_of_isNameChar (h : isNameChar c = true) : PlainChar c := by
  unfold isNameChar at h
  rw [Bool.or_eq_true, Bool.or_eq_true, beq_iff_eq] at h
  rcases h with (hlower | hdigit) | hunderscore
  · exact Or.inl hlower
  · exact Or.inr (Or.inl hdigit)
  · exact Or.inr (Or.inr (Or.inl hunderscore))

theorem dot_not_mem (h : isName name = true) : '.' ∉ name := fun hmem =>
  absurd (isNameChar_of_isName h '.' hmem) (by decide)

/-- No qualifier starts behind a character of a name. -/
theorem not_boundary_of_isNameChar (h : isNameChar c = true) :
    isQualifierBoundary (some c) = false := by
  unfold isNameChar at h
  unfold isQualifierBoundary
  rw [Option.all_some, Bool.not_eq_false', Bool.or_eq_true, Bool.or_eq_true]
  rw [Bool.or_eq_true, Bool.or_eq_true] at h
  refine Or.inl (h.imp (fun halnum => ?_) id)
  change ((c.isUpper || c.isLower) || c.isDigit) = true
  rw [Bool.or_eq_true, Bool.or_eq_true]
  exact halnum.imp Or.inr id

/-- No literal starts at a character of a name. -/
theorem literalLength_nameChar {previous : Option Char} {rest : List Char}
    (h : isNameChar c = true)
    (hstart : isNameStart c = true ∨ ∃ p, previous = some p ∧ isNameChar p = true) :
    literalLength previous (c :: rest) = none := by
  have hrange := (plainChar_of_isNameChar h).toNat
  have hquote : c ≠ '\'' := by
    rintro rfl
    exact absurd h (by decide)
  have hsign : isSign c = false := by
    unfold isSign
    rw [Bool.or_eq_false_iff, beq_eq_false_iff_ne, beq_eq_false_iff_ne]
    exact ⟨by rintro rfl; exact absurd h (by decide), by rintro rfl; exact absurd h (by decide)⟩
  rw [literalLength_cons, if_neg hquote, hsign]
  by_cases hdigit : c.isDigit = true
  · rw [if_pos (Or.inr hdigit)]
    cases hstart with
    | inl hstart =>
        unfold isNameStart at hstart
        unfold Char.isDigit at hdigit
        rw [Bool.and_eq_true, decide_eq_true_eq, decide_eq_true_eq] at hdigit
        have hhigh : c.toNat ≤ 57 := hdigit.2
        rw [Bool.or_eq_true, beq_iff_eq] at hstart
        cases hstart with
        | inl hlower =>
            have hletter := isLower_toNat hlower
            omega
        | inr hunderscore =>
            rw [hunderscore] at hhigh
            exact absurd hhigh (by decide)
    | inr hbehind =>
        obtain ⟨p, hp, hchar⟩ := hbehind
        have hboundary := not_boundary_of_isNameChar hchar
        unfold numericLiteralEnd
        rw [hp, if_pos]
        exact hboundary
  · rw [if_neg]
    rintro (hsigned | hdigit')
    · exact Bool.false_ne_true hsigned.1
    · exact hdigit hdigit'

theorem dotted_append (path path' : List (List Char)) :
    dotted (path ++ path') = dotted path ++ dotted path' := List.flatMap_append

theorem dotted_cons (name : List Char) (path : List (List Char)) :
    dotted (name :: path) = name ++ ['.'] ++ dotted path := List.flatMap_cons

theorem dotted_singleton (name : List Char) : dotted [name] = name ++ ['.'] :=
  List.flatMap_singleton _ name

theorem dotted_ne_nil (h : path ≠ []) : dotted path ≠ [] := by
  cases path with
  | nil => exact absurd rfl h
  | cons name path =>
      rw [dotted_cons, List.append_assoc]
      exact List.append_ne_nil_of_right_ne_nil _ (List.cons_ne_nil _ _)

theorem getLast?_dotted (h : path ≠ []) : (dotted path).getLast? = some '.' := by
  obtain ⟨front, name, heq⟩ := List.eq_nil_or_concat path |>.resolve_left h
  rw [heq, List.concat_eq_append, dotted_append, dotted_singleton, ← List.append_assoc]
  exact List.getLast?_concat

theorem splitOn_dotted (h : ∀ name ∈ path, isName name = true) :
    (dotted path).splitOn '.' = path ++ [[]] := by
  induction path with
  | nil => exact List.splitOn_nil '.'
  | cons name path ih =>
      rw [List.forall_mem_cons] at h
      rw [dotted_cons, List.append_assoc, List.singleton_append,
        List.splitOn_append_cons_self_of_not_mem (dot_not_mem h.1), ih h.2, List.cons_append]

theorem dotted_injective (h : ∀ name ∈ path, isName name = true)
    (h' : ∀ name ∈ path', isName name = true) (heq : dotted path = dotted path') :
    path = path' := by
  have hsplit := congrArg (List.splitOn '.') heq
  rwa [splitOn_dotted h, splitOn_dotted h', List.append_left_inj] at hsplit

theorem dottedPieces_append (pieces pieces' : List (Piece (List Char))) :
    dottedPieces (pieces ++ pieces') = dottedPieces pieces ++ dottedPieces pieces' :=
  List.flatMap_append

theorem dottedPieces_kept (path : List (List Char)) :
    dottedPieces (path.map .kept) = (dotted path).map .kept := by
  unfold dottedPieces dotted
  rw [List.flatMap_map, List.map_flatMap]

theorem target_dottedPieces (pieces : List (Piece (List Char))) :
    (dottedPieces pieces).flatMap Piece.target = dotted (pieces.flatMap Piece.target) := by
  induction pieces with
  | nil => rfl
  | cons piece pieces ih =>
      have hcons : dottedPieces (piece :: pieces) = dottedPieces [piece] ++ dottedPieces pieces :=
        dottedPieces_append [piece] pieces
      rw [hcons, List.flatMap_append, ih, List.flatMap_cons, dotted_append]
      congr 1
      cases piece with
      | kept name =>
          rw [show ([Piece.kept name] : List (Piece (List Char))) = [name].map .kept from rfl,
            dottedPieces_kept, flatMap_target_kept]
          rfl
      | written source target => exact List.append_nil _

theorem dottedPieces_cons (piece : Piece (List Char)) (pieces : List (Piece (List Char))) :
    dottedPieces (piece :: pieces) = dottedPieces [piece] ++ dottedPieces pieces :=
  dottedPieces_append [piece] pieces

end Names

/-! ## Passes over paths -/

section Passes
variable {path : List (List Char)} {pieces : List (Piece (List Char))} {column : List Char}

/-- A name and its dot are read in one way only. -/
theorem name_lead {name name' : List Char} {rest rest' : List (Piece Char)} (h : '.' ∉ name)
    (h' : '.' ∉ name')
    (hlead : (name ++ ['.']).map Piece.kept ++ rest <+: (name' ++ ['.']).map .kept ++ rest') :
    name = name' ∧ rest <+: rest' := by
  induction name generalizing name' with
  | nil =>
      cases name' with
      | nil =>
          rw [List.nil_append, List.map_singleton, List.singleton_append, List.singleton_append,
            List.cons_prefix_cons] at hlead
          exact ⟨rfl, hlead.2⟩
      | cons c name' =>
          rw [List.nil_append, List.map_singleton, List.singleton_append, List.cons_append,
            List.map_cons, List.cons_append, List.cons_prefix_cons] at hlead
          exact absurd (List.mem_cons.mpr (Or.inl (Piece.kept.inj hlead.1))) h'
  | cons c name ih =>
      rw [List.cons_append, List.map_cons, List.cons_append] at hlead
      rw [List.mem_cons, not_or] at h
      cases name' with
      | nil =>
          rw [List.nil_append, List.map_singleton, List.singleton_append,
            List.cons_prefix_cons] at hlead
          exact absurd (Piece.kept.inj hlead.1).symm h.1
      | cons d name' =>
          rw [List.cons_append, List.map_cons, List.cons_append, List.cons_prefix_cons] at hlead
          rw [List.mem_cons, not_or] at h'
          obtain ⟨hname, hrest⟩ := ih h.2 h'.2 hlead.2
          exact ⟨by rw [Piece.kept.inj hlead.1, hname], hrest⟩

/-- A path that leads the text leads the names. -/
theorem dotted_lead (hpath : ∀ name ∈ path, isName name = true)
    (hpieces : ∀ name, .kept name ∈ pieces → isName name = true) (hcolumn : '.' ∉ column)
    (hlead : (dotted path).map Piece.kept <+: dottedPieces pieces ++ column.map .kept) :
    path.map .kept <+: pieces := by
  induction path generalizing pieces with
  | nil => exact List.nil_prefix
  | cons name path ih =>
      rw [List.forall_mem_cons] at hpath
      rw [dotted_cons, List.map_append] at hlead
      cases pieces with
      | nil =>
          have hdot : Piece.kept '.' ∈ column.map Piece.kept :=
            hlead.subset (List.mem_append_left _ (List.mem_map_of_mem
              (List.mem_append_right name (List.mem_singleton.mpr rfl))))
          obtain ⟨c, hc, heq⟩ := List.mem_map.mp hdot
          exact absurd (Piece.kept.inj heq ▸ hc) hcolumn
      | cons piece pieces =>
          rw [dottedPieces_cons, List.append_assoc] at hlead
          cases piece with
          | kept name' =>
              rw [show ([Piece.kept name'] : List (Piece (List Char))) = [name'].map .kept from rfl,
                dottedPieces_kept, dotted_singleton] at hlead
              obtain ⟨hname, hrest⟩ := name_lead (dot_not_mem hpath.1)
                (dot_not_mem (hpieces name' List.mem_cons_self)) hlead
              rw [List.map_cons, hname, List.cons_prefix_cons]
              exact ⟨rfl, ih hpath.2
                (fun other hother => hpieces other (List.mem_cons_of_mem _ hother)) hrest⟩
          | written source target =>
              obtain ⟨c, rest, hc⟩ := List.exists_cons_of_ne_nil (isName_ne_nil hpath.1)
              rw [hc, List.cons_append, List.map_cons, List.cons_append] at hlead
              cases (List.cons_prefix_cons.mp hlead).1

/-- A pass over a text of qualifiers is a pass over its names. -/
theorem passFrom_dotted {replacement : List (List Char)} (hne : path ≠ [])
    (hpath : ∀ name ∈ path, isName name = true)
    (hpieces : ∀ name, .kept name ∈ pieces → isName name = true) (hcolumn : '.' ∉ column)
    {previous : Option Char} (hprevious : isQualifierBoundary previous = true)
    (previous' : Option (List Char)) :
    passFrom isQualifierBoundary (dotted path) (dotted replacement) 0 previous
        (dottedPieces pieces ++ column.map .kept) =
      dottedPieces (passFrom everywhere path replacement 0 previous' pieces) ++
        column.map .kept := by
  induction previous', pieces using passFrom_induction everywhere hne
    generalizing previous with
  | nil previous' =>
      refine passFrom_of_absent (fun front back heq _ hlead => hcolumn ?_) previous
      have hdot : Piece.kept '.' ∈ column.map Piece.kept := by
        rw [show column.map Piece.kept = front ++ back from heq]
        refine List.mem_append_right front (hlead.subset (List.mem_map_of_mem ?_))
        exact List.mem_of_getLast? (getLast?_dotted hne)
      obtain ⟨c, hc, heq⟩ := List.mem_map.mp hdot
      exact Piece.kept.inj heq ▸ hc
  | hit previous' rest hboundary ih =>
      rw [dottedPieces_append, dottedPieces_kept, List.append_assoc,
        passFrom_hit (dotted_ne_nil hne) hprevious, passFrom_hit hne hboundary, dottedPieces_cons,
        ih (fun name hname => hpieces name (List.mem_append_right _ hname))
          (by rw [getLast?_dotted hne]; rfl)]
      rfl
  | miss previous' piece rest hmiss ih =>
      have hrest := fun name (hname : Piece.kept name ∈ rest) =>
        hpieces name (List.mem_cons_of_mem piece hname)
      have hstart : ¬ (dotted path).map Piece.kept <+:
          dottedPieces (piece :: rest) ++ column.map .kept := fun hlead =>
        hmiss ⟨rfl, dotted_lead hpath hpieces hcolumn hlead⟩
      rw [passFrom_miss hmiss]
      cases piece with
      | kept name =>
          have hname := hpieces name List.mem_cons_self
          have hkept : ∀ pieces, dottedPieces (.kept name :: pieces) =
              (name ++ ['.']).map .kept ++ dottedPieces pieces := fun _ => rfl
          rw [hkept, List.append_assoc] at hstart
          rw [hkept, hkept, List.append_assoc, List.append_assoc, passFrom_copy, foldl_after_kept,
            getLast?_or (List.append_ne_nil_of_right_ne_nil name (List.cons_ne_nil '.' [])),
            List.getLast?_concat, ih hrest rfl]
          -- behind a character of the name no qualifier starts
          intro front back heq hback hboundary hlead
          obtain ⟨text, word, hsplit, htext, hword⟩ := List.map_eq_append_iff.mp heq
          cases htextEq : text with
          | nil =>
              rw [htextEq, List.map_nil] at htext
              rw [← htext, List.nil_append] at heq
              rw [← heq] at hlead
              exact hstart hlead
          | cons c text' =>
              have hwordNe : word ≠ [] := by
                rintro rfl
                exact hback hword.symm
              have htextNe : text ≠ [] := by
                rw [htextEq]
                exact List.cons_ne_nil c text'
              rw [← htext, foldl_after_kept, getLast?_or htextNe] at hboundary
              obtain ⟨d, hd⟩ := List.getLast?_isSome.mpr htextNe |> Option.isSome_iff_exists.mp
              have hmem : d ∈ name := by
                obtain ⟨word', c', hc'⟩ := (List.eq_nil_or_concat word).resolve_left hwordNe
                rw [hc', List.concat_eq_append, ← List.append_assoc] at hsplit
                rw [(List.append_inj' hsplit rfl).1]
                exact List.mem_append_left word' (List.mem_of_getLast? hd)
              rw [hd, not_boundary_of_isNameChar (isNameChar_of_isName hname d hmem)] at hboundary
              cases hboundary
      | written source target =>
          have hwritten : ∀ pieces, dottedPieces (.written source target :: pieces) =
              .written (dotted source) (dotted target) :: dottedPieces pieces := fun _ => rfl
          rw [hwritten, List.cons_append] at hstart
          rw [hwritten, hwritten, List.cons_append, List.cons_append,
            passFrom_miss fun hhit => hstart hhit.2, ih hrest ?_]
          unfold Piece.after Piece.target
          by_cases hnil : target = []
          · rw [hnil]
            exact hprevious
          · rw [getLast?_dotted hnil]
            rfl

end Passes

/-! ## Runs over paths -/

section Runs
variable {entries : List (Entry (List Char))} {column : List Char}

/-- Paths of names, and names that are written for them. -/
def Named (entries : List (Entry (List Char))) : Prop :=
  ∀ entry ∈ entries, entry.1 ≠ [] ∧ (∀ name ∈ entry.1, isName name = true) ∧
    isName entry.2 = true

def dottedEntries (entries : List (Entry (List Char))) : List (List Char × List Char) :=
  entries.map fun entry => (dotted entry.1, dotted [entry.2])

theorem rewriteOnce_dotted (hnamed : Named entries) (hcolumn : '.' ∉ column)
    {pieces : List (Piece (List Char))} (hpieces : ∀ name, .kept name ∈ pieces → isName name = true) :
    rewriteOnce isQualifierBoundary (dottedEntries entries)
        (dottedPieces pieces ++ column.map .kept) =
      dottedPieces (rewriteOnce everywhere (rewritesOf entries) pieces) ++ column.map .kept := by
  induction entries generalizing pieces with
  | nil => rfl
  | cons entry entries ih =>
      obtain ⟨⟨hne, hpath, _⟩, hnamed⟩ := List.forall_mem_cons.mp hnamed
      refine (congrArg (rewriteOnce isQualifierBoundary (dottedEntries entries))
        (passFrom_dotted hne hpath hpieces hcolumn rfl none)).trans (ih hnamed fun name hname => ?_)
      cases mem_passFrom hname with
      | inl hmem => exact hpieces name hmem
      | inr heq => cases heq

theorem replaceFrom_dotted {path text replacement : List (List Char)} (hne : path ≠ [])
    (hpath : ∀ name ∈ path, isName name = true) (htext : ∀ name ∈ text, isName name = true)
    (hcolumn : '.' ∉ column) :
    replaceFrom isQualifierBoundary (dotted path) (dotted replacement) 0 none
        (dotted text ++ column) =
      dotted (replaceFrom everywhere path replacement 0 none text) ++ column := by
  have hpieces : ∀ name, .kept name ∈ text.map Piece.kept → isName name = true := by
    intro name hname
    obtain ⟨name', hmem, heq⟩ := List.mem_map.mp hname
    exact Piece.kept.inj heq ▸ htext name' hmem
  have hpass := @passFrom_dotted path (text.map .kept) column replacement hne hpath hpieces hcolumn
    none rfl none
  rw [dottedPieces_kept, ← List.map_append] at hpass
  rw [← target_passFrom_kept (dotted_ne_nil hne), hpass, List.flatMap_append, flatMap_target_kept,
    target_dottedPieces, target_passFrom_kept hne]

theorem isName_replaceFrom {path text : List (List Char)} {name : List Char} (hne : path ≠ [])
    (htext : ∀ name ∈ text, isName name = true) (hname : isName name = true) :
    ∀ other ∈ replaceFrom everywhere path [name] 0 none text, isName other = true := by
  intro other hother
  rw [← target_passFrom_kept hne] at hother
  obtain ⟨piece, hpiece, htarget⟩ := List.mem_flatMap.mp hother
  cases mem_passFrom hpiece with
  | inl hmem =>
      obtain ⟨name', hname', heq⟩ := List.mem_map.mp hmem
      rw [← heq] at htarget
      rw [List.mem_singleton.mp htarget]
      exact htext name' hname'
  | inr heq =>
      rw [heq] at htarget
      rw [List.mem_singleton.mp htarget]
      exact hname

theorem rewriteInPasses_dotted (hnamed : Named entries) (hcolumn : '.' ∉ column)
    {text : List (List Char)} (htext : ∀ name ∈ text, isName name = true) :
    rewriteInPasses isQualifierBoundary (dottedEntries entries) (dotted text ++ column) =
        dotted (rewriteInPasses everywhere (rewritesOf entries) text) ++ column ∧
      ∀ name ∈ rewriteInPasses everywhere (rewritesOf entries) text, isName name = true := by
  induction entries generalizing text with
  | nil => exact ⟨rfl, htext⟩
  | cons entry entries ih =>
      obtain ⟨⟨hne, hpath, hname⟩, hnamed⟩ := List.forall_mem_cons.mp hnamed
      obtain ⟨hrun, hnames⟩ := ih hnamed (isName_replaceFrom hne htext hname)
      rw [rewriteInPasses_cons]
      refine ⟨(congrArg (rewriteInPasses isQualifierBoundary (dottedEntries entries))
        (replaceFrom_dotted hne hpath htext hcolumn)).trans hrun, hnames⟩

/-- What stands in pieces behind a run are names. -/
theorem isName_rewriteOnce (hnamed : Named entries) {text : List (List Char)}
    (htext : ∀ name ∈ text, isName name = true) :
    ∀ name ∈ (rewriteOnce everywhere (rewritesOf entries)
      (text.map .kept)).flatMap Piece.target, isName name = true := by
  have hkept : ∀ (entries : List (List (List Char) × List (List Char)))
      (pieces : List (Piece (List Char))) (name : List Char),
      .kept name ∈ rewriteOnce everywhere entries pieces → .kept name ∈ pieces := by
    intro entries
    induction entries with
    | nil => exact fun pieces name h => h
    | cons entry entries ih =>
        intro pieces name h
        cases mem_passFrom (ih _ name h) with
        | inl hmem => exact hmem
        | inr heq => cases heq
  intro name hname
  obtain ⟨piece, hpiece, htarget⟩ := List.mem_flatMap.mp hname
  cases piece with
  | kept name' =>
      obtain ⟨name'', hmem, heq⟩ := List.mem_map.mp (hkept _ _ _ hpiece)
      rw [List.mem_singleton.mp htarget, ← Piece.kept.inj heq]
      exact htext name'' hmem
  | written source target =>
      cases mem_rewriteOnce hpiece with
      | inl hmem =>
          obtain ⟨c, _, heq⟩ := List.mem_map.mp hmem
          cases heq
      | inr hmem =>
          obtain ⟨entry, hentry, heq⟩ := List.mem_map.mp hmem
          rw [Piece.target, ← (Prod.mk.inj heq).2] at htarget
          rw [List.mem_singleton.mp htarget]
          exact (hnamed entry hentry).2.2

end Runs

/-! ## Reading written names -/

section Reading
variable {path : List (List Char)} {name : List Char}

/-- A dotted path is cut behind a boundary only between its names. -/
theorem dotted_split (hpath : ∀ name ∈ path, isName name = true) {front back : List Char}
    (heq : dotted path = front ++ back) (hfront : StartsBehind isQualifierBoundary front) :
    ∃ before after, path = before ++ after ∧ front = dotted before ∧ back = dotted after := by
  induction path generalizing front with
  | nil =>
      obtain ⟨hfront, hback⟩ := List.append_eq_nil_iff.mp heq.symm
      exact ⟨[], [], rfl, hfront, hback⟩
  | cons name path ih =>
      rw [List.forall_mem_cons] at hpath
      cases hfront with
      | inl hnil =>
          rw [hnil, List.nil_append] at heq
          exact ⟨[], name :: path, rfl, hnil, heq.symm⟩
      | inr hboundary =>
          rw [dotted_cons] at heq
          rcases List.append_eq_append_iff.mp heq with ⟨rest, hrest, hback⟩ | ⟨rest, hrest, hback⟩
          · -- the cut lies behind the first name
            have hbehind : StartsBehind isQualifierBoundary rest := by
              by_cases hnil : rest = []
              · exact Or.inl hnil
              · rw [hrest, List.getLast?_append_of_ne_nil _ hnil] at hboundary
                exact Or.inr hboundary
            obtain ⟨before, after, hsplit, hfront, hafter⟩ := ih hpath.2 hback hbehind
            refine ⟨name :: before, after, by rw [hsplit, List.cons_append], ?_, hafter⟩
            rw [hrest, hfront, dotted_cons]
          · -- the cut lies in the first name or right behind its dot
            by_cases hnil : rest = []
            · rw [hnil, List.append_nil] at hrest
              rw [hnil, List.nil_append] at hback
              refine ⟨[name], path, rfl, ?_, hback⟩
              rw [dotted_singleton, hrest]
            · obtain ⟨rest', c, hc⟩ := (List.eq_nil_or_concat rest).resolve_left hnil
              rw [hc, List.concat_eq_append, ← List.append_assoc] at hrest
              have hname : name = front ++ rest' := (List.append_inj' hrest rfl).1
              cases hlast : front.getLast? with
              | none =>
                  rw [List.getLast?_eq_none_iff] at hlast
                  refine ⟨[], name :: path, rfl, hlast, ?_⟩
                  rw [dotted_cons, heq, hlast, List.nil_append]
              | some d =>
                  have hmem : d ∈ name := by
                    rw [hname]
                    exact List.mem_append_left rest' (List.mem_of_getLast? hlast)
                  rw [hlast, not_boundary_of_isNameChar (isNameChar_of_isName hpath.1 d hmem)]
                    at hboundary
                  cases hboundary

theorem prefix_of_dotted {path' : List (List Char)} (hpath : ∀ name ∈ path, isName name = true)
    (hpath' : ∀ name ∈ path', isName name = true) (h : dotted path <+: dotted path') :
    path <+: path' := by
  have hpieces : ∀ name, .kept name ∈ path'.map Piece.kept → isName name = true := by
    intro name hname
    obtain ⟨name', hmem, heq⟩ := List.mem_map.mp hname
    exact Piece.kept.inj heq ▸ hpath' name' hmem
  have hlead := @dotted_lead path (path'.map .kept) [] hpath hpieces List.not_mem_nil (by
    rw [dottedPieces_kept, List.map_nil, List.append_nil]
    exact h.map Piece.kept)
  rwa [List.prefix_map_iff_of_injective fun _ _ heq => Piece.kept.inj heq] at hlead

theorem mem_of_meets {part : List (List Char)} (hpart : ∀ name ∈ part, isName name = true)
    (hname : isName name = true) (hne : part ≠ [])
    (hmeets : dotted part <+: dotted [name] ∨ dotted [name] <+: dotted part) : name ∈ part := by
  have hsingle : ∀ other ∈ [name], isName other = true := by
    intro other hother
    rw [List.mem_singleton.mp hother]
    exact hname
  cases hmeets with
  | inl hlead =>
      cases List.prefix_cons_iff.mp (prefix_of_dotted hpart hsingle hlead) with
      | inl hnil => exact absurd hnil hne
      | inr hcons =>
          obtain ⟨rest, heq, _⟩ := hcons
          rw [heq]
          exact List.mem_cons_self
  | inr hlead =>
      exact (prefix_of_dotted hsingle hpart hlead).subset (List.mem_singleton.mpr rfl)

/-- A path that reads a written name has it as a part. -/
theorem mem_of_reads (hpath : ∀ name ∈ path, isName name = true) (hne : path ≠ [])
    (hname : isName name = true)
    (hreads : Reads isQualifierBoundary (dotted path) (dotted [name])) : name ∈ path := by
  have hsingle : ∀ other ∈ [name], isName other = true := by
    intro other hother
    rw [List.mem_singleton.mp hother]
    exact hname
  cases hreads with
  | inl hreaches =>
      obtain ⟨front, back, heq, _, hback, hboundary, hmeets⟩ := hreaches
      obtain ⟨before, after, hsplit, _, hafter⟩ := dotted_split hpath heq (Or.inr hboundary)
      rw [hafter] at hback hmeets
      have hafterNe : after ≠ [] := by
        rintro rfl
        exact hback rfl
      rw [hsplit]
      refine List.mem_append_right before (mem_of_meets (fun other hother => ?_) hname hafterNe
        hmeets)
      exact hpath other (hsplit ▸ List.mem_append_right before hother)
  | inr hinside =>
      obtain ⟨front, back, heq, hback, hbehind, hmeets⟩ := hinside
      obtain ⟨before, after, hsplit, _, hafter⟩ := dotted_split hsingle heq hbehind
      rw [hafter] at hback hmeets
      have hwhole : after = [name] := by
        cases before with
        | nil => exact hsplit.symm
        | cons other before =>
            rw [List.cons_append, List.cons.injEq] at hsplit
            rw [(List.append_eq_nil_iff.mp hsplit.2.symm).2] at hback
            exact absurd rfl hback
      rw [hwhole] at hmeets
      exact mem_of_meets hpath hname hne hmeets

end Reading

/-! ## Plain alias maps -/

def pathOf (entry : String × String) : List (List Char) := entry.1.toList.splitOn '.'

/-- The alias is made of names, and a qualified name stands for its last part. -/
def PlainEntry (entry : String × String) : Prop :=
  (∀ name ∈ pathOf entry, isName name = true) ∧ isName entry.2.toList = true ∧
    ((pathOf entry).length = 1 ∨ (pathOf entry).getLast? = some entry.2.toList)

def Plain (aliases : Aliases) : Prop := ∀ entry ∈ aliases, PlainEntry entry

def entriesOf (aliases : Aliases) : List (Entry (List Char)) :=
  (inOrder aliases).map fun entry => (pathOf entry, entry.2.toList)

/-- A name weighs its bytes and its dot. -/
def nameWeight (name : List Char) : ℕ := (String.ofList name).utf8ByteSize + 1

section Plain
variable {aliases : Aliases} {entry : String × String}

theorem pathOf_ne_nil (entry : String × String) : pathOf entry ≠ [] := List.splitOn_ne_nil '.' _

theorem dotted_pathOf (entry : String × String) : dotted (pathOf entry) = qualifierText entry := by
  have hdots : ∀ path : List (List Char), path ≠ [] →
      dotted path = ['.'].intercalate path ++ ['.'] := by
    intro path
    induction path with
    | nil => exact fun h => absurd rfl h
    | cons name path ih =>
        intro _
        cases path with
        | nil => rw [dotted_singleton, List.intercalate_singleton]
        | cons next path =>
            rw [dotted_cons, ih (List.cons_ne_nil next path), List.intercalate_cons_cons,
              List.append_assoc, List.append_assoc, List.append_assoc]
  rw [hdots _ (pathOf_ne_nil entry), qualifierText_eq]
  unfold pathOf
  rw [List.intercalate_splitOn]

theorem pathSize_dotted (path : List (List Char)) :
    pathSize nameWeight path = (String.ofList (dotted path)).utf8ByteSize := by
  induction path with
  | nil => rfl
  | cons name path ih =>
      have hsize : pathSize nameWeight (name :: path) =
          nameWeight name + pathSize nameWeight path := List.sum_cons
      rw [hsize, ih, dotted_cons, String.ofList_append, String.ofList_append,
        String.utf8ByteSize_append, String.utf8ByteSize_append]
      rfl

theorem pathSize_pathOf (entry : String × String) :
    pathSize nameWeight (pathOf entry) = entry.1.utf8ByteSize + 1 := by
  rw [pathSize_dotted, dotted_pathOf]
  unfold qualifierText
  rw [String.ofList_toList, String.utf8ByteSize_append]
  rfl

theorem canonicalText_plain (h : PlainEntry entry) :
    canonicalText entry = dotted [entry.2.toList] := by
  rw [dotted_singleton]
  by_cases hsame : entry.1 = entry.2
  · unfold canonicalText
    rw [if_pos hsame, qualifierText_eq, hsame]
  · refine canonicalText_of_ne hsame fun hempty => isName_ne_nil h.2.1 ?_
    rw [hempty]
    rfl

theorem pathOf_eq_singleton_iff (h : PlainEntry entry) :
    pathOf entry = [entry.2.toList] ↔ entry.1 = entry.2 := by
  have hcanonical : ∀ name ∈ [entry.2.toList], isName name = true := by
    intro name hname
    rw [List.mem_singleton.mp hname]
    exact h.2.1
  constructor
  · intro heq
    have hdotted := dotted_pathOf entry
    rw [heq, dotted_singleton, qualifierText_eq, List.append_left_inj, String.toList_inj] at hdotted
    exact hdotted.symm
  · intro hsame
    refine dotted_injective h.1 hcanonical ?_
    rw [dotted_pathOf, qualifierText_eq, dotted_singleton, hsame]

theorem named_entriesOf (h : Plain aliases) : Named (entriesOf aliases) := by
  intro path hpath
  obtain ⟨entry, hentry, heq⟩ := List.mem_map.mp hpath
  have hplain := h entry ((List.mem_insertionSort comesBefore).mp hentry)
  rw [← heq]
  exact ⟨pathOf_ne_nil entry, hplain.1, hplain.2.1⟩

theorem rewrites_eq (h : Plain aliases) : rewrites aliases = dottedEntries (entriesOf aliases) := by
  unfold rewrites dottedEntries entriesOf
  rw [List.map_map]
  refine List.map_congr_left fun entry hentry => ?_
  rw [Function.comp_apply, dotted_pathOf,
    canonicalText_plain (h entry ((List.mem_insertionSort comesBefore).mp hentry))]

theorem lawful_entriesOf (hnodup : (aliases.map Prod.fst).Nodup) (hborder : Unbordered aliases)
    (h : Plain aliases) : Lawful nameWeight (entriesOf aliases) := by
  have hmem : ∀ {entry}, entry ∈ inOrder aliases → entry ∈ aliases :=
    fun hentry => (List.mem_insertionSort comesBefore).mp hentry
  refine ⟨fun path hpath => (named_entriesOf h path hpath).1, fun path hpath => ?_,
    fun path hpath => ?_, ?_, ?_⟩
  · obtain ⟨entry, hentry, heq⟩ := List.mem_map.mp hpath
    rw [← heq]
    exact (h entry (hmem hentry)).2.2
  · obtain ⟨entry, hentry, heq⟩ := List.mem_map.mp hpath
    rw [← heq]
    rintro ⟨front, back, hsplit, hfront, hback, _, hmeets⟩
    have hplain := h entry (hmem hentry)
    by_cases hsame : entry.1 = entry.2
    · have hlength := congrArg List.length hsplit
      have hfrontPos := List.length_pos_of_ne_nil hfront
      have hbackPos := List.length_pos_of_ne_nil hback
      rw [(pathOf_eq_singleton_iff hplain).mpr hsame, List.length_append,
        List.length_singleton] at hlength
      omega
    · refine hborder entry (hmem hentry) hsame ⟨dotted front, dotted back, ?_,
        dotted_ne_nil hfront, dotted_ne_nil hback, ?_, ?_⟩
      · rw [← dotted_pathOf, ← dotted_append, ← hsplit]
      · rw [getLast?_dotted hfront]
        rfl
      · have hdotted : ∀ {path path' : List (List Char)}, path <+: path' →
            dotted path <+: dotted path' := by
          rintro path path' ⟨rest, hrest⟩
          rw [← hrest, dotted_append]
          exact List.prefix_append _ _
        rw [← dotted_pathOf]
        exact hmeets.imp hdotted hdotted
  · refine List.pairwise_map.mpr ((pairwise_inOrder aliases).imp fun {a b} hsize => ?_)
    rw [pathSize_pathOf, pathSize_pathOf]
    exact Nat.add_le_add_right hsize 1
  · have hdistinct : ((inOrder aliases).map Prod.fst).Nodup :=
      ((List.perm_insertionSort comesBefore aliases).map Prod.fst).nodup_iff.mpr hnodup
    refine List.pairwise_map.mpr ((List.pairwise_map.mp hdistinct).imp fun {a b} hne heq => hne ?_)
    rw [← qualifierText_inj, ← dotted_pathOf, ← dotted_pathOf]
    exact congrArg dotted heq

/-- In a plain map, to read a written name is to have it as a part. -/
theorem unread_of_unchained (h : Plain aliases) (hunchained : Unchained (entriesOf aliases)) :
    Unread aliases := by
  unfold Unread
  rw [rewrites_eq h]
  refine List.pairwise_map.mpr (hunchained.imp_of_mem fun {earlier later} hearlier hlater hnew
    hchanges hreads => ?_)
  obtain ⟨hne, hpath, _⟩ := named_entriesOf h later hlater
  refine hnew (fun heq => hchanges ?_)
    (mem_of_reads hpath hne (named_entriesOf h earlier hearlier).2.2 hreads)
  rw [heq]

end Plain

/-! ## Plain fragments -/

section Fragments
variable {name column : List Char} {text : List (List Char)}

theorem maskFrom_nameChars {previous : Char} (hprevious : isNameChar previous = true)
    (hname : ∀ c ∈ name, isNameChar c = true) (rest : List Char) :
    ∃ last, maskFrom (some previous) (name ++ rest) = name ++ maskFrom (some last) rest := by
  induction name generalizing previous with
  | nil => exact ⟨previous, rfl⟩
  | cons c name ih =>
      rw [List.forall_mem_cons] at hname
      obtain ⟨last, hmask⟩ := ih hname.1 hname.2
      refine ⟨last, ?_⟩
      rw [List.cons_append, maskFrom_copied, hmask, List.cons_append]
      exact literalLength_nameChar hname.1 (Or.inr ⟨previous, rfl, hprevious⟩)

theorem maskFrom_name (hname : isName name = true) (previous : Option Char) (rest : List Char) :
    ∃ last, maskFrom previous (name ++ rest) = name ++ maskFrom (some last) rest := by
  have hchars := isNameChar_of_isName hname
  cases name with
  | nil => cases hname
  | cons c name =>
      rw [List.forall_mem_cons] at hchars
      obtain ⟨last, hmask⟩ := maskFrom_nameChars hchars.1 hchars.2 rest
      unfold isName at hname
      rw [Bool.and_eq_true] at hname
      refine ⟨last, ?_⟩
      rw [List.cons_append, maskFrom_copied, hmask, List.cons_append]
      exact literalLength_nameChar hchars.1 (Or.inl hname.1)

theorem maskFrom_dotted (htext : ∀ name ∈ text, isName name = true)
    (hcolumn : column = [] ∨ isName column = true) (previous : Option Char) :
    maskFrom previous (dotted text ++ column) = dotted text ++ column := by
  induction text generalizing previous with
  | nil =>
      cases hcolumn with
      | inl hnil =>
          rw [hnil]
          rfl
      | inr hname =>
          obtain ⟨last, hmask⟩ := maskFrom_name hname previous []
          rw [List.append_nil] at hmask
          rw [show dotted [] ++ column = column from rfl, hmask]
          exact List.append_nil column
  | cons name text ih =>
      rw [List.forall_mem_cons] at htext
      obtain ⟨last, hmask⟩ := maskFrom_name htext.1 previous (['.'] ++ (dotted text ++ column))
      rw [dotted_cons, List.append_assoc, List.append_assoc, hmask, List.singleton_append,
        maskFrom_copied rfl, ih htext.2]

/-- A dotted name, with a column behind it or not, is its own normal form. -/
theorem fragmentText_dotted (htext : ∀ name ∈ text, isName name = true)
    (hcolumn : column = [] ∨ isName column = true) (hne : dotted text ++ column ≠ []) :
    fragmentText (dotted text ++ column) = String.ofList (dotted text ++ column) := by
  refine fragmentText_of_plain (maskFrom_dotted htext hcolumn none) (fun c hc => ?_) hne
  cases List.mem_append.mp hc with
  | inl hdotted =>
      obtain ⟨name, hname, hmem⟩ := List.mem_flatMap.mp hdotted
      cases List.mem_append.mp hmem with
      | inl hin => exact plainChar_of_isNameChar (isNameChar_of_isName (htext name hname) c hin)
      | inr hdot => exact Or.inr (Or.inr (Or.inr (List.mem_singleton.mp hdot)))
  | inr hin =>
      cases hcolumn with
      | inl hnil =>
          rw [hnil] at hin
          cases hin
      | inr hname => exact plainChar_of_isNameChar (isNameChar_of_isName hname c hin)

end Fragments

/-! ## Aliases replaced at once -/

/-- In every normalised fragment the aliases are replaced as if all at once. -/
def Simultaneous (aliases : Aliases) : Prop :=
  ∀ value : List Char,
    applyAliases (fragmentText value) aliases = substituteAll (fragmentText value) aliases

section Converse
variable {aliases : Aliases} {tables : List (TableWithJoins Literal)}

theorem unread_of_simultaneous (hplain : Plain aliases) (hborder : Unbordered aliases)
    (hnodup : (aliases.map Prod.fst).Nodup) (h : Simultaneous aliases) : Unread aliases := by
  refine unread_of_unchained hplain ?_
  by_contra hchained
  obtain ⟨text, hwords, hne⟩ := exists_rewritten_again (fun _ => Nat.succ_pos _)
    (lawful_entriesOf hnodup hborder hplain) hchained
  have hnamed := named_entriesOf hplain
  have htext : ∀ name ∈ text, isName name = true := by
    intro name hname
    obtain ⟨entry, hentry, hmem⟩ := hwords name hname
    exact (hnamed entry hentry).2.1 name hmem
  have hcolumn : '.' ∉ ['x'] := by decide
  have hvalue := h (dotted text ++ ['x'])
  rw [fragmentText_dotted htext (Or.inr rfl)
    (List.append_ne_nil_of_right_ne_nil _ (List.cons_ne_nil 'x' [])), ← String.toList_inj,
    applyAliases_toList hborder, substituteAll, String.toList_ofList, String.toList_ofList,
    rewrites_eq hplain, (rewriteInPasses_dotted hnamed hcolumn htext).1, List.map_append,
    ← dottedPieces_kept, rewriteOnce_dotted hnamed hcolumn, List.flatMap_append,
    flatMap_target_kept, target_dottedPieces, List.append_left_inj] at hvalue
  · exact hne (dotted_injective (rewriteInPasses_dotted hnamed hcolumn htext).2
      (isName_rewriteOnce hnamed htext) hvalue)
  · intro name hname
    obtain ⟨name', hmem, heq⟩ := List.mem_map.mp hname
    exact Piece.kept.inj heq ▸ htext name' hmem

theorem distinctNames_of_keptApart (hplain : Plain (qualifierAliases tables))
    (h : Simultaneous (qualifierAliases tables)) (hapart : KeptApart tables) :
    DistinctNames tables := by
  intro q hq q' hq' hne canonical hmem hmem'
  have hnodup := nodup_qualifierAliases tables
  have hkey : ∀ q, (q, canonical) ∈ qualifierAliases tables →
      applyAliases (q ++ ".") (qualifierAliases tables) =
        String.ofList (dotted [canonical.toList]) := by
    intro q hmem
    have hentry := hplain (q, canonical) hmem
    have hnormal := @fragmentText_dotted [] (pathOf (q, canonical)) hentry.1 (Or.inl rfl) (by
      rw [List.append_nil]
      exact dotted_ne_nil (pathOf_ne_nil _))
    rw [List.append_nil, dotted_pathOf, qualifierText, String.ofList_toList] at hnormal
    have hvalue := h (q ++ ".").toList
    rw [hnormal, substituteAll_key hnodup hmem, canonicalText_plain hentry] at hvalue
    exact hvalue
  exact hapart q hq q' hq' hne ((hkey q hmem).trans (hkey q' hmem').symm)

end Converse

/-- Aliases are replaced as if all at once, and the tables stay apart, when no replaced
alias reads what an earlier entry writes and no two tables have one canonical name. For
plain queries without bordered names nothing less will do. -/
theorem applyAliases_simultaneous_iff (tables : List (TableWithJoins Literal)) :
    (Unbordered (qualifierAliases tables) ∧ Unread (qualifierAliases tables) ∧
        DistinctNames tables →
      (∀ fragment, applyAliases fragment (qualifierAliases tables) =
        substituteAll fragment (qualifierAliases tables)) ∧ KeptApart tables) ∧
    (Plain (qualifierAliases tables) → Unbordered (qualifierAliases tables) →
      (Simultaneous (qualifierAliases tables) ∧ KeptApart tables ↔
        Unread (qualifierAliases tables) ∧ DistinctNames tables)) := by
  refine ⟨fun ⟨hborder, hunread, hdistinct⟩ => ⟨applyAliases_eq hborder hunread,
    keptApart_of_distinctNames hborder hunread hdistinct⟩, fun hplain hborder =>
    ⟨fun ⟨h, hapart⟩ => ⟨?_, distinctNames_of_keptApart hplain h hapart⟩,
      fun ⟨hunread, hdistinct⟩ => ⟨fun value => applyAliases_eq hborder hunread _,
        keptApart_of_distinctNames hborder hunread hdistinct⟩⟩⟩
  exact unread_of_simultaneous hplain hborder (nodup_qualifierAliases tables) h

/-! ## A label that is the name of another table -/

/-- The table b under the label longer, and the table c under the label b. -/
def relabelledTables : List (TableWithJoins Literal) :=
  [.mk (.table [.fixed "s.b"] (some [.fixed "longer"])) [],
    .mk (.table [.fixed "c"] (some [.fixed "b"])) []]

theorem relabelledTables_rewritten :
    applyAliases (fragmentText "longer.x".toList) (qualifierAliases relabelledTables) = "c.x" ∧
      substituteAll (fragmentText "longer.x".toList) (qualifierAliases relabelledTables) = "b.x" ∧
      fromQualifiers relabelledTables = ["longer", "b"] ∧
      applyAliases "longer." (qualifierAliases relabelledTables) =
        applyAliases "b." (qualifierAliases relabelledTables) := by
  refine ⟨?_, ?_, ?_, ?_⟩ <;> decide

end DbtNova.AliasChains
