import DbtNova.RewritePasses
import Mathlib.Algebra.Order.BigOperators.Group.List
import Mathlib.Algebra.Order.Ring.Nat

/-!
# Chains of rewriting passes

The words are paths of names, and a path is rewritten to one name: its own last name, or
any name when the path is a name itself. Longer paths come first. If some path has a name
that an earlier entry writes, then there is a text in which the passes rewrite what they
have written. Every name of the path that an earlier entry writes is spelled out as the
path of the first such entry.
-/
namespace DbtNova.RewriteChains
open RewritePasses

variable {α : Type}

/-- An occurrence may start everywhere. -/
def everywhere : Option α → Bool := fun _ => true

def pathSize (weight : α → ℕ) (path : List α) : ℕ := (path.map weight).sum

/-- A path and the name that is written for it. -/
abbrev Entry (α : Type) := List α × α

def rewritesOf (entries : List (Entry α)) : List (List α × List α) :=
  entries.map fun entry => (entry.1, [entry.2])

/-- Entries with their own last names, the longest paths first. -/
structure Lawful (weight : α → ℕ) (entries : List (Entry α)) : Prop where
  nonempty : ∀ entry ∈ entries, entry.1 ≠ []
  ownName : ∀ entry ∈ entries, entry.1.length = 1 ∨ entry.1.getLast? = some entry.2
  unbordered : ∀ entry ∈ entries, ¬ Reaches everywhere entry.1 entry.1
  ranked : entries.Pairwise fun a b => pathSize weight b.1 ≤ pathSize weight a.1
  distinct : entries.Pairwise fun a b => a.1 ≠ b.1

/-- A later entry that changes anything has no name that an earlier one writes. -/
def Unchained (entries : List (Entry α)) : Prop :=
  entries.Pairwise fun earlier later => later.1 ≠ [later.2] → earlier.2 ∉ later.1

/-- The same for paths of one name. -/
def Unrenamed (entries : List (Entry α)) : Prop :=
  entries.Pairwise fun earlier later => later.1 ≠ [later.2] → later.1 ≠ [earlier.2]

/-! ## Lists of pairs -/

section Pairs
variable {R : α → α → Prop} {l : List α}

theorem exists_last_violation (h : ¬ l.Pairwise R) :
    ∃ before a after, l = before ++ a :: after ∧ after.Pairwise R ∧ ∃ b ∈ after, ¬ R a b := by
  induction l with
  | nil => exact absurd List.Pairwise.nil h
  | cons a l ih =>
      by_cases hrest : l.Pairwise R
      · rw [List.pairwise_cons, not_and'] at h
        have hviolated := h hrest
        push Not at hviolated
        exact ⟨[], a, l, rfl, hrest, hviolated⟩
      · obtain ⟨before, b, after, hsplit, hafter, hviolated⟩ := ih hrest
        exact ⟨a :: before, b, after, by rw [hsplit, List.cons_append], hafter, hviolated⟩

theorem exists_first_violation (h : ¬ l.Pairwise R) :
    ∃ before a after, l = before ++ a :: after ∧ before.Pairwise R ∧ ∃ b ∈ before, ¬ R b a := by
  have hreverse : ¬ l.reverse.Pairwise fun a b => R b a := by rwa [List.pairwise_reverse]
  obtain ⟨before, a, after, hsplit, hafter, b, hmem, hviolated⟩ := exists_last_violation hreverse
  refine ⟨after.reverse, a, before.reverse, ?_, List.pairwise_reverse.mpr hafter, b,
    List.mem_reverse.mpr hmem, hviolated⟩
  have hback := congrArg List.reverse hsplit
  rwa [List.reverse_reverse, List.reverse_append, List.reverse_cons, List.append_assoc,
    List.singleton_append] at hback

end Pairs

section Sizes
variable {weight : α → ℕ}

theorem pathSize_append (xs ys : List α) :
    pathSize weight (xs ++ ys) = pathSize weight xs + pathSize weight ys := by
  unfold pathSize
  rw [List.map_append, List.sum_append]

theorem eq_nil_of_pathSize (hweight : ∀ a, 0 < weight a) {xs : List α}
    (h : pathSize weight xs = 0) : xs = [] := by
  cases xs with
  | nil => rfl
  | cons a xs =>
      have hpos := hweight a
      unfold pathSize at h
      rw [List.map_cons, List.sum_cons] at h
      omega

/-- A path that is found inside another one, which is no longer, is that path. -/
theorem eq_of_found (hweight : ∀ a, 0 < weight a) {xs ys front rest : List α}
    (hsize : pathSize weight ys ≤ pathSize weight xs) (h : ys = front ++ (xs ++ rest)) :
    xs = ys := by
  have htotal := congrArg (pathSize weight) h
  rw [pathSize_append, pathSize_append] at htotal
  have hfront : front = [] := eq_nil_of_pathSize hweight (by omega)
  have hrest : rest = [] := eq_nil_of_pathSize hweight (by omega)
  rw [h, hfront, hrest, List.nil_append, List.append_nil]

end Sizes

/-! ## Texts made of blocks -/

section Blocks
variable [DecidableEq α] {needle replacement path back : List α} {names rest : List α}
  {block block' : α → List (Piece α)}

/-- A pass over blocks, each of which is the word or holds no start of it. -/
theorem passFrom_blocks (hne : needle ≠ [])
    (h : ∀ v ∈ names, (block v = needle.map .kept ∧ block' v = [.written needle replacement]) ∨
      (block' v = block v ∧ ∀ front back, block v = front ++ back → back ≠ [] →
        ∀ rest, ¬ needle.map .kept <+: back ++ List.flatMap block rest))
    (previous : Option α) :
    passFrom everywhere needle replacement 0 previous (names.flatMap block) =
      names.flatMap block' := by
  induction names generalizing previous with
  | nil => rfl
  | cons v names ih =>
      rw [List.forall_mem_cons] at h
      rw [List.flatMap_cons, List.flatMap_cons]
      cases h.1 with
      | inl hword => rw [hword.1, hword.2, passFrom_hit hne rfl, ih h.2, List.singleton_append]
      | inr hcopied =>
          rw [hcopied.1, passFrom_copy fun front back heq hback _ =>
            hcopied.2 front back heq hback names, ih h.2]

omit [DecidableEq α] in
/-- A word that leads a text of blocks ends in one of them. -/
theorem exists_end {γ : Type} {block : α → List γ} {word back : List γ}
    (h : word <+: back ++ rest.flatMap block) :
    word <+: back ∨ ∃ middle u tail,
      word = back ++ List.flatMap block middle ++ tail ∧ tail ≠ [] ∧ tail <+: block u := by
  induction rest generalizing back with
  | nil =>
      rw [List.flatMap_nil, List.append_nil] at h
      exact Or.inl h
  | cons u rest ih =>
      rw [List.flatMap_cons, ← List.append_assoc] at h
      cases ih h with
      | inl hlead =>
          cases List.prefix_or_prefix_of_prefix hlead (List.prefix_append back (block u)) with
          | inl hback => exact Or.inl hback
          | inr hlonger =>
              obtain ⟨tail, htail⟩ := hlonger
              by_cases hnil : tail = []
              · rw [hnil, List.append_nil] at htail
                exact Or.inl (htail ▸ List.prefix_refl back)
              · rw [← htail, List.prefix_append_right_inj] at hlead
                refine Or.inr ⟨[], u, tail, ?_, hnil, hlead⟩
                rw [List.flatMap_nil, List.append_nil, htail]
      | inr hend =>
          obtain ⟨middle, v, tail, heq, hne, hlead⟩ := hend
          refine Or.inr ⟨u :: middle, v, tail, ?_, hne, hlead⟩
          rw [heq, List.flatMap_cons, ← List.append_assoc]

end Blocks

/-! ## A path with its names spelled out -/

section Stages
variable [DecidableEq α] {weight : α → ℕ} {done todo : List (Entry α)} {first : Entry α}
  {names : List α} {v : α}

/-- The first entry that writes a name. -/
def writer (entries : List (Entry α)) (v : α) : Option (Entry α) :=
  entries.find? fun entry => entry.2 = v

/-- A name of the path behind the passes that are done. -/
def stage (done todo : List (Entry α)) (v : α) : List (Piece α) :=
  match writer done v with
  | some entry => [.written entry.1 [entry.2]]
  | none =>
      match writer todo v with
      | some entry => entry.1.map .kept
      | none => [.kept v]

/-- The names whose pieces the next pass replaces. -/
def NextWrites (done : List (Entry α)) (first : Entry α) (v : α) : Prop :=
  writer done v = none ∧ first.2 = v

theorem writer_cons_of_eq (h : first.2 = v) : writer (first :: todo) v = some first :=
  List.find?_cons_of_pos (decide_eq_true h)

theorem writer_cons_of_ne (h : first.2 ≠ v) : writer (first :: todo) v = writer todo v :=
  List.find?_cons_of_neg fun heq => h (of_decide_eq_true heq)

theorem writer_append (done todo : List (Entry α)) (v : α) :
    writer (done ++ todo) v = (writer done v).or (writer todo v) := List.find?_append

theorem stage_of_nextWrites (h : NextWrites done first v) :
    stage done (first :: todo) v = first.1.map .kept ∧
      stage (done ++ [first]) todo v = [.written first.1 [first.2]] := by
  unfold stage
  rw [writer_append, h.1, Option.none_or, writer_cons_of_eq h.2, writer_cons_of_eq h.2]
  exact ⟨rfl, rfl⟩

theorem stage_of_not_nextWrites (h : ¬ NextWrites done first v) :
    stage (done ++ [first]) todo v = stage done (first :: todo) v := by
  unfold stage
  rw [writer_append]
  cases hdone : writer done v with
  | some entry => rfl
  | none =>
      have hne : first.2 ≠ v := fun heq => h ⟨hdone, heq⟩
      rw [Option.none_or, writer_cons_of_ne hne, writer_cons_of_ne hne]
      rfl

/-- What a name looks like before the next pass. -/
theorem stage_cases (done todo : List (Entry α)) (first : Entry α) (v : α) :
    (∃ source target, stage done (first :: todo) v = [.written source target]) ∨
      NextWrites done first v ∨
      (first.2 ≠ v ∧ (stage done (first :: todo) v = [.kept v] ∨
        ∃ entry ∈ todo, entry.2 = v ∧ stage done (first :: todo) v = entry.1.map .kept)) := by
  unfold NextWrites stage
  cases writer done v with
  | some entry => exact Or.inl ⟨entry.1, [entry.2], rfl⟩
  | none =>
      by_cases hfirst : first.2 = v
      · exact Or.inr (Or.inl ⟨rfl, hfirst⟩)
      · rw [writer_cons_of_ne hfirst]
        refine Or.inr (Or.inr ⟨hfirst, ?_⟩)
        cases htodo : writer todo v with
        | none => exact Or.inl rfl
        | some entry =>
            unfold writer at htodo
            have hwrites := List.find?_some htodo
            rw [decide_eq_true_eq] at hwrites
            exact Or.inr ⟨entry, List.mem_of_find?_eq_some htodo, hwrites, rfl⟩

/-- The entries of the passes to come, against a path of several names that is no longer
than theirs. -/
structure Precedes (weight : α → ℕ) (todo : List (Entry α)) (names : List α) : Prop where
  lawful : Lawful weight todo
  unchained : Unchained todo
  several : 2 ≤ names.length
  size_le : ∀ entry ∈ todo, pathSize weight names ≤ pathSize weight entry.1

omit [DecidableEq α] in
theorem Precedes.tail (h : Precedes weight (first :: todo) names) : Precedes weight todo names :=
  ⟨⟨fun entry hentry => h.lawful.nonempty entry (List.mem_cons_of_mem first hentry),
      fun entry hentry => h.lawful.ownName entry (List.mem_cons_of_mem first hentry),
      fun entry hentry => h.lawful.unbordered entry (List.mem_cons_of_mem first hentry),
      h.lawful.ranked.of_cons, h.lawful.distinct.of_cons⟩,
    h.unchained.of_cons, h.several,
    fun entry hentry => h.size_le entry (List.mem_cons_of_mem first hentry)⟩

omit [DecidableEq α] in
theorem weight_lt_pathSize (hweight : ∀ a, 0 < weight a) (hseveral : 2 ≤ names.length)
    (hv : v ∈ names) : weight v < pathSize weight names := by
  obtain ⟨before, after, hsplit⟩ := List.append_of_mem hv
  have hne : before ++ after ≠ [] := by
    intro hnil
    have hlength := congrArg List.length hsplit
    rw [List.append_eq_nil_iff] at hnil
    rw [hnil.1, hnil.2, List.nil_append, List.length_singleton] at hlength
    omega
  have hrest : pathSize weight (before ++ after) ≠ 0 := fun hzero =>
    hne (eq_nil_of_pathSize hweight hzero)
  have hone : pathSize weight [v] = weight v := List.sum_singleton
  have hcons := @pathSize_append _ weight [v] after
  rw [List.singleton_append, hone] at hcons
  rw [pathSize_append] at hrest
  rw [hsplit, pathSize_append, hcons]
  omega

/-- The next pass finds its path in no place but those it has to replace. -/
theorem not_started (hweight : ∀ a, 0 < weight a) (h : Precedes weight (first :: todo) names)
    (hv : v ∈ names) (hnext : ¬ NextWrites done first v) {front back : List (Piece α)}
    (hstage : stage done (first :: todo) v = front ++ back) (hback : back ≠ []) (rest : List α) :
    ¬ first.1.map .kept <+: back ++ rest.flatMap (stage done (first :: todo)) := by
  intro hlead
  have hne := h.lawful.nonempty first List.mem_cons_self
  have hlonger := (List.pairwise_cons.mp h.lawful.ranked).1
  have hother := (List.pairwise_cons.mp h.lawful.distinct).1
  have hunread := (List.pairwise_cons.mp h.unchained).1
  have hmem : back ⊆ stage done (first :: todo) v := by
    rw [hstage]
    exact List.subset_append_right front back
  cases exists_end hlead with
  | inl hinside =>
      -- the path ends in the piece in which it starts
      obtain ⟨c, hc⟩ := List.exists_mem_of_ne_nil first.1 hne
      have hfound := hmem (hinside.subset (List.mem_map_of_mem hc))
      rcases stage_cases done todo first v with ⟨source, target, hwritten⟩ | hdone | ⟨_, hkept⟩
      · rw [hwritten] at hfound
        cases List.mem_singleton.mp hfound
      · exact hnext hdone
      · cases hkept with
        | inl hkept =>
            have hlength := hinside.length_le
            have htotal := congrArg List.length hstage
            rw [hkept, List.length_singleton, List.length_append] at htotal
            rw [List.length_map] at hlength
            rw [hkept] at hfound
            have hname : first.1 = [v] := by
              have hone : first.1.length = 1 :=
                Nat.le_antisymm (by omega) (List.length_pos_of_ne_nil hne)
              obtain ⟨d, hd⟩ := List.length_eq_one_iff.mp hone
              rw [hd, List.mem_singleton] at hc
              rw [hd, ← hc, Piece.kept.inj (List.mem_singleton.mp hfound)]
            have hsize := h.size_le first List.mem_cons_self
            have hlt := weight_lt_pathSize hweight h.several hv
            rw [hname] at hsize
            have hone : pathSize weight [v] = weight v := List.sum_singleton
            omega
        | inr hentry =>
            obtain ⟨entry, hentry, _, hspelled⟩ := hentry
            rw [hspelled, List.map_eq_append_iff] at hstage
            obtain ⟨text, word, hsplit, _, hword⟩ := hstage
            rw [← hword, List.prefix_map_iff_of_injective fun _ _ heq => Piece.kept.inj heq]
              at hinside
            obtain ⟨behind, hbehind⟩ := hinside
            rw [← hbehind] at hsplit
            exact hother entry hentry (eq_of_found hweight (hlonger entry hentry) hsplit)
  | inr hend =>
      -- the path ends in the piece of a later name, with the name that the pass writes
      obtain ⟨middle, u, tail, hpath, htail, hpiece⟩ := hend
      obtain ⟨text, word, hsplit, htext, hword⟩ := List.map_eq_append_iff.mp hpath
      have htextNe : text ≠ [] := by
        rintro rfl
        exact hback (List.append_eq_nil_iff.mp htext.symm).1
      have hwordNe : word ≠ [] := by
        rintro rfl
        exact htail hword.symm
      have hown : first.2 ∈ word := by
        have hlast : first.1.getLast? = some first.2 :=
          (h.lawful.ownName first List.mem_cons_self).resolve_left fun hone => by
            have hlength := congrArg List.length hsplit
            have htextPos := List.length_pos_of_ne_nil htextNe
            have hwordPos := List.length_pos_of_ne_nil hwordNe
            rw [List.length_append] at hlength
            omega
        rw [hsplit, List.getLast?_append_of_ne_nil text hwordNe] at hlast
        exact List.mem_of_getLast? hlast
      have hfound := hpiece.subset (hword ▸ List.mem_map_of_mem hown)
      rcases stage_cases done todo first u with ⟨source, target, hwritten⟩ | hdone | ⟨hu', hkept⟩
      · rw [hwritten] at hfound
        cases List.mem_singleton.mp hfound
      · rw [(stage_of_nextWrites hdone).1, ← hword,
          List.prefix_map_iff_of_injective fun _ _ heq => Piece.kept.inj heq] at hpiece
        exact h.lawful.unbordered first List.mem_cons_self
          ⟨text, word, hsplit, htextNe, hwordNe, rfl, Or.inl hpiece⟩
      · cases hkept with
        | inl hkept =>
            rw [hkept] at hfound
            exact hu' (Piece.kept.inj (List.mem_singleton.mp hfound))
        | inr hentry =>
            obtain ⟨entry, hentry, hwrites, hspelled⟩ := hentry
            rw [hspelled] at hfound
            obtain ⟨d, hd, heq⟩ := List.mem_map.mp hfound
            rw [Piece.kept.inj heq] at hd
            by_cases hsame : entry.1 = [entry.2]
            · rw [hsame, List.mem_singleton] at hd
              exact hu' (hd.trans hwrites)
            · exact hunread entry hentry hsame hd

theorem passFrom_stage (hweight : ∀ a, 0 < weight a) (h : Precedes weight (first :: todo) names) :
    passFrom everywhere first.1 [first.2] 0 none (names.flatMap (stage done (first :: todo))) =
      names.flatMap (stage (done ++ [first]) todo) := by
  refine passFrom_blocks (h.lawful.nonempty first List.mem_cons_self) (fun v hv => ?_) none
  by_cases hnext : NextWrites done first v
  · exact Or.inl (stage_of_nextWrites hnext)
  · exact Or.inr ⟨stage_of_not_nextWrites hnext, fun front back heq hback rest =>
      not_started hweight h hv hnext heq hback rest⟩

/-- The passes write every name that they can. -/
theorem rewriteOnce_stage (hweight : ∀ a, 0 < weight a) (h : Precedes weight todo names)
    (done : List (Entry α)) :
    rewriteOnce everywhere (rewritesOf todo) (names.flatMap (stage done todo)) =
      names.flatMap (stage (done ++ todo) []) := by
  induction todo generalizing done with
  | nil => rw [List.append_nil]; rfl
  | cons first todo ih =>
      refine (congrArg (rewriteOnce everywhere (rewritesOf todo)) (passFrom_stage hweight h)).trans ?_
      rw [ih h.tail, List.append_assoc, List.singleton_append]

/-- The path with the names that earlier entries write spelled out. -/
def spell (entries : List (Entry α)) (v : α) : List α :=
  match writer entries v with
  | some entry => entry.1
  | none => [v]

theorem stage_nil (entries : List (Entry α)) (names : List α) :
    names.flatMap (stage [] entries) = (names.flatMap (spell entries)).map .kept := by
  rw [List.map_flatMap]
  congr 1
  funext v
  unfold stage spell
  rw [show writer ([] : List (Entry α)) v = none from rfl]
  cases writer entries v <;> rfl

/-- All passes done, every name is one piece. -/
theorem stage_done (entries : List (Entry α)) (v : α) :
    ∃ piece, stage entries [] v = [piece] ∧ piece.target = [v] ∧
      ((writer entries v).isSome = true → ∃ source, piece = .written source [v]) := by
  unfold stage
  cases hwriter : writer entries v with
  | none => exact ⟨.kept v, rfl, rfl, fun h => absurd h Bool.false_ne_true⟩
  | some entry =>
      unfold writer at hwriter
      have hwrites := List.find?_some hwriter
      rw [decide_eq_true_eq] at hwrites
      refine ⟨.written entry.1 [entry.2], rfl, ?_, fun _ => ⟨entry.1, ?_⟩⟩
      · rw [Piece.target, hwrites]
      · rw [hwrites]

theorem target_stage_done (entries : List (Entry α)) (names : List α) :
    (names.flatMap (stage entries [])).flatMap Piece.target = names := by
  induction names with
  | nil => rfl
  | cons v names ih =>
      obtain ⟨piece, hpiece, htarget, _⟩ := stage_done entries v
      rw [List.flatMap_cons, hpiece, List.singleton_append, List.flatMap_cons, htarget, ih,
        List.singleton_append]

theorem length_stage_done (entries : List (Entry α)) (names : List α) :
    (names.flatMap (stage entries [])).length = names.length := by
  induction names with
  | nil => rfl
  | cons v names ih =>
      obtain ⟨piece, hpiece, _, _⟩ := stage_done entries v
      rw [List.flatMap_cons, hpiece, List.singleton_append, List.length_cons, ih, List.length_cons]

end Stages

/-! ## Pieces that never merge -/

section Written
variable [DecidableEq α] {boundary : Option α → Bool} {needle replacement : List α}
  {pieces : List (Piece α)} {entries : List (List α × List α)}

def isWritten : Piece α → Bool
  | .kept _ => false
  | .written _ _ => true

/-- A pass that changes anything writes one more piece. -/
theorem passFrom_cases (hne : needle ≠ []) (previous : Option α) (pieces : List (Piece α)) :
    passFrom boundary needle replacement 0 previous pieces = pieces ∨
      pieces.countP isWritten <
        (passFrom boundary needle replacement 0 previous pieces).countP isWritten := by
  induction previous, pieces using passFrom_induction boundary hne with
  | nil previous => exact Or.inl rfl
  | hit previous rest hboundary ih =>
      right
      have hkept : (needle.map Piece.kept).countP isWritten = 0 := by
        rw [List.countP_eq_zero]
        intro piece hpiece
        obtain ⟨c, _, heq⟩ := List.mem_map.mp hpiece
        rw [← heq]
        exact Bool.false_ne_true
      rw [passFrom_hit hne hboundary, List.countP_append, hkept, List.countP_cons_of_pos rfl]
      cases ih with
      | inl hsame =>
          rw [hsame]
          omega
      | inr hmore => omega
  | miss previous piece rest hmiss ih =>
      rw [passFrom_miss hmiss]
      cases ih with
      | inl hsame => exact Or.inl (congrArg (piece :: ·) hsame)
      | inr hmore =>
          right
          rw [List.countP_cons, List.countP_cons]
          omega

/-- Several pieces, one of them written, stay several. -/
theorem two_le_rewriteOnce (hwords : ∀ entry ∈ entries, entry.1 ≠ [])
    (hlength : 2 ≤ pieces.length) (hwritten : 0 < pieces.countP isWritten) :
    2 ≤ (rewriteOnce boundary entries pieces).length := by
  induction entries generalizing pieces with
  | nil => exact hlength
  | cons entry entries ih =>
      rw [List.forall_mem_cons] at hwords
      refine @ih (passFrom boundary entry.1 entry.2 0 none pieces) hwords.2 ?_ ?_
      · cases @passFrom_cases _ _ boundary entry.1 entry.2 hwords.1 none pieces with
        | inl hsame => rwa [hsame]
        | inr hmore =>
            have hle := List.countP_le_length (p := isWritten)
              (l := passFrom boundary entry.1 entry.2 0 none pieces)
            omega
      · cases @passFrom_cases _ _ boundary entry.1 entry.2 hwords.1 none pieces with
        | inl hsame => rwa [hsame]
        | inr hmore => exact hwritten.trans hmore

omit [DecidableEq α] in
theorem length_le_target (h : ∀ piece ∈ pieces, piece.target ≠ []) :
    pieces.length ≤ (pieces.flatMap Piece.target).length := by
  induction pieces with
  | nil => exact Nat.le_refl 0
  | cons piece pieces ih =>
      rw [List.forall_mem_cons] at h
      have hpos := List.length_pos_of_ne_nil h.1
      have hrest := ih h.2
      rw [List.flatMap_cons, List.length_append, List.length_cons]
      omega

end Written

/-! ## A text that is rewritten again -/

section Chains
variable [DecidableEq α] {weight : α → ℕ} {entries before after : List (Entry α)}
  {entry : Entry α} {text : List α}

theorem rewriteInPasses_append (before after : List (List α × List α)) (text : List α) :
    rewriteInPasses everywhere (before ++ after) text =
      rewriteInPasses everywhere after (rewriteInPasses everywhere before text) :=
  List.foldl_append

theorem rewriteInPasses_cons (entry : Entry α) (entries : List (Entry α)) (text : List α) :
    rewriteInPasses everywhere (rewritesOf (entry :: entries)) text =
      rewriteInPasses everywhere (rewritesOf entries)
        (replaceFrom everywhere entry.1 [entry.2] 0 none text) := rfl

omit [DecidableEq α] in
theorem rewritesOf_append (before after : List (Entry α)) :
    rewritesOf (before ++ after) = rewritesOf before ++ rewritesOf after := List.map_append

theorem replaceFrom_whole (hne : text ≠ []) (replacement : List α) :
    replaceFrom everywhere text replacement 0 none text = replacement := by
  have hhit := @replaceFrom_hit _ _ everywhere text replacement [] none hne rfl
  rwa [List.append_nil, replaceFrom, List.append_nil] at hhit

/-- Passes whose words do not occur. -/
theorem rewriteInPasses_of_absent (h : ∀ entry ∈ entries, ∀ front back, text = front ++ back →
    back ≠ [] → ¬ entry.1 <+: back) :
    rewriteInPasses everywhere (rewritesOf entries) text = text := by
  induction entries with
  | nil => rfl
  | cons entry entries ih =>
      rw [List.forall_mem_cons] at h
      have hcopy := @replaceFrom_copy _ _ everywhere entry.1 [entry.2] text [] none
        fun front back heq hback _ => by
          rw [List.append_nil]
          exact h.1 front back heq hback
      rw [List.append_nil, replaceFrom, List.append_nil] at hcopy
      rw [rewriteInPasses_cons, hcopy, ih h.2]

/-- One name stays one name. -/
theorem rewriteInPasses_name (hne : ∀ entry ∈ entries, entry.1 ≠ []) (v : α) :
    ∃ u, rewriteInPasses everywhere (rewritesOf entries) [v] = [u] ∧
      ((∀ entry ∈ entries, entry.1 = [v] → entry.2 = v) → u = v) := by
  induction entries generalizing v with
  | nil => exact ⟨v, rfl, fun _ => rfl⟩
  | cons entry entries ih =>
      rw [List.forall_mem_cons] at hne
      by_cases hname : entry.1 = [v]
      · obtain ⟨u, hu, hsame⟩ := ih hne.2 entry.2
        refine ⟨u, ?_, fun h => ?_⟩
        · rw [rewriteInPasses_cons, hname, replaceFrom_whole (List.cons_ne_nil v []), hu]
        · rw [List.forall_mem_cons] at h
          rw [h.1 hname] at hsame
          exact hsame h.2
      · have hmiss : ¬ (everywhere (none : Option α) = true ∧ entry.1 <+: [v]) := by
          rintro ⟨_, hlead⟩
          cases List.prefix_cons_iff.mp hlead with
          | inl hnil => exact hne.1 hnil
          | inr hcons =>
              obtain ⟨rest, heq, hrest⟩ := hcons
              rw [List.prefix_nil.mp hrest] at heq
              exact hname heq
        obtain ⟨u, hu, hsame⟩ := ih hne.2 v
        refine ⟨u, ?_, fun h => hsame (List.forall_mem_cons.mp h).2⟩
        rw [rewriteInPasses_cons, replaceFrom_miss hmiss, replaceFrom, hu]

omit [DecidableEq α] in
theorem Unchained.unread (h : Unchained entries) (hne : ∀ entry ∈ entries, entry.1 ≠ []) :
    Separate everywhere (rewritesOf entries) := by
  refine List.pairwise_map.mpr (h.imp_of_mem fun {earlier later} _ hlater hnew hchanges hreads =>
    hnew hchanges ?_)
  have hmem : ∀ {word : List α}, word ≠ [] → word <+: [earlier.2] ∨ [earlier.2] <+: word →
      earlier.2 ∈ word := by
    intro word hword hmeets
    cases hmeets with
    | inl hlead =>
        cases List.prefix_cons_iff.mp hlead with
        | inl hnil => exact absurd hnil hword
        | inr hcons =>
            obtain ⟨rest, heq, _⟩ := hcons
            rw [heq]
            exact List.mem_cons_self
    | inr hlead => exact hlead.subset (List.mem_singleton.mpr rfl)
  cases hreads with
  | inl hreaches =>
      obtain ⟨front, back, heq, _, hback, _, hmeets⟩ := hreaches
      rw [show later.1 = front ++ back from heq]
      exact List.mem_append_right front (hmem hback hmeets)
  | inr hinside =>
      obtain ⟨front, back, heq, hback, _, hmeets⟩ := hinside
      have hwhole : back = [earlier.2] := by
        cases front with
        | nil => exact heq.symm
        | cons c front =>
            rw [List.cons_append, List.cons.injEq] at heq
            exact absurd (List.append_eq_nil_iff.mp heq.2.symm).2 hback
      rw [hwhole] at hmeets
      exact hmem (hne later hlater) hmeets

/-- An entry whose name is a path that a later entry changes. -/
theorem exists_renamed (hweight : ∀ a, 0 < weight a) (h : Lawful weight entries)
    (hrenamed : ¬ Unrenamed entries) :
    ∃ entry ∈ entries, rewriteInPasses everywhere (rewritesOf entries) entry.1 ≠
      (rewriteOnce everywhere (rewritesOf entries) (entry.1.map .kept)).flatMap Piece.target := by
  obtain ⟨before, entry, after, hsplit, hafter, later, hlater, hviolated⟩ :=
    exists_last_violation hrenamed
  push Not at hviolated
  obtain ⟨hchanges, hpath⟩ := hviolated
  obtain ⟨middle, rest, hrest⟩ := List.append_of_mem hlater
  have hne := h.nonempty
  have hranked := h.ranked
  have hdistinct := h.distinct
  rw [hsplit] at hne hranked hdistinct
  have hentry : entry.1 ≠ [] := hne entry (List.mem_append_right _ List.mem_cons_self)
  have habsent : ∀ earlier ∈ before, ∀ front back, entry.1 = front ++ back → back ≠ [] →
      ¬ earlier.1 <+: back := by
    rintro earlier hearlier front back heq _ ⟨tail, htail⟩
    rw [← htail] at heq
    exact (List.pairwise_append.mp hdistinct).2.2 earlier hearlier entry List.mem_cons_self
      (eq_of_found hweight
        ((List.pairwise_append.mp hranked).2.2 earlier hearlier entry List.mem_cons_self) heq)
  refine ⟨entry, by rw [hsplit]; exact List.mem_append_right _ List.mem_cons_self, ?_⟩
  have honce : rewriteOnce everywhere (rewritesOf entries) (entry.1.map .kept) =
      [.written entry.1 [entry.2]] := by
    rw [hsplit, rewritesOf_append]
    refine @rewriteOnce_word _ _ everywhere _ _ (entry.1, [entry.2]) (fun rewrite hmem => ?_)
      (fun rewrite hmem => ?_) rfl
    · obtain ⟨later, hlater, heq⟩ := List.mem_map.mp
        (show rewrite ∈ rewritesOf (entry :: after) from hmem)
      rw [← heq]
      exact hne later (List.mem_append_right _ hlater)
    · obtain ⟨earlier, hearlier, heq⟩ := List.mem_map.mp hmem
      rw [← heq]
      exact habsent earlier hearlier
  have hpasses : rewriteInPasses everywhere (rewritesOf entries) entry.1 = [later.2] := by
    have hafterNe : ∀ other ∈ after, other.1 ≠ [] := fun other hother =>
      hne other (List.mem_append_right _ (List.mem_cons_of_mem entry hother))
    have hdistinctAfter := (List.pairwise_append.mp hdistinct).2.1.of_cons
    rw [hrest] at hafterNe hdistinctAfter hafter
    rw [hsplit, rewritesOf_append, rewriteInPasses_append, rewriteInPasses_of_absent habsent,
      rewriteInPasses_cons, replaceFrom_whole hentry, hrest, rewritesOf_append,
      rewriteInPasses_append]
    -- up to the later entry the name stays, and behind it no entry changes it again
    obtain ⟨u, hu, hsame⟩ := rewriteInPasses_name
      (fun other hother => hafterNe other (List.mem_append_left _ hother)) entry.2
    rw [hu, hsame fun other hother heq => absurd (heq.trans hpath.symm)
      ((List.pairwise_append.mp hdistinctAfter).2.2 other hother later List.mem_cons_self), ← hpath]
    have hrestNe : ∀ other ∈ rest, other.1 ≠ [] := fun other hother =>
      hafterNe other (List.mem_append_right _ (List.mem_cons_of_mem later hother))
    obtain ⟨w, hw, hlast⟩ := rewriteInPasses_name hrestNe later.2
    rw [rewriteInPasses_cons,
      replaceFrom_whole (hafterNe later (List.mem_append_right _ List.mem_cons_self)), hw,
      hlast fun other hother heq => ?_]
    by_contra hother'
    refine (List.pairwise_cons.mp (List.pairwise_append.mp hafter).2.1).1 other hother ?_ heq
    rw [heq]
    intro hwrong
    exact hother' (List.cons.inj hwrong).1.symm
  rw [hpasses, honce, List.flatMap_singleton, Piece.target]
  intro heq
  exact hchanges (hpath.trans heq.symm)

omit [DecidableEq α] in
/-- The entries before one, against its path. -/
theorem Lawful.precedes (h : Lawful weight (before ++ entry :: after)) (hunchained : Unchained before)
    (hseveral : 2 ≤ entry.1.length) : Precedes weight before entry.1 :=
  ⟨⟨fun other hother => h.nonempty other (List.mem_append_left _ hother),
      fun other hother => h.ownName other (List.mem_append_left _ hother),
      fun other hother => h.unbordered other (List.mem_append_left _ hother),
      (List.pairwise_append.mp h.ranked).1, (List.pairwise_append.mp h.distinct).1⟩,
    hunchained, hseveral,
    fun other hother => (List.pairwise_append.mp h.ranked).2.2 other hother entry
      List.mem_cons_self⟩

/-- A path of several names, one of which an earlier entry writes. -/
theorem spelled_ne (hweight : ∀ a, 0 < weight a) (h : Lawful weight (before ++ entry :: after))
    (hunchained : Unchained before) (hseveral : 2 ≤ entry.1.length)
    (hwritten : ∃ earlier ∈ before, earlier.2 ∈ entry.1) :
    rewriteInPasses everywhere (rewritesOf (before ++ entry :: after))
        (entry.1.flatMap (spell before)) ≠
      (rewriteOnce everywhere (rewritesOf (before ++ entry :: after))
        ((entry.1.flatMap (spell before)).map .kept)).flatMap Piece.target := by
  have hprecedes := h.precedes hunchained hseveral
  have hstage : rewriteOnce everywhere (rewritesOf before)
      ((entry.1.flatMap (spell before)).map .kept) = entry.1.flatMap (stage before []) := by
    rw [← stage_nil, rewriteOnce_stage hweight hprecedes, List.nil_append]
  have hdelimited : ∀ rewrite ∈ rewritesOf before, Delimited everywhere rewrite := by
    intro rewrite hmem
    obtain ⟨earlier, hearlier, heq⟩ := List.mem_map.mp hmem
    rw [← heq]
    exact ⟨hprecedes.lawful.nonempty earlier hearlier, rfl, Or.inr rfl⟩
  have hbefore : rewriteInPasses everywhere (rewritesOf before)
      (entry.1.flatMap (spell before)) = entry.1 := by
    rw [← target_rewriteOnce hdelimited (hunchained.unread hprecedes.lawful.nonempty), hstage,
      target_stage_done]
  -- the passes end in one name
  have hpasses : (rewriteInPasses everywhere (rewritesOf (before ++ entry :: after))
      (entry.1.flatMap (spell before))).length = 1 := by
    have hne := h.nonempty entry (List.mem_append_right _ List.mem_cons_self)
    obtain ⟨u, hu, _⟩ := rewriteInPasses_name (fun other hother =>
      h.nonempty other (List.mem_append_right _ (List.mem_cons_of_mem entry hother))) entry.2
    rw [rewritesOf_append, rewriteInPasses_append, hbefore, rewriteInPasses_cons,
      replaceFrom_whole hne, hu, List.length_singleton]
  -- at once, the written name stays beside the others
  have hmany : 2 ≤ ((rewriteOnce everywhere (rewritesOf (before ++ entry :: after))
      ((entry.1.flatMap (spell before)).map .kept)).flatMap Piece.target).length := by
    have hrun : rewriteOnce everywhere (rewritesOf (before ++ entry :: after))
        ((entry.1.flatMap (spell before)).map .kept) =
        rewriteOnce everywhere (rewritesOf (entry :: after)) (entry.1.flatMap (stage before [])) := by
      rw [rewritesOf_append, ← hstage]
      exact List.foldl_append
    have hcount : 0 < (entry.1.flatMap (stage before [])).countP isWritten := by
      obtain ⟨earlier, hearlier, hname⟩ := hwritten
      obtain ⟨piece, hpiece, _, hisWritten⟩ := stage_done before earlier.2
      have hwriter : (writer before earlier.2).isSome = true := by
        unfold writer
        rw [List.find?_isSome]
        exact ⟨earlier, hearlier, decide_eq_true rfl⟩
      obtain ⟨source, hsource⟩ := hisWritten hwriter
      refine List.countP_pos_iff.mpr ⟨piece, List.mem_flatMap.mpr ⟨earlier.2, hname, ?_⟩, ?_⟩
      · rw [hpiece]
        exact List.mem_singleton.mpr rfl
      · rw [hsource]
        rfl
    have hlength : 2 ≤ (entry.1.flatMap (stage before [])).length := by
      rwa [length_stage_done]
    have hlater : ∀ rewrite ∈ rewritesOf (entry :: after), rewrite.1 ≠ [] := by
      intro rewrite hmem
      obtain ⟨later, hlater, heq⟩ := List.mem_map.mp hmem
      rw [← heq]
      exact h.nonempty later (List.mem_append_right _ hlater)
    rw [hrun]
    refine (@two_le_rewriteOnce _ _ everywhere _ _ hlater hlength hcount).trans
      (length_le_target fun piece hpiece => ?_)
    cases piece with
    | kept c => exact List.cons_ne_nil c []
    | written source target =>
        cases mem_rewriteOnce hpiece with
        | inl hbefore =>
            obtain ⟨v, _, hv⟩ := List.mem_flatMap.mp hbefore
            obtain ⟨piece, hpiece, htarget, _⟩ := stage_done before v
            rw [hpiece] at hv
            rw [List.mem_singleton.mp hv, htarget]
            exact List.cons_ne_nil v []
        | inr hmem =>
            obtain ⟨later, _, heq⟩ := List.mem_map.mp hmem
            rw [Piece.target, ← (Prod.mk.inj heq).2]
            exact List.cons_ne_nil later.2 []
  intro heq
  rw [heq] at hpasses
  omega

/-- If some path has a name that an earlier entry writes, the passes are not rewriting at
once. -/
theorem exists_rewritten_again (hweight : ∀ a, 0 < weight a) (h : Lawful weight entries)
    (hchained : ¬ Unchained entries) :
    ∃ text : List α, (∀ v ∈ text, ∃ entry ∈ entries, v ∈ entry.1) ∧
      rewriteInPasses everywhere (rewritesOf entries) text ≠
        (rewriteOnce everywhere (rewritesOf entries) (text.map .kept)).flatMap Piece.target := by
  by_cases hrenamed : Unrenamed entries
  · obtain ⟨before, entry, after, hsplit, hbefore, earlier, hearlier, hviolated⟩ :=
      exists_first_violation hchained
    push Not at hviolated
    obtain ⟨hchanges, hname⟩ := hviolated
    rw [hsplit] at h hrenamed
    have hseveral : 2 ≤ entry.1.length := by
      by_contra hone
      have hpos := List.length_pos_of_ne_nil
        (h.nonempty entry (List.mem_append_right _ List.mem_cons_self))
      obtain ⟨v, hv⟩ := List.length_eq_one_iff.mp (show entry.1.length = 1 by omega)
      refine (List.pairwise_append.mp hrenamed).2.2 earlier hearlier entry List.mem_cons_self
        hchanges ?_
      rw [hv, List.mem_singleton] at hname
      rw [hv, hname]
    refine ⟨entry.1.flatMap (spell before), fun v hv => ?_, ?_⟩
    · obtain ⟨name, hmem, hspelled⟩ := List.mem_flatMap.mp hv
      unfold spell at hspelled
      cases hwriter : writer before name with
      | none =>
          rw [hwriter] at hspelled
          rw [List.mem_singleton.mp hspelled, hsplit]
          exact ⟨entry, List.mem_append_right _ List.mem_cons_self, hmem⟩
      | some other =>
          rw [hwriter] at hspelled
          rw [hsplit]
          exact ⟨other, List.mem_append_left _ (List.mem_of_find?_eq_some hwriter), hspelled⟩
    · rw [hsplit]
      exact spelled_ne hweight h hbefore hseveral ⟨earlier, hearlier, hname⟩
  · obtain ⟨entry, hentry, hne⟩ := exists_renamed hweight h hrenamed
    exact ⟨entry.1, fun v hv => ⟨entry, hentry, hv⟩, hne⟩

end Chains

end DbtNova.RewriteChains
