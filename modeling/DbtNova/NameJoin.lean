import Mathlib.Data.List.Basic
import Mathlib.Data.List.Perm.Basic
import Mathlib.Tactic.Common

/-!
# Joining matches to declarations by a key

Some declarations match, and a row is built from a declaration and its match. If the matches are
joined to the declarations again by a key, the first declaration of a key gets the matches of all
declarations with that key. The rows are still right, up to their order, if these look alike.
-/
namespace NameJoin

/-- Declarations `δ` with matches `μ`, and the rows `ρ` that are built from the two. -/
structure Join (δ μ ρ κ ν : Type*) where
  key : δ → κ
  matchOf : δ → Option μ
  matchKey : μ → κ
  build : δ → μ → ρ
  rowKey : ρ → κ
  /-- What a row shows of its declaration, besides the key -/
  look : δ → ν
  rowLook : ρ → ν
  matchKey_eq {d : δ} {m : μ} : matchOf d = some m → matchKey m = key d
  rowKey_eq (d : δ) (m : μ) : rowKey (build d m) = key d
  rowLook_eq (d : δ) (m : μ) : rowLook (build d m) = look d
  build_congr {d e : δ} (m : μ) : key d = key e → look d = look e → build d m = build e m

namespace Join
variable {δ μ ρ κ ν : Type*} [DecidableEq κ] (J : Join δ μ ρ κ ν)

/-- The declaration that a key finds. -/
def first (decls : List δ) (k : κ) : Option δ := decls.find? fun d => J.key d == k

def joinRow (decls : List δ) (m : μ) : Option ρ :=
  (J.first decls (J.matchKey m)).map fun d => J.build d m

/-- The row of the one declaration apart, with the first match of its key. -/
def singleRow (single : Option δ) (found : List μ) : Option ρ :=
  single.bind fun d => (found.find? fun m => J.matchKey m == J.key d).map (J.build d)

/-- Every matching declaration with its own match. -/
def declared (decls : List δ) : List ρ := decls.filterMap fun d => (J.matchOf d).map (J.build d)

/-- A matching declaration looks like the first one of its key. -/
def Alike (decls : List δ) : Prop :=
  ∀ d ∈ decls, (J.matchOf d).isSome = true → ∀ e, J.first decls (J.key d) = some e →
    J.look e = J.look d

/-- The one declaration has its key in common with a declaration of the list, and one with this
key matches. -/
def Clash (single : Option δ) (decls : List δ) : Prop :=
  ∃ s, single = some s ∧ (∃ d ∈ decls, J.key d = J.key s) ∧
    ∃ d ∈ s :: decls, J.key d = J.key s ∧ (J.matchOf d).isSome = true

variable {J} {decls : List δ} {found : List μ} {s : δ}

theorem first_key {k : κ} {d : δ} (h : J.first decls k = some d) : J.key d = k := by
  unfold first at h
  have hfound := List.find?_some h
  exact beq_iff_eq.mp hfound

theorem exists_first {k : κ} {d : δ} (hd : d ∈ decls) (hk : J.key d = k) :
    ∃ e, J.first decls k = some e := by
  apply Option.isSome_iff_exists.mp
  exact List.find?_isSome.mpr ⟨d, hd, beq_iff_eq.mpr hk⟩

theorem joinRow_eq {d : δ} {m : μ} (h : J.matchOf d = some m) :
    J.joinRow decls m = (J.first decls (J.key d)).map fun e => J.build e m := by
  unfold joinRow
  rw [J.matchKey_eq h]

/-- The joined rows are those of the declarations if these look alike, and only then. -/
theorem joined_perm_iff (decls : List δ) :
    ((decls.filterMap J.matchOf).filterMap (J.joinRow decls)).Perm (J.declared decls) ↔
      J.Alike decls := by
  rw [List.filterMap_filterMap]
  constructor
  · intro hperm d hd hmatch e he
    obtain ⟨m, hm⟩ := Option.isSome_iff_exists.mp hmatch
    have hrow : J.build d m ∈ J.declared decls := by
      refine List.mem_filterMap.mpr ⟨d, hd, ?_⟩
      rw [hm]
      rfl
    obtain ⟨d', -, hjoined⟩ := List.mem_filterMap.mp (hperm.mem_iff.mpr hrow)
    obtain ⟨m', hm', hjoined⟩ := Option.bind_eq_some_iff.mp hjoined
    rw [joinRow_eq hm'] at hjoined
    obtain ⟨e', he', hbuild⟩ := Option.map_eq_some_iff.mp hjoined
    have hkey : J.key e' = J.key d := by
      rw [← J.rowKey_eq e' m', hbuild, J.rowKey_eq]
    -- the first declaration of that row's key is the first one of this key
    rw [← hkey, first_key he', he'] at he
    rw [← Option.some.inj he, ← J.rowLook_eq e' m', hbuild, J.rowLook_eq]
  · intro halike
    apply List.Perm.of_eq
    apply List.filterMap_congr
    intro d hd
    cases hm : J.matchOf d with
    | none => rfl
    | some m =>
        obtain ⟨e, he⟩ := exists_first (J := J) hd rfl
        have hlook := halike d hd (by rw [hm]; rfl) e he
        dsimp only [Option.bind_some, Option.map_some]
        rw [joinRow_eq hm, he, Option.map_some, J.build_congr m (first_key he) hlook]

/-- Every match with a declaration of its key gets a row. -/
theorem joined_length (h : ∀ m ∈ found, ∃ d ∈ decls, J.key d = J.matchKey m) :
    (found.filterMap (J.joinRow decls)).length = found.length := by
  induction found with
  | nil => rfl
  | cons m found ih =>
      obtain ⟨hfirst, hrest⟩ := List.forall_mem_cons.mp h
      obtain ⟨d, hd, hk⟩ := hfirst
      obtain ⟨e, he⟩ := exists_first hd hk
      have hrow : J.joinRow decls m = some (J.build e m) := by
        unfold joinRow
        rw [he]
        rfl
      rw [List.filterMap_cons_some hrow, List.length_cons, List.length_cons, ih hrest]

omit [DecidableEq κ] in
theorem declared_length (decls : List δ) :
    (J.declared decls).length = (decls.filterMap J.matchOf).length := by
  unfold declared
  induction decls with
  | nil => rfl
  | cons d decls ih =>
      rw [List.filterMap_cons, List.filterMap_cons]
      cases J.matchOf d with
      | none => exact ih
      | some m => exact congrArg (· + 1) ih

omit [DecidableEq κ] in
theorem mem_found (hfound : found.Perm ((J.matchOf s).toList ++ decls.filterMap J.matchOf))
    {m : μ} : m ∈ found ↔ J.matchOf s = some m ∨ ∃ d ∈ decls, J.matchOf d = some m := by
  rw [hfound.mem_iff, List.mem_append, Option.mem_toList, List.mem_filterMap]

/-- Where the keys do not clash, the one declaration gets its own match. -/
theorem singleRow_eq (hclash : ¬ J.Clash (some s) decls)
    (hfound : found.Perm ((J.matchOf s).toList ++ decls.filterMap J.matchOf)) :
    J.singleRow (some s) found = (J.matchOf s).map (J.build s) := by
  have hown : ∀ m ∈ found, J.matchKey m = J.key s → J.matchOf s = some m := by
    intro m hm hk
    rcases (mem_found hfound).mp hm with hm | ⟨d, hd, hm⟩
    · exact hm
    · have hsame : J.key d = J.key s := (J.matchKey_eq hm).symm.trans hk
      exact absurd ⟨s, rfl, ⟨d, hd, hsame⟩, d, List.mem_cons_of_mem s hd, hsame,
        Option.isSome_of_mem hm⟩ hclash
  unfold singleRow
  rw [Option.bind_some]
  congr 1
  cases hfind : found.find? fun m => J.matchKey m == J.key s with
  | some m =>
      have hkey := List.find?_some hfind
      exact (hown m (List.mem_of_find?_eq_some hfind) (beq_iff_eq.mp hkey)).symm
  | none =>
      cases hs : J.matchOf s with
      | none => rfl
      | some m =>
          have hother := List.find?_eq_none.mp hfind m ((mem_found hfound).mpr (Or.inl hs))
          exact absurd (beq_iff_eq.mpr (J.matchKey_eq hs)) hother

/-- Where they do, the one declaration gets a row and the first declaration of its key another,
for each match. -/
theorem rows_length_of_clash (hclash : J.Clash (some s) decls)
    (hfound : found.Perm ((J.matchOf s).toList ++ decls.filterMap J.matchOf)) :
    ((J.singleRow (some s) found).toList ++ found.filterMap (J.joinRow decls)).length =
      found.length + 1 := by
  obtain ⟨s', hs', ⟨d, hd, hk⟩, e, he, hke, hmatch⟩ := hclash
  cases hs'
  have hall : ∀ m ∈ found, ∃ d ∈ decls, J.key d = J.matchKey m := by
    intro m hm
    rcases (mem_found hfound).mp hm with hm | ⟨d', hd', hm⟩
    · exact ⟨d, hd, hk.trans (J.matchKey_eq hm).symm⟩
    · exact ⟨d', hd', (J.matchKey_eq hm).symm⟩
  have hsingle : (J.singleRow (some s) found).isSome = true := by
    obtain ⟨m, hm⟩ := Option.isSome_iff_exists.mp hmatch
    have hmem : m ∈ found := by
      apply (mem_found hfound).mpr
      rcases List.mem_cons.mp he with rfl | he
      · exact Or.inl hm
      · exact Or.inr ⟨e, he, hm⟩
    unfold singleRow
    rw [Option.bind_some, Option.isSome_map, List.find?_isSome]
    exact ⟨m, hmem, beq_iff_eq.mpr ((J.matchKey_eq hm).trans hke)⟩
  obtain ⟨row, hrow⟩ := Option.isSome_iff_exists.mp hsingle
  rw [hrow, List.length_append, joined_length hall, Nat.add_comm]
  rfl

/-- A match of the one declaration finds nothing in a list without a clash. -/
theorem joinRow_single (hclash : ¬ J.Clash (some s) decls) :
    (J.matchOf s).toList.filterMap (J.joinRow decls) = [] := by
  apply List.filterMap_eq_nil_iff.mpr
  intro m hm
  rw [joinRow_eq (Option.mem_toList.mp hm)]
  cases hfirst : J.first decls (J.key s) with
  | none => rfl
  | some d =>
      exact absurd ⟨s, rfl, ⟨d, List.mem_of_find?_eq_some hfirst, first_key hfirst⟩, s,
        List.mem_cons_self, rfl, Option.isSome_of_mem (Option.mem_toList.mp hm)⟩ hclash

/-- With the one declaration apart, the rows are right if the keys do not clash and the
declarations look alike, and only then. -/
theorem rows_perm_iff (single : Option δ) (decls : List δ) (found : List μ)
    (hfound : found.Perm (single.toList.filterMap J.matchOf ++ decls.filterMap J.matchOf)) :
    ((J.singleRow single found).toList ++ found.filterMap (J.joinRow decls)).Perm
        (J.declared (single.toList ++ decls)) ↔
      ¬ J.Clash single decls ∧ J.Alike decls := by
  have hjoined := hfound.filterMap (J.joinRow decls)
  rw [List.filterMap_append] at hjoined
  have hdeclared : J.declared (single.toList ++ decls) =
      J.declared single.toList ++ J.declared decls := List.filterMap_append
  rw [hdeclared]
  cases single with
  | none =>
      have hnone : ¬ J.Clash none decls := by
        intro h
        obtain ⟨s, hs, -⟩ := h
        contradiction
      rw [and_iff_right hnone, ← joined_perm_iff]
      exact ⟨hjoined.symm.trans, hjoined.trans⟩
  | some s =>
      have hone : (some s).toList.filterMap J.matchOf = (J.matchOf s).toList := by
        cases hs : J.matchOf s <;> simp [hs]
      rw [hone] at hfound hjoined
      by_cases hclash : J.Clash (some s) decls
      · refine iff_of_false ?_ fun h => h.1 hclash
        intro hperm
        have hlength := hperm.length_eq
        rw [rows_length_of_clash hclash hfound, List.length_append, declared_length,
          declared_length, hone, hfound.length_eq, List.length_append] at hlength
        omega
      · have hsingle : ((J.matchOf s).map (J.build s)).toList = J.declared (some s).toList := by
          unfold declared
          cases hs : J.matchOf s <;> simp [hs]
        rw [joinRow_single hclash, List.nil_append] at hjoined
        rw [and_iff_right hclash, ← joined_perm_iff, singleRow_eq hclash hfound, hsingle,
          List.perm_append_left_iff]
        exact ⟨hjoined.symm.trans, hjoined.trans⟩

end Join

end NameJoin
