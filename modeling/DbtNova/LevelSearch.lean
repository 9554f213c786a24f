import Mathlib.Data.List.Nodup
import Mathlib.Data.Nat.Basic
import Mathlib.Tactic.Common

/-!
# Search level by level

A search that expands one level at a time and stops in the middle of a level when it has found
enough. A search that has not stopped has found the nodes within its depth.
-/
namespace LevelSearch

variable {ν : Type*}

structure State (ν : Type*) where
  seen : List ν
  found : List ν
  /-- what the next level expands -/
  level : List ν

section Search
variable [DecidableEq ν] (next : ν → List ν) (full : ℕ → Bool)

def visit (s : State ν) (v : ν) : State ν :=
  if full s.found.length then s
  else if v ∈ s.seen then s
  else ⟨v :: s.seen, s.found ++ [v], s.level ++ [v]⟩

def expand (s : State ν) (u : ν) : State ν :=
  if full s.found.length then s else (next u).foldl (visit full) s

def walk : ℕ → State ν → State ν
  | 0, s => s
  | depth + 1, s =>
      if s.level.isEmpty || full s.found.length then s
      else walk depth (s.level.foldl (expand next full) { s with level := [] })

def start (root : ν) : State ν := ⟨[root], [], [root]⟩

omit [DecidableEq ν] in
/-- A way of this many steps. -/
inductive Steps (root : ν) : ℕ → ν → Prop
  | root : Steps root 0 root
  | step {n : ℕ} {u v : ν} : Steps root n u → v ∈ next u → Steps root (n + 1) v

omit [DecidableEq ν] in
def Within (root : ν) (depth : ℕ) (v : ν) : Prop := ∃ n ≤ depth, Steps next root n v

end Search

/-! ## What a part of a level adds -/

section Grows
variable {s t u : State ν} {vs ws : List ν}

/-- What was found is what was seen behind the root, each once. -/
structure Kept (root : ν) (s : State ν) : Prop where
  nodup : s.found.Nodup
  fresh : root ∉ s.found
  seen : ∀ v, v ∈ s.seen ↔ v = root ∨ v ∈ s.found
  level : ∀ v ∈ s.level, v ∈ s.seen

/-- These nodes were visited, and the new ones among them put into the next level. -/
structure Grows (s t : State ν) (vs : List ν) : Prop where
  seen : ∀ v, v ∈ t.seen ↔ v ∈ s.seen ∨ v ∈ vs
  level : ∀ v, v ∈ t.level ↔ v ∈ s.level ∨ (v ∈ vs ∧ v ∉ s.seen)

theorem Grows.refl (s : State ν) : Grows s s [] := by
  constructor
  · intro v
    simp
  · intro v
    simp

theorem Grows.trans (h : Grows s t vs) (h' : Grows t u ws) : Grows s u (vs ++ ws) := by
  constructor
  · intro v
    rw [h'.seen, h.seen, List.mem_append, or_assoc]
  · intro v
    rw [h'.level, h.level, h.seen, List.mem_append]
    tauto

theorem foldl_length {f : State ν → ν → State ν}
    (hf : ∀ s v, s.found.length ≤ (f s v).found.length) (vs : List ν) (s : State ν) :
    s.found.length ≤ (vs.foldl f s).found.length := by
  induction vs generalizing s with
  | nil => exact le_refl _
  | cons v vs ih => exact Nat.le_trans (hf s v) (ih (f s v))

end Grows

section Visit
variable [DecidableEq ν] {next : ν → List ν} {full : ℕ → Bool} {root : ν} {s : State ν}

theorem visit_length (s : State ν) (v : ν) : s.found.length ≤ (visit full s v).found.length := by
  unfold visit
  split
  · exact le_refl _
  · split
    · exact le_refl _
    · rw [List.length_append]
      exact Nat.le_add_right _ _

theorem expand_length (s : State ν) (v : ν) :
    s.found.length ≤ (expand next full s v).found.length := by
  unfold expand
  split
  · exact le_refl _
  · exact foldl_length visit_length _ s

theorem walk_length (depth : ℕ) (s : State ν) :
    s.found.length ≤ (walk next full depth s).found.length := by
  induction depth generalizing s with
  | zero => exact le_refl _
  | succ depth ih =>
      unfold walk
      split
      · exact le_refl _
      · exact Nat.le_trans (foldl_length expand_length s.level { s with level := [] }) (ih _)

theorem visit_spec (hgoing : full s.found.length = false) (h : Kept root s) (v : ν) :
    Kept root (visit full s v) ∧ Grows s (visit full s v) [v] := by
  unfold visit
  rw [hgoing, if_neg Bool.false_ne_true]
  split
  · rename_i hseen
    refine ⟨h, ?_, ?_⟩
    · intro w
      rw [List.mem_singleton]
      constructor
      · exact Or.inl
      · intro hw
        cases hw with
        | inl hold => exact hold
        | inr hsame => exact hsame ▸ hseen
    · intro w
      rw [List.mem_singleton]
      constructor
      · exact Or.inl
      · intro hw
        cases hw with
        | inl hold => exact hold
        | inr hnew => exact absurd (hnew.1 ▸ hseen) hnew.2
  · rename_i hnew
    have hboth : v ≠ root ∧ v ∉ s.found := by
      rw [h.seen, not_or] at hnew
      exact hnew
    refine ⟨⟨?_, ?_, ?_, ?_⟩, ?_, ?_⟩
    · rw [List.nodup_append]
      refine ⟨h.nodup, List.nodup_singleton v, ?_⟩
      intro a ha b hb hab
      rw [List.mem_singleton.mp hb] at hab
      exact hboth.2 (hab ▸ ha)
    · rw [List.mem_append, List.mem_singleton, not_or]
      exact ⟨h.fresh, hboth.1.symm⟩
    · intro w
      dsimp only
      rw [List.mem_cons, h.seen, List.mem_append, List.mem_singleton]
      tauto
    · intro w hw
      cases List.mem_append.mp hw with
      | inl hold => exact List.mem_cons_of_mem _ (h.level w hold)
      | inr hlast =>
          rw [List.mem_singleton.mp hlast]
          exact List.mem_cons_self
    · intro w
      dsimp only
      rw [List.mem_cons, List.mem_singleton, or_comm]
    · intro w
      dsimp only
      rw [List.mem_append, List.mem_singleton]
      constructor
      · intro hw
        exact hw.imp_right fun hsame => ⟨hsame, hsame ▸ hnew⟩
      · intro hw
        exact hw.imp_right And.left

variable (hmono : ∀ m n, m ≤ n → full m = true → full n = true)
include hmono

theorem going_of_le {m n : ℕ} (hle : m ≤ n) (h : full n = false) : full m = false := by
  cases hm : full m with
  | false => rfl
  | true =>
      rw [hmono m n hle hm] at h
      contradiction

omit [DecidableEq ν] in
/-- A loop whose body adds `added v` for each `v`. -/
theorem foldl_spec {f : State ν → ν → State ν} {added : ν → List ν}
    (hlength : ∀ s v, s.found.length ≤ (f s v).found.length)
    (hf : ∀ s v, full (f s v).found.length = false → Kept root s →
      Kept root (f s v) ∧ Grows s (f s v) (added v))
    (vs : List ν) (s : State ν) (hgoing : full (vs.foldl f s).found.length = false)
    (h : Kept root s) :
    Kept root (vs.foldl f s) ∧ Grows s (vs.foldl f s) (vs.flatMap added) := by
  induction vs generalizing s with
  | nil => exact ⟨h, Grows.refl s⟩
  | cons v vs ih =>
      rw [List.foldl_cons] at hgoing ⊢
      have hfirst := going_of_le hmono (foldl_length hlength vs (f s v)) hgoing
      obtain ⟨hkept, hgrows⟩ := hf s v hfirst h
      obtain ⟨hkept', hgrows'⟩ := ih (f s v) hgoing hkept
      exact ⟨hkept', hgrows.trans hgrows'⟩

theorem expand_spec (v : ν) (s : State ν)
    (hgoing : full (expand next full s v).found.length = false) (h : Kept root s) :
    Kept root (expand next full s v) ∧ Grows s (expand next full s v) (next v) := by
  have hbefore := going_of_le hmono (expand_length s v) hgoing
  unfold expand at hgoing ⊢
  rw [hbefore, if_neg Bool.false_ne_true] at hgoing ⊢
  have hspec := foldl_spec hmono visit_length
    (fun s v hv h => visit_spec (going_of_le hmono (visit_length s v) hv) h v) (next v) s hgoing h
  rw [List.flatMap_singleton'] at hspec
  exact hspec

end Visit

/-! ## A run -/

section Levels
variable {next : ν → List ν} {root : ν}

/-- After so many levels the nodes within that depth are seen, and all but the last level are
expanded. -/
structure Inv (next : ν → List ν) (root : ν) (depth : ℕ) (s : State ν) : Prop
    extends Kept root s where
  within : ∀ v, v ∈ s.seen ↔ Within next root depth v
  closed : ∀ u ∈ s.seen, u ∉ s.level → ∀ v ∈ next u, v ∈ s.seen

theorem start_inv (next : ν → List ν) (root : ν) : Inv next root 0 (start root) := by
  refine ⟨⟨List.nodup_nil, List.not_mem_nil, ?_, fun v hv => hv⟩, ?_, ?_⟩
  · intro v
    simp [start]
  · intro v
    constructor
    · intro hv
      rw [List.mem_singleton.mp hv]
      exact ⟨0, le_refl 0, Steps.root⟩
    · intro h
      obtain ⟨n, hn, hsteps⟩ := h
      cases hsteps with
      | root => exact List.mem_singleton_self root
      | step _ _ => contradiction
  · intro u hu hlevel
    exact absurd hu hlevel

theorem within_succ {depth : ℕ} {v : ν} : Within next root (depth + 1) v ↔
    Within next root depth v ∨ ∃ u, Within next root depth u ∧ v ∈ next u := by
  constructor
  · intro h
    obtain ⟨n, hn, hsteps⟩ := h
    cases hsteps with
    | root => exact Or.inl ⟨0, Nat.zero_le _, Steps.root⟩
    | @step m u _ hu hv => exact Or.inr ⟨u, ⟨m, by omega, hu⟩, hv⟩
  · intro h
    cases h with
    | inl hold =>
        obtain ⟨n, hn, hsteps⟩ := hold
        exact ⟨n, by omega, hsteps⟩
    | inr hstep =>
        obtain ⟨u, ⟨n, hn, hsteps⟩, hv⟩ := hstep
        exact ⟨n + 1, by omega, Steps.step hsteps hv⟩

/-- Nothing is left to expand. -/
theorem Inv.done {depth more : ℕ} {s : State ν} (h : Inv next root depth s)
    (hlevel : s.level = []) : Inv next root (depth + more) s := by
  induction more with
  | zero => exact h
  | succ more ih =>
      refine ⟨ih.toKept, ?_, ih.closed⟩
      intro v
      rw [← Nat.add_assoc, within_succ, ← ih.within]
      constructor
      · exact Or.inl
      · intro hv
        cases hv with
        | inl hold => exact hold
        | inr hstep =>
            obtain ⟨u, hu, hnext⟩ := hstep
            rw [← ih.within] at hu
            refine ih.closed u hu ?_ v hnext
            rw [hlevel]
            exact List.not_mem_nil

end Levels

section Run
variable [DecidableEq ν] {next : ν → List ν} {full : ℕ → Bool} {root : ν}
  (hmono : ∀ m n, m ≤ n → full m = true → full n = true)
include hmono

theorem level_inv {depth : ℕ} {s : State ν} (h : Inv next root depth s)
    (hgoing : full (s.level.foldl (expand next full) { s with level := [] }).found.length =
      false) :
    Inv next root (depth + 1) (s.level.foldl (expand next full) { s with level := [] }) := by
  have hempty : Kept root { s with level := [] } :=
    ⟨h.nodup, h.fresh, h.seen, fun _ hv => absurd hv List.not_mem_nil⟩
  obtain ⟨hkept, hgrows⟩ := foldl_spec hmono expand_length
    (fun s v hv hs => expand_spec hmono v s hv hs) s.level { s with level := [] } hgoing hempty
  refine ⟨hkept, ?_, ?_⟩
  · intro v
    rw [hgrows.seen, within_succ, ← h.within]
    constructor
    · intro hv
      cases hv with
      | inl hold => exact Or.inl hold
      | inr hnew =>
          obtain ⟨u, hu, hnext⟩ := List.mem_flatMap.mp hnew
          exact Or.inr ⟨u, (h.within u).mp (h.level u hu), hnext⟩
    · intro hv
      cases hv with
      | inl hold => exact Or.inl hold
      | inr hstep =>
          obtain ⟨u, hu, hnext⟩ := hstep
          by_cases hlevel : u ∈ s.level
          · exact Or.inr (List.mem_flatMap.mpr ⟨u, hlevel, hnext⟩)
          · exact Or.inl (h.closed u ((h.within u).mpr hu) hlevel v hnext)
  · intro u hu hlevel v hnext
    rw [hgrows.level] at hlevel
    rw [hgrows.seen] at hu ⊢
    by_cases hold : u ∈ s.seen
    · by_cases hlast : u ∈ s.level
      · exact Or.inr (List.mem_flatMap.mpr ⟨u, hlast, hnext⟩)
      · exact Or.inl (h.closed u hold hlast v hnext)
    · exact absurd (Or.inr ⟨hu.resolve_left hold, hold⟩) hlevel

theorem walk_inv {depth more : ℕ} {s : State ν} (h : Inv next root depth s)
    (hgoing : full (walk next full more s).found.length = false) :
    Inv next root (depth + more) (walk next full more s) := by
  induction more generalizing depth s with
  | zero => exact h
  | succ more ih =>
      unfold walk at hgoing ⊢
      cases hlevel : s.level.isEmpty with
      | true =>
          rw [Bool.true_or, if_pos rfl]
          exact h.done (List.isEmpty_iff.mp hlevel)
      | false =>
          cases hfull : full s.found.length with
          | true =>
              rw [hfull, Bool.or_true, if_pos rfl, hfull] at hgoing
              contradiction
          | false =>
              rw [hlevel, hfull, Bool.false_or, if_neg Bool.false_ne_true] at hgoing
              rw [Bool.false_or, if_neg Bool.false_ne_true]
              have hnext := going_of_le hmono (walk_length more _) hgoing
              have hrest := ih (level_inv hmono h hnext) hgoing
              rwa [Nat.add_assoc, Nat.add_comm 1 more] at hrest

/-- A search that has not stopped has found what is within its depth, without the root. -/
theorem walk_spec {depth : ℕ}
    (hgoing : full (walk next full depth (start root)).found.length = false) :
    (walk next full depth (start root)).found.Nodup ∧
      ∀ v, v ∈ (walk next full depth (start root)).found ↔
        v ≠ root ∧ Within next root depth v := by
  have hinv := walk_inv hmono (start_inv next root) hgoing
  rw [Nat.zero_add] at hinv
  refine ⟨hinv.nodup, ?_⟩
  intro v
  rw [← hinv.within, hinv.seen]
  constructor
  · intro hv
    refine ⟨?_, Or.inr hv⟩
    intro hroot
    exact hinv.fresh (hroot ▸ hv)
  · intro hv
    exact hv.2.resolve_left hv.1

end Run

end LevelSearch
