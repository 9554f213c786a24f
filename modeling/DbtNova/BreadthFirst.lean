import Mathlib.Data.Finset.Card
import Mathlib.Data.Finset.Basic
import Mathlib.Tactic.Common

/-!
# Breadth-first search

A search that takes nodes from a queue and puts each node that it has not seen at the end
of it. Nodes at the bound are not looked behind. The search is told by its steps: the nodes
it finds, in their order, each with the node it was found from.
-/
namespace BreadthFirst

variable {ν : Type*}

structure Step (ν : Type*) where
  source : ν
  target : ν
  depth : ℕ
  /-- how many nodes were in the queue -/
  waiting : ℕ

structure State (ν : Type*) where
  seen : List ν
  queue : List (ν × ℕ)
  steps : List (Step ν)

section Search
variable [DecidableEq ν] (next : ν → List ν) (bound : ℕ)

def visit (u : ν) (depth : ℕ) (s : State ν) (v : ν) : State ν :=
  if v ∈ s.seen then s
  else
    { seen := v :: s.seen
      queue := s.queue ++ [(v, depth + 1)]
      steps := s.steps ++ [⟨u, v, depth + 1, s.queue.length⟩] }

/-- The node that was taken from the queue. -/
def scan (u : ν) (depth : ℕ) (s : State ν) : State ν :=
  if bound ≤ depth then s else (next u).foldl (visit u depth) s

def search : ℕ → State ν → Option (State ν)
  | 0, _ => none
  | fuel + 1, s =>
      match s.queue with
      | [] => some s
      | (u, depth) :: rest => search fuel (scan next bound u depth { s with queue := rest })

def start (root : ν) : State ν where
  seen := [root]
  queue := [(root, 0)]
  steps := []

/-- The steps of the search over a graph with these nodes. -/
def steps (nodes : List ν) (root : ν) : List (Step ν) :=
  match search next bound (nodes.length + 2) (start root) with
  | some s => s.steps
  | none => []

end Search

/-! ## The end of the search -/

section Total
variable [DecidableEq ν] {next : ν → List ν} {bound : ℕ} {nodes : List ν}

/-- The nodes in the queue and those that may still come into it. -/
def potential (nodes : List ν) (s : State ν) : ℕ :=
  s.queue.length + (nodes.toFinset \ s.seen.toFinset).card

theorem potential_visit {u v : ν} {depth : ℕ} (s : State ν) (hv : v ∈ nodes) :
    potential nodes (visit u depth s v) = potential nodes s := by
  unfold visit
  split
  · rfl
  · rename_i hnew
    unfold potential
    have hmem : v ∈ nodes.toFinset \ s.seen.toFinset :=
      Finset.mem_sdiff.mpr ⟨List.mem_toFinset.mpr hv, fun h => hnew (List.mem_toFinset.mp h)⟩
    have hpos := Finset.card_pos.mpr ⟨v, hmem⟩
    rw [List.toFinset_cons, List.length_append, List.length_singleton, Finset.sdiff_insert,
      Finset.card_erase_of_mem hmem]
    omega

theorem potential_scan {u : ν} {depth : ℕ} (s : State ν) (hu : ∀ v ∈ next u, v ∈ nodes) :
    potential nodes (scan next bound u depth s) = potential nodes s := by
  unfold scan
  split
  · rfl
  · generalize next u = todo at hu
    induction todo generalizing s with
    | nil => rfl
    | cons v todo ih =>
        rw [List.forall_mem_cons] at hu
        rw [List.foldl_cons, ih _ hu.2, potential_visit s hu.1]

theorem search_total (hnodes : ∀ u, ∀ v ∈ next u, v ∈ nodes) (fuel : ℕ) (s : State ν)
    (hfuel : potential nodes s < fuel) : ∃ s', search next bound fuel s = some s' := by
  induction fuel generalizing s with
  | zero => omega
  | succ fuel ih =>
      unfold search
      cases hqueue : s.queue with
      | nil => exact ⟨s, rfl⟩
      | cons entry rest =>
          apply ih
          rw [potential_scan _ (hnodes entry.1)]
          unfold potential at hfuel ⊢
          rw [hqueue, List.length_cons] at hfuel
          dsimp only
          omega

/-- The steps are those of a search that ends. -/
theorem exists_search (bound : ℕ) (hnodes : ∀ u, ∀ v ∈ next u, v ∈ nodes) (root : ν) :
    ∃ s, search next bound (nodes.length + 2) (start root) = some s ∧
      steps next bound nodes root = s.steps := by
  have hpotential : potential nodes (start root) < nodes.length + 2 := by
    unfold potential start
    have hsub : nodes.toFinset \ [root].toFinset ⊆ nodes.toFinset := Finset.sdiff_subset
    have hle := Finset.card_le_card hsub
    have hcard := List.toFinset_card_le nodes
    rw [List.length_singleton]
    dsimp only
    omega
  obtain ⟨s, hs⟩ := search_total hnodes _ (start root) hpotential
  refine ⟨s, hs, ?_⟩
  unfold steps
  rw [hs]

end Total

/-! ## What the steps tell -/

section Structure
variable {next : ν → List ν} {bound : ℕ} {root : ν}

/-- The source of a step is the root or the target of a step before it. -/
def Follows (root : ν) (before : List (Step ν)) (u : ν) (depth : ℕ) : Prop :=
  (u = root ∧ depth = 0) ∨ ∃ e ∈ before, e.target = u ∧ e.depth = depth

structure Inv (next : ν → List ν) (bound : ℕ) (root : ν) (s : State ν) : Prop where
  seen : s.seen = (s.steps.map Step.target).reverse ++ [root]
  nodup : s.seen.Nodup
  queue : ∀ entry ∈ s.queue, Follows root s.steps entry.1 entry.2
  edge : ∀ e ∈ s.steps, e.target ∈ next e.source ∧ e.depth ≤ bound
  source : ∀ before e, before ++ [e] <+: s.steps →
    ∃ depth, e.depth = depth + 1 ∧ Follows root before e.source depth

theorem Follows.append {before : List (Step ν)} {u : ν} {depth : ℕ}
    (h : Follows root before u depth) (more : List (Step ν)) :
    Follows root (before ++ more) u depth := by
  cases h with
  | inl hroot => exact Or.inl hroot
  | inr hstep =>
      obtain ⟨e, he, htarget⟩ := hstep
      exact Or.inr ⟨e, List.mem_append_left more he, htarget⟩

theorem pop_inv {s : State ν} (h : Inv next bound root s) {entry : ν × ℕ} {rest : List (ν × ℕ)}
    (hqueue : s.queue = entry :: rest) :
    Inv next bound root { s with queue := rest } ∧ Follows root s.steps entry.1 entry.2 := by
  constructor
  · refine ⟨h.seen, h.nodup, ?_, h.edge, h.source⟩
    intro other hother
    apply h.queue
    rw [hqueue]
    exact List.mem_cons_of_mem entry hother
  · apply h.queue
    rw [hqueue]
    exact List.mem_cons_self

theorem start_inv (next : ν → List ν) (bound : ℕ) (root : ν) :
    Inv next bound root (start root) := by
  constructor
  · rfl
  · exact List.nodup_singleton root
  · intro entry hentry
    rw [List.mem_singleton.mp hentry]
    exact Or.inl ⟨rfl, rfl⟩
  · intro e he
    exact absurd he List.not_mem_nil
  · intro before e hfront
    exact absurd (List.prefix_nil.mp hfront) (List.append_ne_nil_of_right_ne_nil _
      (List.cons_ne_nil _ _))

/-- All that the proofs use of the steps. -/
structure Spec (next : ν → List ν) (bound : ℕ) (root : ν) (steps : List (Step ν)) : Prop where
  nodup : (root :: steps.map Step.target).Nodup
  edge : ∀ e ∈ steps, e.target ∈ next e.source ∧ e.depth ≤ bound
  source : ∀ before e, before ++ [e] <+: steps →
    ∃ depth, e.depth = depth + 1 ∧ Follows root before e.source depth
  nearby : 0 < bound → ∀ v ∈ next root, v ≠ root → ∃ e ∈ steps, e.target = v ∧ e.depth = 1

section Facts
variable {steps : List (Step ν)} (h : Spec next bound root steps)
include h

theorem Spec.unique {e e' : Step ν} (he : e ∈ steps) (he' : e' ∈ steps)
    (htarget : e.target = e'.target) : e = e' :=
  List.inj_on_of_nodup_map (List.nodup_cons.mp h.nodup).2 he he' htarget

theorem Spec.target_ne_root {e : Step ν} (he : e ∈ steps) : e.target ≠ root := by
  intro htarget
  apply (List.nodup_cons.mp h.nodup).1
  rw [← htarget]
  exact List.mem_map_of_mem he

theorem Spec.source_of_mem {e : Step ν} (he : e ∈ steps) :
    ∃ depth, e.depth = depth + 1 ∧ Follows root steps e.source depth := by
  obtain ⟨before, behind, hsplit⟩ := List.append_of_mem he
  have hfront : before ++ [e] <+: steps := ⟨behind, by rw [hsplit]; simp⟩
  obtain ⟨depth, hdepth, hfollows⟩ := h.source before e hfront
  refine ⟨depth, hdepth, ?_⟩
  rw [hsplit]
  exact hfollows.append _

/-- Only the root is the source of a step of depth one. -/
theorem Spec.source_eq_root_iff {e : Step ν} (he : e ∈ steps) :
    e.source = root ↔ e.depth = 1 := by
  obtain ⟨depth, hdepth, hfollows⟩ := h.source_of_mem he
  cases hfollows with
  | inl hroot => exact iff_of_true hroot.1 (by omega)
  | inr hstep =>
      obtain ⟨e', he', htarget, hdepth'⟩ := hstep
      obtain ⟨depth', hpos, -⟩ := h.source_of_mem he'
      apply iff_of_false
      · rw [← htarget]
        exact h.target_ne_root he'
      · omega

theorem Spec.depth_eq_one_iff {e : Step ν} (he : e ∈ steps) :
    e.depth = 1 ↔ e.target ∈ next root := by
  constructor
  · intro hdepth
    rw [← (h.source_eq_root_iff he).mpr hdepth]
    exact (h.edge e he).1
  · intro hmem
    obtain ⟨depth, hdepth, -⟩ := h.source_of_mem he
    have hle := (h.edge e he).2
    obtain ⟨e', he', htarget, hone⟩ :=
      h.nearby (by omega) e.target hmem (h.target_ne_root he)
    rw [h.unique he he' htarget.symm]
    exact hone

end Facts

end Structure

section Invariant
variable [DecidableEq ν] {next : ν → List ν} {bound : ℕ} {root : ν}

theorem visit_inv {s : State ν} (h : Inv next bound root s) {u v : ν} {depth : ℕ}
    (hu : Follows root s.steps u depth) (hv : v ∈ next u) (hdepth : depth < bound) :
    Inv next bound root (visit u depth s v) := by
  unfold visit
  split
  · exact h
  · rename_i hnew
    constructor
    · dsimp only
      rw [List.map_append, List.reverse_append, h.seen]
      rfl
    · exact List.nodup_cons.mpr ⟨hnew, h.nodup⟩
    · intro entry hentry
      cases List.mem_append.mp hentry with
      | inl hold => exact (h.queue entry hold).append _
      | inr hlast =>
          rw [List.mem_singleton.mp hlast]
          exact Or.inr ⟨_, List.mem_append_right _ (List.mem_singleton_self _), rfl, rfl⟩
    · intro e he
      cases List.mem_append.mp he with
      | inl hold => exact h.edge e hold
      | inr hlast =>
          rw [List.mem_singleton.mp hlast]
          exact ⟨hv, hdepth⟩
    · intro before e hfront
      cases List.prefix_concat_iff.mp hfront with
      | inl hlast =>
          obtain ⟨rfl, he⟩ := List.append_inj' hlast rfl
          cases he
          exact ⟨depth, rfl, hu⟩
      | inr hold => exact h.source before e hold

theorem visit_follows {s : State ν} {u v w : ν} {depth cost : ℕ}
    (h : Follows root s.steps u depth) : Follows root (visit w cost s v).steps u depth := by
  unfold visit
  split
  · exact h
  · exact h.append _

theorem foldl_inv {todo : List ν} {s : State ν} (h : Inv next bound root s) {u : ν} {depth : ℕ}
    (hu : Follows root s.steps u depth) (htodo : ∀ v ∈ todo, v ∈ next u) (hdepth : depth < bound) :
    Inv next bound root (todo.foldl (visit u depth) s) := by
  induction todo generalizing s with
  | nil => exact h
  | cons v todo ih =>
      rw [List.forall_mem_cons] at htodo
      exact ih (visit_inv h hu htodo.1 hdepth) (visit_follows hu) htodo.2

theorem scan_inv {s : State ν} (h : Inv next bound root s) {u : ν} {depth : ℕ}
    (hu : Follows root s.steps u depth) : Inv next bound root (scan next bound u depth s) := by
  unfold scan
  split
  · exact h
  · rename_i hbound
    exact foldl_inv h hu (fun _ hv => hv) (Nat.not_le.mp hbound)

theorem search_inv {fuel : ℕ} {s s' : State ν} (h : Inv next bound root s)
    (hrun : search next bound fuel s = some s') : Inv next bound root s' := by
  induction fuel generalizing s with
  | zero => contradiction
  | succ fuel ih =>
      unfold search at hrun
      cases hqueue : s.queue with
      | nil =>
          rw [hqueue] at hrun
          cases hrun
          exact h
      | cons entry rest =>
          rw [hqueue] at hrun
          obtain ⟨hrest, hentry⟩ := pop_inv h hqueue
          exact ih (scan_inv hrest hentry) hrun

/-! ## Steps are only added -/

theorem visit_steps (u : ν) (depth : ℕ) (s : State ν) (v : ν) :
    s.steps <+: (visit u depth s v).steps := by
  unfold visit
  split
  · exact List.prefix_rfl
  · exact List.prefix_append _ _

theorem foldl_steps (todo : List ν) (u : ν) (depth : ℕ) (s : State ν) :
    s.steps <+: (todo.foldl (visit u depth) s).steps := by
  induction todo generalizing s with
  | nil => exact List.prefix_rfl
  | cons v todo ih => exact (visit_steps u depth s v).trans (ih _)

theorem scan_steps (next : ν → List ν) (bound : ℕ) (u : ν) (depth : ℕ) (s : State ν) :
    s.steps <+: (scan next bound u depth s).steps := by
  unfold scan
  split
  · exact List.prefix_rfl
  · exact foldl_steps _ u depth s

theorem search_steps {fuel : ℕ} {s s' : State ν} (hrun : search next bound fuel s = some s') :
    s.steps <+: s'.steps := by
  induction fuel generalizing s with
  | zero => contradiction
  | succ fuel ih =>
      unfold search at hrun
      cases hqueue : s.queue with
      | nil =>
          rw [hqueue] at hrun
          cases hrun
          exact List.prefix_rfl
      | cons entry rest =>
          rw [hqueue] at hrun
          exact (scan_steps next bound entry.1 entry.2 { s with queue := rest }).trans (ih hrun)

/-! ## The nodes next to the root -/

theorem foldl_found (todo : List ν) (u : ν) (depth : ℕ) (s : State ν) :
    ∀ v ∈ todo, v ∈ s.seen ∨
      ∃ e ∈ (todo.foldl (visit u depth) s).steps, e.target = v ∧ e.depth = depth + 1 := by
  induction todo generalizing s with
  | nil => exact fun v hv => absurd hv List.not_mem_nil
  | cons w todo ih =>
      intro v hv
      rw [List.foldl_cons]
      by_cases hseen : v ∈ s.seen
      · exact Or.inl hseen
      · right
        by_cases hvw : v = w
        · -- the node that is found now
          have hstep : (visit u depth s w).steps =
              s.steps ++ [⟨u, w, depth + 1, s.queue.length⟩] := by
            unfold visit
            rw [if_neg (hvw ▸ hseen)]
          refine ⟨⟨u, w, depth + 1, s.queue.length⟩, ?_, hvw.symm, rfl⟩
          apply (foldl_steps todo u depth _).subset
          rw [hstep]
          exact List.mem_append_right _ (List.mem_singleton_self _)
        · cases ih (visit u depth s w) v ((List.mem_cons.mp hv).resolve_left hvw) with
          | inr hfound => exact hfound
          | inl hlater =>
              unfold visit at hlater
              split at hlater
              · exact absurd hlater hseen
              · exact absurd ((List.mem_cons.mp hlater).resolve_left hvw) hseen

variable {nodes : List ν}

theorem steps_spec (bound : ℕ) (hnodes : ∀ u, ∀ v ∈ next u, v ∈ nodes) (root : ν) :
    Spec next bound root (steps next bound nodes root) := by
  obtain ⟨s, hs, hsteps⟩ := exists_search bound hnodes root
  have hinv := search_inv (start_inv next bound root) hs
  rw [hsteps]
  refine ⟨?_, hinv.edge, hinv.source, ?_⟩
  · have hnodup := hinv.nodup
    rw [hinv.seen] at hnodup
    have hreverse := List.nodup_reverse.mpr hnodup
    rwa [List.reverse_append, List.reverse_reverse] at hreverse
  · intro hbound v hv hroot
    -- the first turn finds them
    have hfirst : search next bound (nodes.length + 1)
        (scan next bound root 0 { start root with queue := [] }) = some s := hs
    have hscan : scan next bound root 0 { start root with queue := [] } =
        (next root).foldl (visit root 0) { start root with queue := [] } :=
      if_neg (Nat.not_le.mpr hbound)
    have hfound := foldl_found (next root) root 0 { start root with queue := [] } v hv
    rw [← hscan] at hfound
    cases hfound with
    | inl hseen => exact absurd (List.mem_singleton.mp hseen) hroot
    | inr hstep =>
        obtain ⟨e, he, htarget⟩ := hstep
        exact ⟨e, (search_steps hfirst).subset he, htarget⟩

end Invariant

end BreadthFirst
