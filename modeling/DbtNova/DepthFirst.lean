import Mathlib.Data.Finset.Card
import Mathlib.Data.Finset.Insert
import Mathlib.Data.List.Chain
import Mathlib.Data.List.Rotate
import Mathlib.Logic.Relation
import Mathlib.Tactic.Common

/-!
# Depth first search for cycles

A search that enters the nodes along a path, leaves a node when all ways out of it have been
tried, and reports the end of the path as a cycle when a way leads back into the path. While
nothing is reported, every node that was left is one from which all ways end.
-/
namespace DepthFirst

variable {ν : Type*}

section Graph
variable (next : ν → List ν)

def Edge (u v : ν) : Prop := v ∈ next u

/-- No way leads from a node back to it. -/
def Acyclic : Prop := ∀ u, ¬ Relation.TransGen (Edge next) u u

/-- The nodes of a closed way that meets none of them twice. -/
structure Cycle (nodes : List ν) : Prop where
  nonempty : nodes ≠ []
  nodup : nodes.Nodup
  chain : nodes.IsChain (Edge next)
  closed : Edge next (nodes.getLast nonempty) (nodes.head nonempty)

/-- All ways out of the node end. -/
def Settled (u : ν) : Prop := Acc (fun v w => Edge next w v) u

variable {next}

theorem Cycle.not_acyclic {nodes : List ν} (h : Cycle next nodes) : ¬ Acyclic next := by
  intro hacyclic
  have hway : Relation.ReflTransGen (Edge next) (nodes.head h.nonempty)
      (nodes.getLast h.nonempty) :=
    List.relationReflTransGen_of_exists_isChain nodes h.chain h.nonempty
  exact hacyclic _ (Relation.TransGen.tail' hway h.closed)

theorem acyclic_of_settled (h : ∀ u, Settled next u) : Acyclic next := by
  intro u hu
  have hwf : WellFounded (fun v w => Edge next w v) := ⟨h⟩
  have hswap : Relation.TransGen (fun v w => Edge next w v) u u := Relation.transGen_swap.mp hu
  exact hwf.transGen.asymmetric u u hswap hswap

theorem settled_of_next {u : ν} (h : ∀ v ∈ next u, Settled next v) : Settled next u :=
  Acc.intro u h

end Graph

section Search
variable {next : ν → List ν}

structure State (ν : Type*) where
  visited : Finset ν
  path : List ν
  cycles : List (List ν)

/-- The path can be followed by `v`. -/
def Follows (next : ν → List ν) (path : List ν) (v : ν) : Prop :=
  ∀ last ∈ path.getLast?, Edge next last v

structure Inv (next : ν → List ν) (s : State ν) : Prop where
  nodup : s.path.Nodup
  chain : s.path.IsChain (Edge next)
  visited : ∀ u ∈ s.path, u ∈ s.visited
  cycles : ∀ nodes ∈ s.cycles, Cycle next nodes
  /-- Nothing is open behind a node that was left. -/
  settled : s.cycles = [] → ∀ u ∈ s.visited, u ∉ s.path → Settled next u

theorem inv_init (next : ν → List ν) : Inv next ⟨∅, [], []⟩ where
  nodup := List.nodup_nil
  chain := List.IsChain.nil
  visited := fun _ hu => absurd hu List.not_mem_nil
  cycles := fun _ hnodes => absurd hnodes List.not_mem_nil
  settled := fun _ u hu => absurd hu (Finset.notMem_empty u)

variable {s t : State ν} {v : ν} (h : Inv next s)
include h

theorem Inv.enter [DecidableEq ν] (hnew : v ∉ s.visited) (hv : Follows next s.path v) :
    Inv next { s with visited := insert v s.visited, path := s.path ++ [v] } where
  nodup := by
    apply List.nodup_append.mpr
    refine ⟨h.nodup, List.nodup_singleton v, ?_⟩
    intro a ha b hb hab
    rw [List.mem_singleton.mp hb] at hab
    exact hnew (hab ▸ h.visited a ha)
  chain := by
    apply h.chain.append (List.IsChain.singleton v)
    intro last hlast w hw
    rw [List.head?_cons, Option.mem_some_iff] at hw
    exact hw ▸ hv last hlast
  visited := by
    intro u hu
    cases List.mem_append.mp hu with
    | inl hold => exact Finset.mem_insert_of_mem (h.visited u hold)
    | inr hnew => exact Finset.mem_insert.mpr (Or.inl (List.mem_singleton.mp hnew))
  cycles := h.cycles
  settled := by
    intro hnone u hu hpath
    rw [List.mem_append, List.mem_singleton] at hpath
    cases Finset.mem_insert.mp hu with
    | inl hv => exact absurd (Or.inr hv) hpath
    | inr hold => exact h.settled hnone u hold (fun hin => hpath (Or.inl hin))

theorem Inv.leave {path : List ν} (hpath : s.path = path ++ [v])
    (hv : s.cycles = [] → Settled next v) : Inv next { s with path := path } where
  nodup := by
    have hnodup := h.nodup
    rw [hpath] at hnodup
    exact (List.nodup_append.mp hnodup).1
  chain := by
    have hchain := h.chain
    rw [hpath] at hchain
    exact hchain.left_of_append
  visited := fun u hu => h.visited u (hpath ▸ List.mem_append_left _ hu)
  cycles := h.cycles
  settled := by
    intro hnone u hu hout
    by_cases huv : u = v
    · exact huv ▸ hv hnone
    · apply h.settled hnone u hu
      rw [hpath, List.mem_append, List.mem_singleton]
      exact not_or.mpr ⟨hout, huv⟩

/-- The end of the path from a node of it on, when a way leads back to that node. -/
theorem Inv.cycle {before after : List ν} (hpath : s.path = before ++ v :: after)
    (hv : Follows next s.path v) : Cycle next (v :: after) where
  nonempty := List.cons_ne_nil v after
  nodup := by
    have hnodup := h.nodup
    rw [hpath] at hnodup
    exact (List.nodup_append.mp hnodup).2.1
  chain := by
    have hchain := h.chain
    rw [hpath] at hchain
    exact hchain.right_of_append
  closed := by
    apply hv
    rw [hpath, List.getLast?_append_of_ne_nil _ (List.cons_ne_nil v after),
      List.getLast?_eq_getLast_of_ne_nil]
    exact rfl

theorem Inv.report {nodes : List ν} (hnodes : Cycle next nodes) :
    Inv next { s with cycles := s.cycles ++ [nodes] } where
  nodup := h.nodup
  chain := h.chain
  visited := h.visited
  cycles := by
    intro other hother
    cases List.mem_append.mp hother with
    | inl hold => exact h.cycles other hold
    | inr hnew => exact List.mem_singleton.mp hnew ▸ hnodes
  settled := by
    intro hnone
    exact absurd hnone (List.append_ne_nil_of_right_ne_nil _ (List.cons_ne_nil nodes []))

end Search

/-! ## The least rotation -/

section Rotation
variable {κ : Type*} [LinearOrder κ]

def better (best : Option κ) (key : κ) : Option κ :=
  match best with
  | none => some key
  | some current => if key < current then some key else some current

/-- The first of the least keys. -/
def least (keys : List κ) : Option κ := keys.foldl better none

theorem foldl_better (keys : List κ) (first : κ) :
    keys.foldl better (some first) = some (keys.foldl min first) := by
  induction keys generalizing first with
  | nil => rfl
  | cons key keys ih =>
      have hkey : better (some first) key = some (min first key) := by
        change (if key < first then some key else some first) = _
        rw [min_comm, min_def_lt, apply_ite some]
      rw [List.foldl_cons, List.foldl_cons, hkey, ih]

theorem least_eq_min? (keys : List κ) : least keys = keys.min? := by
  cases keys with
  | nil => rfl
  | cons key keys => exact foldl_better keys key

theorem least_congr {keys keys' : List κ} (h : ∀ key, key ∈ keys ↔ key ∈ keys') :
    least keys = least keys' := by
  rw [least_eq_min?, least_eq_min?]
  ext key
  rw [List.min?_eq_some_iff, List.min?_eq_some_iff]
  simp only [h]

/-- The least key over the rotations is one of the rotation class. -/
theorem least_rotations (key : List ν → κ) {nodes nodes' : List ν} (h : nodes ~r nodes') :
    least ((List.range nodes.length).map fun start => key (nodes.rotate start)) =
      least ((List.range nodes'.length).map fun start => key (nodes'.rotate start)) := by
  have hmem : ∀ {nodes nodes' : List ν}, nodes ~r nodes' → ∀ k : κ,
      k ∈ ((List.range nodes.length).map fun start => key (nodes.rotate start)) →
        k ∈ ((List.range nodes'.length).map fun start => key (nodes'.rotate start)) := by
    intro nodes nodes' h k hk
    obtain ⟨start, hstart, hkey⟩ := List.mem_map.mp hk
    have hpos : 0 < nodes.length := (Nat.zero_le start).trans_lt (List.mem_range.mp hstart)
    obtain ⟨n, hn⟩ := h.symm
    rw [h.perm.length_eq] at hpos
    refine List.mem_map.mpr ⟨(n + start) % nodes'.length, ?_, ?_⟩
    · exact List.mem_range.mpr (Nat.mod_lt _ hpos)
    · rw [List.rotate_mod, ← List.rotate_rotate, hn, hkey]
  exact least_congr (fun k => ⟨hmem h k, hmem h.symm k⟩)

end Rotation
end DepthFirst
