import Mathlib.Algebra.BigOperators.Group.Finset.Basic
import Mathlib.Algebra.Order.BigOperators.Group.Finset
import Mathlib.Tactic.Common

/-!
# Label correcting search

A search that takes nodes from a queue in any order of their costs, and puts a node back
when it finds a cheaper way to it. Entering a node has a weight; ways above a bound are not
followed. At the end the labels are the least costs of the ways from the root.
-/
namespace LabelCorrecting

variable {ν : Type*}

structure State (ν : Type*) where
  label : ν → Option ℕ
  queue : List (ν × ℕ)

section Search
variable [DecidableEq ν] (next : ν → List ν) (weight : ν → ℕ) (bound : ℕ)

def State.put (s : State ν) (v : ν) (cost : ℕ) : State ν where
  label := Function.update s.label v (some cost)
  queue := s.queue ++ [(v, cost)]

def init (root : ν) : State ν := State.put ⟨fun _ => none, []⟩ root 0

omit [DecidableEq ν] in
def improves (s : State ν) (v : ν) (cost : ℕ) : Bool :=
  match s.label v with
  | some previous => decide (cost < previous)
  | none => true

/-- A way of this cost to a node in front of `v` is tried for `v`. -/
def relax (cost : ℕ) (s : State ν) (v : ν) : State ν :=
  if bound < cost + weight v then s
  else if improves s v (cost + weight v) then s.put v (cost + weight v)
  else s

/-- The node that was taken from the queue. -/
def scan (s : State ν) (u : ν) (cost : ℕ) : State ν :=
  (next u).foldl (relax weight bound cost) s

omit [DecidableEq ν] in
/-- The ways from the root and their costs. -/
inductive Way (root : ν) : ν → ℕ → Prop
  | root : Way root root 0
  | step {u v : ν} {cost : ℕ} : Way root u cost → v ∈ next u → Way root v (cost + weight v)

end Search

section Labels
variable {s t : State ν}

/-- A label that is at most the cost. -/
def Labelled (s : State ν) (v : ν) (cost : ℕ) : Prop := ∃ l, s.label v = some l ∧ l ≤ cost

theorem Labelled.mono {v : ν} {cost cost' : ℕ} (h : Labelled s v cost) (hle : cost ≤ cost') :
    Labelled s v cost' := by
  obtain ⟨l, hl, hcost⟩ := h
  exact ⟨l, hl, hcost.trans hle⟩

/-- Labels only get better. -/
def Improved (s t : State ν) : Prop := ∀ v cost, Labelled s v cost → Labelled t v cost

theorem Improved.trans {s t u : State ν} (hst : Improved s t) (htu : Improved t u) :
    Improved s u :=
  fun v cost h => htu v cost (hst v cost h)

end Labels

section Relax
variable [DecidableEq ν] {next : ν → List ν} {weight : ν → ℕ} {bound : ℕ} {root : ν}

omit [DecidableEq ν] in
theorem improves_iff {s : State ν} {v : ν} {cost : ℕ} :
    improves s v cost = true ↔ ¬ Labelled s v cost := by
  unfold improves Labelled
  cases hlabel : s.label v with
  | none => simp
  | some previous => simp

/-- All that trying a way does. -/
theorem relax_cases (weight : ν → ℕ) (bound cost : ℕ) (s : State ν) (v : ν) :
    (relax weight bound cost s v = s ∧
        (cost + weight v ≤ bound → Labelled s v (cost + weight v))) ∨
      (relax weight bound cost s v = s.put v (cost + weight v) ∧ cost + weight v ≤ bound ∧
        ¬ Labelled s v (cost + weight v)) := by
  unfold relax
  by_cases hbound : bound < cost + weight v
  · rw [if_pos hbound]
    exact Or.inl ⟨rfl, fun hle => absurd hbound (Nat.not_lt.mpr hle)⟩
  · rw [if_neg hbound]
    by_cases himproves : improves s v (cost + weight v) = true
    · rw [if_pos himproves]
      exact Or.inr ⟨rfl, Nat.not_lt.mp hbound, improves_iff.mp himproves⟩
    · rw [if_neg himproves]
      exact Or.inl ⟨rfl, fun _ => not_not.mp (fun h => himproves (improves_iff.mpr h))⟩

@[simp] theorem put_label_self (s : State ν) (v : ν) (cost : ℕ) :
    (s.put v cost).label v = some cost :=
  Function.update_self _ _ _

theorem put_label_ne (s : State ν) {u v : ν} (cost : ℕ) (h : u ≠ v) :
    (s.put v cost).label u = s.label u :=
  Function.update_of_ne h _ _

theorem put_labelled (s : State ν) (v : ν) (cost : ℕ) : Labelled (s.put v cost) v cost :=
  ⟨cost, put_label_self s v cost, le_refl cost⟩

theorem put_improved {s : State ν} {v : ν} {cost : ℕ} (h : ¬ Labelled s v cost) :
    Improved s (s.put v cost) := by
  intro u c hu
  by_cases huv : u = v
  · subst huv
    have hle : cost ≤ c := by
      apply Nat.le_of_not_le
      intro hcost
      exact h (hu.mono hcost)
    exact (put_labelled s u cost).mono hle
  · obtain ⟨l, hl, hle⟩ := hu
    exact ⟨l, (put_label_ne s cost huv).trans hl, hle⟩

theorem relax_improved (weight : ν → ℕ) (bound cost : ℕ) (s : State ν) (v : ν) :
    Improved s (relax weight bound cost s v) := by
  cases relax_cases weight bound cost s v with
  | inl h =>
      rw [h.1]
      exact fun _ _ hu => hu
  | inr h =>
      rw [h.1]
      exact put_improved h.2.2

theorem relax_labelled {weight : ν → ℕ} {bound cost : ℕ} {v : ν} (s : State ν)
    (h : cost + weight v ≤ bound) :
    Labelled (relax weight bound cost s v) v (cost + weight v) := by
  cases relax_cases weight bound cost s v with
  | inl hkept =>
      rw [hkept.1]
      exact hkept.2 h
  | inr hput =>
      rw [hput.1]
      exact put_labelled s v _

end Relax

/-! ## What the labels are -/

section Correct
variable [DecidableEq ν] {next : ν → List ν} {weight : ν → ℕ} {bound : ℕ} {root : ν}
  {s : State ν}

/-- The ways out of `u` have been tried with this cost. -/
def Tried (next : ν → List ν) (weight : ν → ℕ) (bound : ℕ) (s : State ν) (u : ν) (cost : ℕ) :
    Prop :=
  ∀ v ∈ next u, cost + weight v ≤ bound → Labelled s v (cost + weight v)

/-- Labels and costs in the queue are those of ways. -/
structure Sound (next : ν → List ν) (weight : ν → ℕ) (bound : ℕ) (root : ν) (s : State ν) :
    Prop where
  label : ∀ v l, s.label v = some l → Way next weight root v l ∧ l ≤ bound
  queued : ∀ v l, (v, l) ∈ s.queue → Way next weight root v l
  root : Labelled s root 0

structure Inv (next : ν → List ν) (weight : ν → ℕ) (bound : ℕ) (root : ν) (s : State ν) : Prop
    extends Sound next weight bound root s where
  /-- What is not in the queue has been tried. -/
  settled : ∀ v l, s.label v = some l → (v, l) ∈ s.queue ∨ Tried next weight bound s v l

omit [DecidableEq ν] in
theorem Tried.mono {s t : State ν} {u : ν} {cost : ℕ} (h : Tried next weight bound s u cost)
    (hst : Improved s t) : Tried next weight bound t u cost :=
  fun v hv hle => hst v _ (h v hv hle)

theorem init_inv (next : ν → List ν) (weight : ν → ℕ) (bound : ℕ) (root : ν) :
    Inv next weight bound root (init root) := by
  have hlabel : ∀ v l, (init root).label v = some l → v = root ∧ l = 0 := by
    intro v l hl
    unfold init at hl
    by_cases hv : v = root
    · rw [hv, put_label_self] at hl
      exact ⟨hv, (Option.some.inj hl).symm⟩
    · rw [put_label_ne _ _ hv] at hl
      contradiction
  refine ⟨⟨?_, ?_, put_labelled _ root 0⟩, ?_⟩
  · intro v l hl
    obtain ⟨rfl, rfl⟩ := hlabel v l hl
    exact ⟨Way.root, Nat.zero_le bound⟩
  · intro v l hl
    cases List.mem_singleton.mp hl
    exact Way.root
  · intro v l hl
    obtain ⟨rfl, rfl⟩ := hlabel v l hl
    exact Or.inl (List.mem_singleton_self _)

omit [DecidableEq ν] in
theorem Sound.pop {u : ν} {cost : ℕ} {rest : List (ν × ℕ)} (h : Sound next weight bound root s)
    (hqueue : s.queue = (u, cost) :: rest) :
    Way next weight root u cost ∧ Sound next weight bound root { s with queue := rest } := by
  have hmem : ∀ pair, pair = (u, cost) ∨ pair ∈ rest → pair ∈ s.queue := by
    intro pair hpair
    rw [hqueue]
    exact List.mem_cons.mpr hpair
  refine ⟨h.queued u cost (hmem _ (Or.inl rfl)), h.label, ?_, h.root⟩
  intro v l hl
  exact h.queued v l (hmem _ (Or.inr hl))

theorem Sound.put {v : ν} {cost : ℕ} (h : Sound next weight bound root s)
    (hway : Way next weight root v cost) (hle : cost ≤ bound) (hnot : ¬ Labelled s v cost) :
    Sound next weight bound root (s.put v cost) := by
  refine ⟨?_, ?_, put_improved hnot root 0 h.root⟩
  · intro w l hl
    by_cases hwv : w = v
    · rw [hwv, put_label_self] at hl
      rw [hwv, ← Option.some.inj hl]
      exact ⟨hway, hle⟩
    · rw [put_label_ne _ _ hwv] at hl
      exact h.label w l hl
  · intro w l hl
    cases List.mem_append.mp hl with
    | inl hold => exact h.queued w l hold
    | inr hnew =>
        cases List.mem_singleton.mp hnew
        exact hway

theorem Sound.relax {u v : ν} {cost : ℕ} (h : Sound next weight bound root s)
    (hu : Way next weight root u cost) (hv : v ∈ next u) :
    Sound next weight bound root (relax weight bound cost s v) := by
  cases relax_cases weight bound cost s v with
  | inl hkept =>
      rw [hkept.1]
      exact h
  | inr hput =>
      rw [hput.1]
      exact h.put (Way.step hu hv) hput.2.1 hput.2.2

/-- The invariant while the ways out of `u`, which left the queue, are tried. -/
structure Scanning (next : ν → List ν) (weight : ν → ℕ) (bound : ℕ) (root u : ν) (cost : ℕ)
    (done : List ν) (s : State ν) : Prop extends Sound next weight bound root s where
  settled : ∀ v l, s.label v = some l →
    (v, l) ∈ s.queue ∨ Tried next weight bound s v l ∨ (v = u ∧ l = cost)
  tried : ∀ v ∈ done, cost + weight v ≤ bound → Labelled s v (cost + weight v)

theorem relax_scanning {u v : ν} {cost : ℕ} {done : List ν} (hu : Way next weight root u cost)
    (hv : v ∈ next u) (h : Scanning next weight bound root u cost done s) :
    Scanning next weight bound root u cost (done ++ [v]) (relax weight bound cost s v) := by
  have himproved := relax_improved weight bound cost s v
  have hsound := h.toSound.relax hu hv
  have htried : ∀ w ∈ done ++ [v], cost + weight w ≤ bound →
      Labelled (relax weight bound cost s v) w (cost + weight w) := by
    intro w hw hle
    cases List.mem_append.mp hw with
    | inl hdone => exact himproved w _ (h.tried w hdone hle)
    | inr hlast =>
        rw [List.mem_singleton.mp hlast] at hle ⊢
        exact relax_labelled s hle
  refine ⟨hsound, ?_, htried⟩
  cases relax_cases weight bound cost s v with
  | inl hkept =>
      rw [hkept.1]
      exact h.settled
  | inr hput =>
      rw [hput.1] at himproved ⊢
      intro w l hl
      by_cases hwv : w = v
      · rw [hwv, put_label_self] at hl
        rw [hwv, ← Option.some.inj hl]
        exact Or.inl (List.mem_append_right _ (List.mem_singleton_self _))
      · rw [put_label_ne _ _ hwv] at hl
        cases h.settled w l hl with
        | inl hqueue => exact Or.inl (List.mem_append_left _ hqueue)
        | inr hrest =>
            cases hrest with
            | inl hold => exact Or.inr (Or.inl (hold.mono himproved))
            | inr hcurrent => exact Or.inr (Or.inr hcurrent)

theorem foldl_scanning {u : ν} {cost : ℕ} (hu : Way next weight root u cost)
    (done todo : List ν) (hnext : ∀ v ∈ todo, v ∈ next u)
    (h : Scanning next weight bound root u cost done s) :
    Scanning next weight bound root u cost (done ++ todo)
      (todo.foldl (relax weight bound cost) s) := by
  induction todo generalizing done s with
  | nil =>
      rw [List.append_nil]
      exact h
  | cons v todo ih =>
      have hstep := relax_scanning hu (hnext v List.mem_cons_self) h
      have hrest := ih (done ++ [v]) (fun w hw => hnext w (List.mem_cons_of_mem v hw)) hstep
      rw [List.append_assoc] at hrest
      exact hrest

theorem scan_inv {u : ν} {cost : ℕ} {rest : List (ν × ℕ)}
    (h : Inv next weight bound root s) (hqueue : s.queue = (u, cost) :: rest) :
    Inv next weight bound root (scan next weight bound { s with queue := rest } u cost) := by
  obtain ⟨hu, hpopped⟩ := h.toSound.pop hqueue
  have hstart : Scanning next weight bound root u cost [] { s with queue := rest } := by
    refine ⟨hpopped, ?_, fun v hv => absurd hv List.not_mem_nil⟩
    intro v l hl
    cases h.settled v l hl with
    | inl hmem =>
        rw [hqueue, List.mem_cons] at hmem
        cases hmem with
        | inl hfirst =>
            cases hfirst
            exact Or.inr (Or.inr ⟨rfl, rfl⟩)
        | inr hrest => exact Or.inl hrest
    | inr htried => exact Or.inr (Or.inl htried)
  have hend := foldl_scanning hu [] (next u) (fun _ hv => hv) hstart
  rw [List.nil_append] at hend
  refine ⟨hend.toSound, ?_⟩
  intro v l hl
  cases hend.settled v l hl with
  | inl hmem => exact Or.inl hmem
  | inr hrest =>
      cases hrest with
      | inl htried => exact Or.inr htried
      | inr hcurrent =>
          obtain ⟨rfl, rfl⟩ := hcurrent
          exact Or.inr hend.tried

omit [DecidableEq ν] in
/-- With an empty queue, all ways within the bound have been found. -/
theorem Inv.complete (h : Inv next weight bound root s) (hqueue : s.queue = []) {v : ν}
    {cost : ℕ} (hway : Way next weight root v cost) (hcost : cost ≤ bound) :
    Labelled s v cost := by
  induction hway with
  | root => exact h.root
  | @step u v cost hu hv ih =>
      obtain ⟨l, hl, hle⟩ := ih (by omega)
      cases h.settled u l hl with
      | inl hmem =>
          rw [hqueue] at hmem
          exact absurd hmem List.not_mem_nil
      | inr htried =>
          have hlabel := htried v hv (by omega)
          exact hlabel.mono (by omega)

end Correct

/-! ## Termination -/

section Termination
variable [DecidableEq ν] {next : ν → List ν} {weight : ν → ℕ} {bound : ℕ}

/-- How much the label of a node can still fall. -/
def slack (bound : ℕ) (s : State ν) (v : ν) : ℕ := (s.label v).getD (bound + 1)

def potential (bound : ℕ) (nodes : Finset ν) (s : State ν) : ℕ :=
  2 * (∑ v ∈ nodes, slack bound s v) + s.queue.length

theorem relax_potential {nodes : Finset ν} {v : ν} (hv : v ∈ nodes) (cost : ℕ) (s : State ν) :
    potential bound nodes (relax weight bound cost s v) ≤ potential bound nodes s := by
  cases relax_cases weight bound cost s v with
  | inl hkept => rw [hkept.1]
  | inr hput =>
      obtain ⟨hstate, hle, hnot⟩ := hput
      have hself : slack bound (s.put v (cost + weight v)) v < slack bound s v := by
        unfold slack
        rw [put_label_self, Option.getD_some]
        cases hlabel : s.label v with
        | none => exact Nat.lt_succ_of_le hle
        | some l =>
            apply Nat.lt_of_not_le
            intro hl
            exact hnot ⟨l, hlabel, hl⟩
      have hother : ∀ u ∈ nodes, slack bound (s.put v (cost + weight v)) u ≤ slack bound s u := by
        intro u _
        by_cases huv : u = v
        · rw [huv]
          exact hself.le
        · unfold slack
          rw [put_label_ne _ _ huv]
      have hsum := Finset.sum_lt_sum hother ⟨v, hv, hself⟩
      have hlength : (s.put v (cost + weight v)).queue.length = s.queue.length + 1 :=
        List.length_append
      rw [hstate]
      unfold potential
      omega

end Termination
end LabelCorrecting
