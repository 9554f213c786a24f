import Mathlib.Tactic.Common

/-!
# Runs of a partial step function

A system is a function from a state and an action to the next state, undefined
where the action is not enabled. A run is a list of actions. Invariants are
proved once per step; a side condition on the steps taken restricts the runs.
-/
namespace DbtNova.TransitionSystem

variable {σ α : Type*} (step : σ → α → Option σ)

def run : σ → List α → Option σ
  | s, [] => some s
  | s, a :: as => (step s a).bind fun t => run t as

/-- Every step of the run is taken in a state that allows it. -/
def Guarded (guard : σ → α → Prop) : σ → List α → Prop
  | _, [] => True
  | s, a :: as => guard s a ∧ ∀ t, step s a = some t → Guarded guard t as

@[simp] theorem run_nil (s : σ) : run step s [] = some s := rfl

variable {step}

theorem run_cons {s u : σ} {a : α} {as : List α} :
    run step s (a :: as) = some u ↔ ∃ t, step s a = some t ∧ run step t as = some u :=
  Option.bind_eq_some_iff

theorem run_append {s u : σ} {as bs : List α} :
    run step s (as ++ bs) = some u ↔
      ∃ t, run step s as = some t ∧ run step t bs = some u := by
  induction as generalizing s with
  | nil => simp
  | cons a as ih => simp only [List.cons_append, run_cons, ih]; tauto

theorem guarded_cons {guard : σ → α → Prop} {s t : σ} {a : α} {as : List α}
    (ha : guard s a) (hat : step s a = some t) (has : Guarded step guard t as) :
    Guarded step guard s (a :: as) := by
  refine ⟨ha, fun u hau => ?_⟩
  rwa [← Option.some.inj (hat.symm.trans hau)]

instance Guarded.decidable {guard : σ → α → Prop} [∀ s a, Decidable (guard s a)] :
    ∀ (s : σ) (as : List α), Decidable (Guarded step guard s as)
  | _, [] => isTrue trivial
  | s, a :: as =>
      match hstep : step s a with
      | none => decidable_of_iff (guard s a) (by simp [Guarded, hstep])
      | some t =>
          have : Decidable (Guarded step guard t as) := Guarded.decidable t as
          decidable_of_iff (guard s a ∧ Guarded step guard t as) (by simp [Guarded, hstep])

theorem Guarded.and {guard guard' : σ → α → Prop} {s : σ} {as : List α}
    (h : Guarded step guard s as) (h' : Guarded step guard' s as) :
    Guarded step (fun s a => guard s a ∧ guard' s a) s as := by
  induction as generalizing s with
  | nil => trivial
  | cons a as ih => exact ⟨⟨h.1, h'.1⟩, fun t hat => ih (h.2 t hat) (h'.2 t hat)⟩

/-- What every allowed step preserves holds at the end of an allowed run. -/
theorem Guarded.invariant {guard : σ → α → Prop} (inv : σ → Prop)
    (hstep : ∀ s a t, guard s a → inv s → step s a = some t → inv t)
    {s u : σ} {as : List α} (hg : Guarded step guard s as) (hs : inv s)
    (hrun : run step s as = some u) : inv u := by
  induction as generalizing s with
  | nil => simpa using (Option.some.inj hrun) ▸ hs
  | cons a as ih =>
      obtain ⟨t, hat, htu⟩ := run_cons.mp hrun
      exact ih (hg.2 t hat) (hstep s a t hg.1 hs hat) htu

/-- A guard that follows from an invariant and another guard. -/
theorem Guarded.imp {guard guard' : σ → α → Prop} (inv : σ → Prop)
    (hstep : ∀ s a t, guard s a → inv s → step s a = some t → inv t)
    (himp : ∀ s a, inv s → guard s a → guard' s a) {s : σ} {as : List α}
    (hg : Guarded step guard s as) (hs : inv s) : Guarded step guard' s as := by
  induction as generalizing s with
  | nil => trivial
  | cons a as ih =>
      exact ⟨himp s a hs hg.1, fun t hat => ih (hg.2 t hat) (hstep s a t hg.1 hs hat)⟩

/-- Actions that are allowed in every state. -/
theorem guarded_of_forall {guard : σ → α → Prop} {as : List α}
    (h : ∀ a ∈ as, ∀ s, guard s a) (s : σ) : Guarded step guard s as := by
  induction as generalizing s with
  | nil => trivial
  | cons a as ih =>
      exact ⟨h a (by simp) s, fun t _ => ih (fun b hb => h b (List.mem_cons_of_mem a hb)) t⟩

/-- The rule without a side condition. -/
theorem run_invariant (inv : σ → Prop)
    (hstep : ∀ s a t, inv s → step s a = some t → inv t)
    {s u : σ} {as : List α} (hs : inv s) (hrun : run step s as = some u) : inv u :=
  (guarded_of_forall (fun _ _ _ => trivial) s : Guarded step (fun _ _ => True) s as).invariant inv
    (fun s a t _ => hstep s a t) hs hrun

/-- A property of every state that the run passes through. -/
def Always (step : σ → α → Option σ) (prop : σ → Prop) : σ → List α → Prop
  | s, [] => prop s
  | s, a :: as => prop s ∧ ∀ t, step s a = some t → Always step prop t as

/-- When the property holds after a step exactly if the step was allowed, it holds
throughout a run exactly if the run is allowed. -/
theorem always_iff_guarded {guard : σ → α → Prop} (inv prop : σ → Prop)
    (hinv : ∀ s a t, inv s → step s a = some t → inv t)
    (hexact : ∀ s a t, inv s → prop s → step s a = some t → (prop t ↔ guard s a))
    {s u : σ} {as : List α} (hs : inv s) (hprop : prop s) (hrun : run step s as = some u) :
    Always step prop s as ↔ Guarded step guard s as := by
  induction as generalizing s with
  | nil =>
      constructor
      · intro _
        trivial
      · intro _
        exact hprop
  | cons a as ih =>
      obtain ⟨t, hat, htu⟩ := run_cons.mp hrun
      have hstep := hexact s a t hs hprop hat
      have hrest (ht : prop t) := ih (hinv s a t hs hat) ht htu
      constructor
      · intro h
        have ht : prop t := by
          have hall := h.2 t hat
          cases as with
          | nil => exact hall
          | cons b bs => exact hall.1
        exact guarded_cons (hstep.mp ht) hat ((hrest ht).mp (h.2 t hat))
      · intro h
        have ht : prop t := hstep.mpr h.1
        refine ⟨hprop, ?_⟩
        intro v hav
        rw [← Option.some.inj (hat.symm.trans hav)]
        exact (hrest ht).mpr (h.2 t hat)

/-! A system of many parties is a list of their local states. -/

/-- When one party moves, only its own share of a head count changes. -/
theorem countP_set_add {β : Type*} {p : β → Bool} {l : List β} {i : ℕ} {a b : β}
    (h : l[i]? = some a) :
    (l.set i b).countP p + (if p a then 1 else 0) = l.countP p + (if p b then 1 else 0) := by
  obtain ⟨hi, ha⟩ := List.getElem?_eq_some_iff.mp h
  rw [List.countP_set hi, ha]
  by_cases hpa : p a
  · have hpos : 0 < l.countP p := List.countP_pos_iff.mpr ⟨a, List.mem_of_getElem? h, hpa⟩
    simp only [hpa, if_true]
    omega
  · simp only [hpa, Bool.false_eq_true, if_false]
    omega

end DbtNova.TransitionSystem
