import Mathlib.Order.Defs.Unbundled
import Mathlib.Tactic.Common

/-!
# What a computation leaves behind

A computation over a state ends in a state whether it returns or fails. Going `Along` a
preorder of states is kept by every way of putting computations together, so it holds for
whole programs when it holds for their operations. What a computation that returned did is
read off step by step.
-/
namespace DbtNova.StateOutcome

variable {ε ε' σ α β : Type}

def endState : EStateM.Result ε σ α → σ
  | .ok _ s => s
  | .error _ s => s

/-- A result that is already there. -/
def lift (x : Except ε α) : EStateM ε σ α :=
  match x with
  | .ok a => pure a
  | .error e => throw e

/-- Runs the operation and goes on with whether it failed. -/
def attempt (x : EStateM ε σ Unit) (s : σ) : Except ε Unit × σ :=
  match x s with
  | .ok _ s' => (.ok (), s')
  | .error e s' => (.error e, s')

/-! ## What was done -/

theorem run_bind_ok {x : EStateM ε σ α} {f : α → EStateM ε σ β} {s s' : σ} {b : β} :
    (x >>= f) s = .ok b s' ↔ ∃ a s₁, x s = .ok a s₁ ∧ f a s₁ = .ok b s' := by
  change EStateM.bind x f s = _ ↔ _
  unfold EStateM.bind
  cases x s <;> simp

theorem run_pure_ok {a b : α} {s s' : σ} :
    (pure a : EStateM ε σ α) s = .ok b s' ↔ a = b ∧ s = s' := by
  change EStateM.Result.ok a s = .ok b s' ↔ _
  simp

theorem run_get_ok {a s s' : σ} :
    (get : EStateM ε σ σ) s = .ok a s' ↔ a = s ∧ s' = s := by
  change EStateM.Result.ok s s = .ok a s' ↔ _
  simp [eq_comm]

theorem run_lift_ok {x : Except ε α} {s s' : σ} {a : α} :
    lift x s = .ok a s' ↔ x = .ok a ∧ s' = s := by
  cases x with
  | error e =>
      change EStateM.Result.error e s = .ok a s' ↔ _
      simp
  | ok b =>
      rw [lift, run_pure_ok, Except.ok.injEq, eq_comm (a := s)]

theorem run_adaptExcept_ok {f : ε → ε'} {x : EStateM ε σ α} {s s' : σ} {a : α} :
    EStateM.adaptExcept f x s = .ok a s' ↔ x s = .ok a s' := by
  unfold EStateM.adaptExcept
  cases x s <;> simp

theorem attempt_ok {x : EStateM ε σ Unit} {s s' : σ} :
    attempt x s = (.ok (), s') ↔ x s = .ok () s' := by
  unfold attempt
  cases x s <;> simp

/-! ## Along a preorder -/

/-- Both when it returns and when it fails. -/
def Along (R : σ → σ → Prop) (x : EStateM ε σ α) : Prop := ∀ s, R s (endState (x s))

section Along
variable {R : σ → σ → Prop} {x : EStateM ε σ α} {s s' : σ}

theorem Along.ok {a : α} (h : Along R x) (hx : x s = .ok a s') : R s s' := by
  have := h s
  rwa [hx] at this

theorem Along.error {e : ε} (h : Along R x) (hx : x s = .error e s') : R s s' := by
  have := h s
  rwa [hx] at this

theorem Along.attempt {x : EStateM ε σ Unit} (h : Along R x) : R s (attempt x s).2 := by
  have := h s
  unfold StateOutcome.attempt
  revert this
  cases x s <;> exact id

theorem Along.adaptExcept (h : Along R x) (f : ε → ε') : Along R (EStateM.adaptExcept f x) := by
  intro s
  have := h s
  unfold EStateM.adaptExcept
  revert this
  cases x s <;> exact id

theorem along_lift (hrefl : ∀ s, R s s) (x : Except ε α) : Along R (lift x) := by
  intro s
  cases x <;> exact hrefl s

theorem Along.bind [IsTrans σ R] {f : α → EStateM ε σ β} (h : Along R x)
    (hf : ∀ a, Along R (f a)) : Along R (x >>= f) := by
  intro s
  have hfirst := h s
  change R s (endState (EStateM.bind x f s))
  unfold EStateM.bind
  revert hfirst
  cases x s with
  | error e s₁ => exact id
  | ok a s₁ => exact fun hfirst => IsTrans.trans _ _ _ hfirst (hf a s₁)

theorem along_foldlM [IsTrans σ R] (hrefl : ∀ s, R s s) {f : β → α → EStateM ε σ β}
    (hf : ∀ b a, Along R (f b a)) (as : List α) (b : β) : Along R (as.foldlM f b) := by
  induction as generalizing b with
  | nil => exact fun s => hrefl s
  | cons a as ih =>
      rw [List.foldlM_cons]
      exact (hf b a).bind ih

end Along

end DbtNova.StateOutcome
