import Mathlib.Tactic.Common

/-!
# A loop that may not end

The body of a loop maps a state either to the next state or to a result. The loop returns a
result when some number of passes through the body is enough for it. An invariant that always
leads to a next state keeps the loop from returning, and one that bounds the results from
below does so for everything that the loop can return.
-/
namespace DbtNova.StepLoop

variable {σ τ : Type*} (body : σ → σ ⊕ τ)

/-- At most `fuel` passes through the body. -/
def runFor : ℕ → σ → Option τ
  | 0, _ => none
  | fuel + 1, s =>
      match body s with
      | .inl next => runFor fuel next
      | .inr result => some result

def Returns (s : σ) (result : τ) : Prop := ∃ fuel, runFor body fuel s = some result

variable {body}

theorem returns_stop {s : σ} {stop result : τ} (h : body s = .inr stop) :
    Returns body s result ↔ result = stop := by
  constructor
  · rintro ⟨fuel, hfuel⟩
    cases fuel with
    | zero => contradiction
    | succ fuel =>
        rw [runFor, h] at hfuel
        exact (Option.some.inj hfuel).symm
  · rintro rfl
    exact ⟨1, by rw [runFor, h]⟩

theorem returns_next {s next : σ} {result : τ} (h : body s = .inl next) :
    Returns body s result ↔ Returns body next result := by
  constructor
  · rintro ⟨fuel, hfuel⟩
    cases fuel with
    | zero => contradiction
    | succ fuel =>
        rw [runFor, h] at hfuel
        exact ⟨fuel, hfuel⟩
  · rintro ⟨fuel, hfuel⟩
    exact ⟨fuel + 1, by rw [runFor, h]; exact hfuel⟩

/-- What every pass preserves up to the result holds of what is returned. -/
theorem Returns.invariant {s : σ} {result : τ} (h : Returns body s result) (inv : σ → Prop)
    (post : τ → Prop) (hs : inv s) (hnext : ∀ s next, inv s → body s = .inl next → inv next)
    (hstop : ∀ s result, inv s → body s = .inr result → post result) : post result := by
  obtain ⟨fuel, hfuel⟩ := h
  induction fuel generalizing s with
  | zero => contradiction
  | succ fuel ih =>
      rw [runFor] at hfuel
      cases hbody : body s with
      | inl next =>
          rw [hbody] at hfuel
          exact ih (hnext s next hs hbody) hfuel
      | inr stop =>
          rw [hbody] at hfuel
          exact Option.some.inj hfuel ▸ hstop s stop hs hbody

/-- A loop that always finds a next state returns nothing. -/
theorem not_returns {s : σ} (inv : σ → Prop) (hs : inv s)
    (hnext : ∀ s, inv s → ∃ next, body s = .inl next ∧ inv next) (result : τ) :
    ¬ Returns body s result := by
  intro h
  refine h.invariant inv (fun _ => False) hs ?_ ?_
  · intro s next hinv hbody
    obtain ⟨other, hother, hkept⟩ := hnext s hinv
    rw [hbody] at hother
    exact Sum.inl.inj hother ▸ hkept
  · intro s stop hinv hbody
    obtain ⟨other, hother, -⟩ := hnext s hinv
    rw [hbody] at hother
    contradiction

end DbtNova.StepLoop
