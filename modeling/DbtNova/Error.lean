import Mathlib.Data.List.Forall2
import Mathlib.Tactic.Common

/-!
# The crate-wide error type

Only the variants that a modelled function can return are listed. Each payload
is the text the source formats, so a statement about a message is a statement
about this data.
-/
namespace DbtNova

inductive DbtNovaError where
  | manifestError (message : String)
  | invalidParams (message : String)
  | serverError (message : String)
  | ioError (message : String)
  | databricksError (message : String)
  | indexBuildInProgress
  deriving DecidableEq, Repr

abbrev Result (α : Type*) := Except DbtNovaError α

/-- A sequence succeeds exactly when its two halves do. -/
theorem bind_eq_ok {ε : Type*} {α β : Type} {x : Except ε α} {f : α → Except ε β} {b : β} :
    x >>= f = .ok b ↔ ∃ a, x = .ok a ∧ f a = .ok b := by
  cases x <;> simp [bind, Except.bind]

theorem toOption_eq_some {ε : Type*} {α : Type*} {x : Except ε α} {a : α} :
    x.toOption = some a ↔ x = .ok a := by
  cases x <;> simp [Except.toOption]

section Traversal
variable {ε : Type*} {α β : Type} {f : α → Except ε β} {xs : List α} {ys : List β}

theorem forall₂_of_mapM_ok (h : xs.mapM f = .ok ys) :
    List.Forall₂ (fun x y => f x = .ok y) xs ys := by
  induction xs generalizing ys with
  | nil =>
      rw [List.mapM_nil] at h
      rw [← Except.ok.inj h]
      exact .nil
  | cons x xs ih =>
      rw [List.mapM_cons] at h
      obtain ⟨y, hy, h⟩ := bind_eq_ok.mp h
      obtain ⟨rest, hrest, h⟩ := bind_eq_ok.mp h
      rw [← Except.ok.inj h]
      exact .cons hy (ih hrest)

theorem of_mem_mapM_ok (h : xs.mapM f = .ok ys) : ∀ y ∈ ys, ∃ x ∈ xs, f x = .ok y := by
  intro y hy
  obtain ⟨i, hi, rfl⟩ := List.mem_iff_getElem.mp hy
  have hsteps := List.forall₂_iff_get.mp (forall₂_of_mapM_ok h)
  have hix : i < xs.length := hsteps.1 ▸ hi
  exact ⟨xs[i], List.getElem_mem hix, hsteps.2 i hix hi⟩

/-- A traversal succeeds when every step does. -/
theorem exists_mapM_ok : (∃ ys, xs.mapM f = .ok ys) ↔ ∀ x ∈ xs, ∃ y, f x = .ok y := by
  induction xs with
  | nil => exact iff_of_true ⟨[], rfl⟩ fun _ hx => absurd hx List.not_mem_nil
  | cons x xs ih =>
      rw [List.forall_mem_cons, ← ih]
      constructor
      · rintro ⟨ys, hys⟩
        rw [List.mapM_cons] at hys
        obtain ⟨y, hy, hys⟩ := bind_eq_ok.mp hys
        obtain ⟨rest, hrest, -⟩ := bind_eq_ok.mp hys
        exact ⟨⟨y, hy⟩, rest, hrest⟩
      · rintro ⟨⟨y, hy⟩, rest, hrest⟩
        refine ⟨y :: rest, ?_⟩
        rw [List.mapM_cons]
        exact bind_eq_ok.mpr ⟨y, hy, bind_eq_ok.mpr ⟨rest, hrest, rfl⟩⟩

end Traversal

end DbtNova
