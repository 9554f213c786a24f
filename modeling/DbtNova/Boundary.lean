import Mathlib.Data.List.Infix
import Mathlib.Algebra.BigOperators.Group.List.Basic
import Mathlib.Algebra.Order.Ring.Nat
import Mathlib.Tactic.Common

/-!
# Cutting a sequence of units at a bound on their widths

The units of a sequence have positive widths, as the characters of a text have in
bytes. A position is a boundary when some front of the sequence is exactly that
wide. Cutting goes down from the bound to the nearest boundary, and `cut_eq_iff`
says when two bounds cut alike: when no boundary lies between them.
-/
namespace DbtNova.Boundary

variable {α : Type*} (width : α → ℕ)

def extent (units : List α) : ℕ := (units.map width).sum

/-- The front that is exactly `n` wide. -/
def sliceTo : List α → ℕ → Option (List α)
  | _, 0 => some []
  | [], _ + 1 => none
  | unit :: units, n + 1 =>
      if width unit ≤ n + 1 then (sliceTo units (n + 1 - width unit)).map (unit :: ·) else none

def isBoundary (units : List α) (n : ℕ) : Bool := (sliceTo width units n).isSome

/-- The loop down to the next boundary. -/
def floorBoundary (units : List α) : ℕ → ℕ
  | 0 => 0
  | n + 1 => if isBoundary width units (n + 1) then n + 1 else floorBoundary units n

/-- The longest front that is at most `n` wide. -/
def cut (n : ℕ) (units : List α) : List α :=
  (sliceTo width units (floorBoundary width units (min (extent width units) n))).getD []

variable {width}

@[simp] theorem extent_nil : extent width [] = 0 := rfl

@[simp] theorem extent_cons (unit : α) (units : List α) :
    extent width (unit :: units) = width unit + extent width units := by
  simp [extent]

theorem extent_mono {front units : List α} (h : front <+: units) :
    extent width front ≤ extent width units := by
  obtain ⟨rest, rfl⟩ := h
  simp [extent]

theorem sliceTo_zero (units : List α) : sliceTo width units 0 = some [] := by
  cases units <;> rfl

theorem sliceTo_prefix {units front : List α} {n : ℕ} (h : sliceTo width units n = some front) :
    front <+: units ∧ extent width front = n := by
  induction units generalizing n front with
  | nil =>
      cases n with
      | zero => simp_all [sliceTo]
      | succ n => simp [sliceTo] at h
  | cons unit units ih =>
      cases n with
      | zero => simp_all [sliceTo]
      | succ n =>
          rw [sliceTo] at h
          split at h
          · rename_i hwidth
            obtain ⟨rest, hrest, rfl⟩ := Option.map_eq_some_iff.mp h
            obtain ⟨hkept, hextent⟩ := ih hrest
            refine ⟨by simpa using hkept, ?_⟩
            rw [extent_cons, hextent]
            omega
          · cases h

theorem isBoundary_zero (units : List α) : isBoundary width units 0 = true := by
  rw [isBoundary, sliceTo_zero]
  rfl

theorem floorBoundary_isBoundary (units : List α) (n : ℕ) :
    isBoundary width units (floorBoundary width units n) = true := by
  induction n with
  | zero => exact isBoundary_zero units
  | succ n ih =>
      rw [floorBoundary]
      split
      · assumption
      · exact ih

theorem floorBoundary_le (width : α → ℕ) (units : List α) (n : ℕ) :
    floorBoundary width units n ≤ n := by
  induction n with
  | zero => exact Nat.le_refl 0
  | succ n ih =>
      rw [floorBoundary]
      split
      · exact Nat.le_refl _
      · omega

theorem le_floorBoundary {units : List α} {n b : ℕ} (hb : isBoundary width units b = true)
    (hle : b ≤ n) : b ≤ floorBoundary width units n := by
  induction n with
  | zero => exact hle
  | succ n ih =>
      rw [floorBoundary]
      split
      · exact hle
      · rename_i hno
        have hne : b ≠ n + 1 := fun h => hno (h ▸ hb)
        exact ih (by omega)

theorem sliceTo_floorBoundary (width : α → ℕ) (n : ℕ) (units : List α) :
    sliceTo width units (floorBoundary width units (min (extent width units) n)) =
      some (cut width n units) := by
  have hboundary : isBoundary width units (floorBoundary width units
      (min (extent width units) n)) = true := floorBoundary_isBoundary units _
  obtain ⟨kept, hkept⟩ := Option.isSome_iff_exists.mp hboundary
  rw [cut, hkept, Option.getD_some]

section Positive

variable (hwidth : ∀ unit, 0 < width unit)

include hwidth

theorem sliceTo_extent {front units : List α} (h : front <+: units) :
    sliceTo width units (extent width front) = some front := by
  induction front generalizing units with
  | nil => exact sliceTo_zero units
  | cons unit front ih =>
      obtain ⟨rest, rfl⟩ := h
      have hpos := hwidth unit
      obtain ⟨n, hn⟩ : ∃ n, extent width (unit :: front) = n + 1 :=
        Nat.exists_eq_add_one.mpr (by rw [extent_cons]; omega)
      have hrest : n + 1 - width unit = extent width front := by
        rw [← hn, extent_cons]
        omega
      have hfits : width unit ≤ n + 1 := by
        rw [← hn, extent_cons]
        omega
      rw [hn, List.cons_append, sliceTo, if_pos hfits, hrest, ih (List.prefix_append _ _)]
      rfl

theorem isBoundary_iff (units : List α) (n : ℕ) :
    isBoundary width units n = true ↔ ∃ front, front <+: units ∧ extent width front = n := by
  rw [isBoundary, Option.isSome_iff_exists]
  constructor
  · intro h
    obtain ⟨front, hfront⟩ := h
    exact ⟨front, sliceTo_prefix hfront⟩
  · intro h
    obtain ⟨front, hfront, rfl⟩ := h
    exact ⟨front, sliceTo_extent hwidth hfront⟩

theorem eq_of_prefix_of_extent {front units : List α} (h : front <+: units)
    (hextent : extent width front = extent width units) : front = units := by
  have hslice := sliceTo_extent hwidth h
  rw [hextent, sliceTo_extent hwidth (List.prefix_refl units)] at hslice
  exact (Option.some.inj hslice).symm

/-- The cut is the longest front within the bound. -/
theorem cut_spec (n : ℕ) (units : List α) :
    cut width n units <+: units ∧ extent width (cut width n units) ≤ n ∧
      ∀ front, front <+: units → extent width front ≤ n → front <+: cut width n units := by
  obtain ⟨hkept, hextent⟩ := sliceTo_prefix (sliceTo_floorBoundary width n units)
  have hle := floorBoundary_le width units (min (extent width units) n)
  refine ⟨hkept, by omega, ?_⟩
  intro front hfront hn
  have hbound : extent width front ≤ extent width (cut width n units) := by
    rw [hextent]
    apply le_floorBoundary ((isBoundary_iff hwidth units _).mpr ⟨front, hfront, rfl⟩)
    exact Nat.le_min.mpr ⟨extent_mono hfront, hn⟩
  rcases List.prefix_or_prefix_of_prefix hfront hkept with h | h
  · exact h
  · have hsame : extent width (cut width n units) = extent width front :=
      Nat.le_antisymm (extent_mono h) hbound
    rw [eq_of_prefix_of_extent hwidth h hsame]

theorem cut_mono {m n : ℕ} (h : m ≤ n) (units : List α) :
    cut width m units <+: cut width n units := by
  obtain ⟨hm, hmle, -⟩ := cut_spec hwidth m units
  exact (cut_spec hwidth n units).2.2 _ hm (Nat.le_trans hmle h)

/-- Two bounds keep the same front exactly when no boundary lies between them. -/
theorem cut_eq_iff (m n : ℕ) (units : List α) :
    cut width m units = cut width n units ↔
      ∀ b, isBoundary width units b = true → (b ≤ m ↔ b ≤ n) := by
  obtain ⟨hm, hmle, hmax⟩ := cut_spec hwidth m units
  obtain ⟨hn, hnle, hnax⟩ := cut_spec hwidth n units
  constructor
  · intro h b hb
    obtain ⟨front, hfront, rfl⟩ := (isBoundary_iff hwidth units b).mp hb
    constructor
    · intro hle
      have hkept : extent width front ≤ extent width (cut width n units) :=
        extent_mono (h ▸ hmax front hfront hle)
      omega
    · intro hle
      have hkept : extent width front ≤ extent width (cut width m units) :=
        extent_mono (h.symm ▸ hnax front hfront hle)
      omega
  · intro h
    have hleft := (h _ ((isBoundary_iff hwidth units _).mpr ⟨_, hm, rfl⟩)).mp hmle
    have hright := (h _ ((isBoundary_iff hwidth units _).mpr ⟨_, hn, rfl⟩)).mpr hnle
    exact List.IsPrefix.eq_of_length_le (hnax _ hm hleft) (hmax _ hn hright).length_le

end Positive

end DbtNova.Boundary
