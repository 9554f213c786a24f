import Mathlib.Algebra.Order.Ring.Nat
import Mathlib.Data.List.Induction
import Mathlib.Tactic.Common

/-!
# Collecting items under limits

Items are taken from a sequence of pieces, in order, as long as their number and
their total weight stay within two optional limits. Weights are added with
saturation at 64 bits. A flag records that an item was left out. `Collects` says
what such a collection amounts to: the longest front of the sequence that fits.
-/
namespace DbtNova.BoundedCollect

structure Limits where
  count : Option ℕ
  weight : Option ℕ
  deriving DecidableEq, Repr

structure Collected (ρ : Type*) where
  items : List ρ := []
  weight : ℕ := 0
  truncated : Bool := false
  deriving DecidableEq, Repr

def saturatingAdd (a b : ℕ) : ℕ := min (a + b) (2 ^ 64 - 1)

theorem le_saturatingAdd {a : ℕ} (b : ℕ) (ha : a ≤ 2 ^ 64 - 1) : a ≤ saturatingAdd a b := by
  unfold saturatingAdd
  omega

variable {ρ : Type*} (size : ρ → ℕ) (limits : Limits)

def totalWeight (items : List ρ) : ℕ :=
  items.foldl (fun weight item => saturatingAdd weight (size item)) 0

/-- Both limits are kept. -/
def Fits (items : List ρ) : Prop :=
  (∀ limit ∈ limits.count, items.length ≤ limit) ∧
    ∀ limit ∈ limits.weight, totalWeight size items ≤ limit

/-- The loop over one piece. -/
def collect (acc : Collected ρ) : List ρ → Collected ρ
  | [] => acc
  | item :: rest =>
      if limits.count.any fun limit => limit ≤ acc.items.length then { acc with truncated := true }
      else if limits.weight.any fun limit => limit < saturatingAdd acc.weight (size item) then
        { acc with truncated := true }
      else
        collect
          { acc with
            items := acc.items ++ [item], weight := saturatingAdd acc.weight (size item) } rest

/-- The longest front of `whole` that fits, and whether that is all of it. -/
structure Collects (whole : List ρ) (acc : Collected ρ) : Prop where
  front : acc.items <+: whole
  fits : Fits size limits acc.items
  longest : ∀ items, items <+: whole → Fits size limits items → items <+: acc.items
  flag : acc.truncated = true ↔ ¬ Fits size limits whole

/-- The pieces one after another, until the flag is set. -/
def collectAll (acc : Collected ρ) : List (List ρ) → Collected ρ
  | [] => acc
  | piece :: pieces =>
      if acc.truncated then acc else collectAll (collect size limits acc piece) pieces

variable {size limits}

theorem totalWeight_append (front items : List ρ) :
    totalWeight size (front ++ items) =
      items.foldl (fun weight item => saturatingAdd weight (size item))
        (totalWeight size front) := by
  rw [totalWeight, List.foldl_append, ← totalWeight]

theorem totalWeight_bounded (items : List ρ) : totalWeight size items ≤ 2 ^ 64 - 1 := by
  induction items using List.reverseRecOn with
  | nil => simp [totalWeight]
  | append_singleton items item ih =>
      rw [totalWeight_append]
      exact Nat.min_le_right _ _

theorem totalWeight_mono {front items : List ρ} (h : front <+: items) :
    totalWeight size front ≤ totalWeight size items := by
  obtain ⟨rest, rfl⟩ := h
  induction rest using List.reverseRecOn with
  | nil => simp
  | append_singleton rest item ih =>
      have hstep : totalWeight size (front ++ rest) ≤
          totalWeight size (front ++ (rest ++ [item])) := by
        rw [← List.append_assoc, totalWeight_append (front ++ rest)]
        exact le_saturatingAdd _ (totalWeight_bounded _)
      exact Nat.le_trans ih hstep

theorem Fits.mono {front items : List ρ} (hfits : Fits size limits items)
    (h : front <+: items) : Fits size limits front :=
  ⟨fun limit hlimit => Nat.le_trans h.length_le (hfits.1 limit hlimit),
    fun limit hlimit => Nat.le_trans (totalWeight_mono h) (hfits.2 limit hlimit)⟩

theorem fits_nil : Fits size limits [] := by
  simp [Fits, totalWeight]

theorem within_iff (limit : Option ℕ) (n : ℕ) :
    (∀ bound ∈ limit, n ≤ bound) ↔ (limit.any fun bound => bound < n) = false := by
  cases limit with
  | none =>
      simp only [Option.any_none, Option.mem_def, reduceCtorEq, false_implies, implies_true]
  | some bound =>
      simp only [Option.mem_def, Option.some.injEq, forall_eq', Option.any_some,
        decide_eq_false_iff_not, Nat.not_lt]

/-- What the loop tests before it takes an item. -/
theorem fits_snoc_iff (size : ρ → ℕ) (limits : Limits) (items : List ρ) (item : ρ) :
    Fits size limits (items ++ [item]) ↔
      (limits.count.any fun limit => limit ≤ items.length) = false ∧
        (limits.weight.any fun limit =>
          limit < saturatingAdd (totalWeight size items) (size item)) = false := by
  have hweight : totalWeight size (items ++ [item]) =
      saturatingAdd (totalWeight size items) (size item) := totalWeight_append items [item]
  rw [Fits, hweight, List.length_append, List.length_singleton, within_iff, within_iff]
  simp only [Nat.lt_add_one_iff]

/-- One item too many: nothing longer fits either. -/
theorem collects_stop {whole rest : List ρ} {acc : Collected ρ} {item : ρ}
    (hwhole : whole = acc.items ++ item :: rest) (hfits : Fits size limits acc.items)
    (hstop : ¬ Fits size limits (acc.items ++ [item])) :
    Collects size limits whole { acc with truncated := true } where
  front := by
    rw [hwhole]
    exact List.prefix_append _ _
  fits := hfits
  longest := by
    intro items hitems hother
    have hnext : acc.items ++ [item] <+: whole := by
      rw [hwhole]
      exact ⟨rest, by simp⟩
    have hshort : items.length ≤ acc.items.length := by
      by_contra hlong
      have hle : (acc.items ++ [item]).length ≤ items.length := by
        simp only [List.length_append, List.length_singleton]
        omega
      exact hstop (hother.mono (List.prefix_of_prefix_length_le hnext hitems hle))
    have hacc : acc.items <+: whole := (List.prefix_append _ _).trans hnext
    exact List.prefix_of_prefix_length_le hitems hacc hshort
  flag := by
    refine iff_of_true rfl fun hall => hstop (hall.mono ?_)
    rw [hwhole]
    exact ⟨rest, by simp⟩

/-- A collection that has taken everything. -/
theorem collects_whole {acc : Collected ρ} (hfits : Fits size limits acc.items)
    (hflag : acc.truncated = false) : Collects size limits acc.items acc :=
  ⟨List.prefix_refl _, hfits, fun _ hitems _ => hitems, by simp [hflag, hfits]⟩

/-- A collection so far: everything taken, and the weight is that of the items. -/
structure Ongoing (size : ρ → ℕ) (limits : Limits) (acc : Collected ρ) : Prop where
  fits : Fits size limits acc.items
  weight : acc.weight = totalWeight size acc.items
  flag : acc.truncated = false

theorem collect_spec {acc : Collected ρ} (hacc : Ongoing size limits acc) (piece : List ρ) :
    Collects size limits (acc.items ++ piece) (collect size limits acc piece) ∧
      ((collect size limits acc piece).truncated = false →
        Ongoing size limits (collect size limits acc piece) ∧
          (collect size limits acc piece).items = acc.items ++ piece) := by
  induction piece generalizing acc with
  | nil =>
      rw [collect, List.append_nil]
      exact ⟨collects_whole hacc.fits hacc.flag, fun _ => ⟨hacc, rfl⟩⟩
  | cons item rest ih =>
      have hsnoc := fits_snoc_iff size limits acc.items item
      rw [← hacc.weight] at hsnoc
      rw [collect]
      split
      · rename_i hcount
        have hstop : ¬ Fits size limits (acc.items ++ [item]) := by simp [hsnoc, hcount]
        exact ⟨collects_stop rfl hacc.fits hstop, fun h => by simp at h⟩
      · rename_i hcount
        split
        · rename_i hweight
          have hstop : ¬ Fits size limits (acc.items ++ [item]) := by simp [hsnoc, hweight]
          exact ⟨collects_stop rfl hacc.fits hstop, fun h => by simp at h⟩
        · rename_i hweight
          have hfits : Fits size limits (acc.items ++ [item]) := by
            rw [hsnoc]
            exact ⟨by simpa using hcount, by simpa using hweight⟩
          have hnext : Ongoing size limits
              { acc with
                items := acc.items ++ [item], weight := saturatingAdd acc.weight (size item) } :=
            ⟨hfits, by rw [hacc.weight]; exact (totalWeight_append acc.items [item]).symm,
              hacc.flag⟩
          simpa using ih hnext

theorem empty_ongoing : Ongoing size limits ({} : Collected ρ) := ⟨fits_nil, rfl, rfl⟩

/-- More items behind a piece that did not fit change nothing. -/
theorem Collects.extend {whole more : List ρ} {acc : Collected ρ}
    (h : Collects size limits whole acc) (hflag : acc.truncated = true) :
    Collects size limits (whole ++ more) acc where
  front := h.front.trans (List.prefix_append _ _)
  fits := h.fits
  longest := by
    intro items hitems hfits
    have hwhole : ¬ Fits size limits whole := h.flag.mp hflag
    rcases List.prefix_or_prefix_of_prefix hitems (List.prefix_append whole more) with hle | hge
    · exact h.longest items hle hfits
    · exact absurd (hfits.mono hge) hwhole
  flag := by
    refine iff_of_true hflag fun hall => ?_
    exact h.flag.mp hflag (hall.mono (List.prefix_append _ _))

theorem collectAll_spec {acc : Collected ρ} (hacc : Ongoing size limits acc)
    (pieces : List (List ρ)) :
    Collects size limits (acc.items ++ pieces.flatten) (collectAll size limits acc pieces) := by
  induction pieces generalizing acc with
  | nil =>
      rw [collectAll, List.flatten_nil, List.append_nil]
      exact collects_whole hacc.fits hacc.flag
  | cons piece pieces ih =>
      rw [collectAll, hacc.flag, List.flatten_cons, ← List.append_assoc]
      simp only [Bool.false_eq_true, if_false]
      obtain ⟨hpiece, hnext⟩ := collect_spec hacc piece
      cases hflag : (collect size limits acc piece).truncated with
      | false =>
          obtain ⟨hongoing, hitems⟩ := hnext hflag
          rw [← hitems]
          exact ih hongoing
      | true =>
          have hstay : collectAll size limits (collect size limits acc piece) pieces =
              collect size limits acc piece := by
            cases pieces <;> simp [collectAll, hflag]
          rw [hstay]
          exact hpiece.extend hflag

theorem Collects.eq_of_not_truncated {whole : List ρ} {acc : Collected ρ}
    (h : Collects size limits whole acc) (hflag : acc.truncated = false) :
    acc.items = whole := by
  have hfits : Fits size limits whole := by
    by_contra hno
    rw [h.flag.mpr hno] at hflag
    cases hflag
  exact List.IsPrefix.eq_of_length_le h.front
    (h.longest whole (List.prefix_refl _) hfits).length_le

end DbtNova.BoundedCollect
