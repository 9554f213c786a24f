import Mathlib.Data.List.Pairwise

/-!
# Choosing intervals from the left

A scan over a line goes from one interval that it takes to the next one that starts behind it. What
it takes is apart, and every interval it passes over starts inside one it took. Both together fix
the list. Filtering what was taken is the same as scanning for the kept kind only, unless something
that was filtered out has hidden an interval of that kind.
-/
namespace DbtNova.LeftmostChoice

variable {α : Type*} {lo hi : α → ℕ} {P A : α → Prop} {a b : α} {chosen chosen' : List α}

structure Leftmost (lo hi : α → ℕ) (P : α → Prop) (chosen : List α) : Prop where
  apart : chosen.Pairwise fun a b => hi a ≤ lo b
  mem : ∀ a ∈ chosen, P a
  covers : ∀ b, P b → ∃ a ∈ chosen, lo a ≤ lo b ∧ lo b < hi a

theorem leftmost_nil (h : ∀ b, ¬ P b) : Leftmost lo hi P [] :=
  ⟨.nil, fun _ ha => absurd ha List.not_mem_nil, fun b hb => absurd hb (h b)⟩

/-- The first interval, and then a choice among those that start behind it. -/
theorem leftmost_cons (ha : P a) (hfirst : ∀ b, P b → lo a ≤ lo b)
    (hrest : Leftmost lo hi (fun b => P b ∧ hi a ≤ lo b) chosen) :
    Leftmost lo hi P (a :: chosen) := by
  refine ⟨List.pairwise_cons.mpr ⟨fun b hb => (hrest.mem b hb).2, hrest.apart⟩, ?_, ?_⟩
  · intro b hb
    rcases List.mem_cons.mp hb with rfl | hb
    · exact ha
    · exact (hrest.mem b hb).1
  · intro b hb
    by_cases hinside : lo b < hi a
    · exact ⟨a, List.mem_cons_self, hfirst b hb, hinside⟩
    · obtain ⟨c, hc, hcover⟩ := hrest.covers b ⟨hb, Nat.not_lt.mp hinside⟩
      exact ⟨c, List.mem_cons_of_mem a hc, hcover⟩

theorem Leftmost.congr {Q : α → Prop} (h : Leftmost lo hi P chosen) (hiff : ∀ a, P a ↔ Q a) :
    Leftmost lo hi Q chosen :=
  ⟨h.apart, fun a ha => (hiff a).mp (h.mem a ha), fun b hb => h.covers b ((hiff b).mpr hb)⟩

/-- Two chosen intervals that meet a common point are the same. -/
theorem Leftmost.eq_of_meet (h : Leftmost lo hi P chosen) (ha : a ∈ chosen) (hb : b ∈ chosen)
    {n : ℕ} (hna : lo a ≤ n ∧ n < hi a) (hnb : lo b ≤ n ∧ n < hi b) : a = b := by
  by_contra hne
  have hsymm : Std.Symm fun a b => hi a ≤ lo b ∨ hi b ≤ lo a := ⟨fun _ _ => Or.symm⟩
  have hpairs : chosen.Pairwise fun a b => hi a ≤ lo b ∨ hi b ≤ lo a := h.apart.imp Or.inl
  have happart := hpairs.forall ha hb hne
  omega

/-- The first interval starts no later than any other. -/
theorem Leftmost.head_le (h : Leftmost lo hi P (a :: chosen)) (hpos : ∀ b, P b → lo b < hi b)
    (hb : P b) : lo a ≤ lo b := by
  obtain ⟨c, hc, hle, -⟩ := h.covers b hb
  rcases List.mem_cons.mp hc with rfl | hc
  · exact hle
  · have hahead := (List.pairwise_cons.mp h.apart).1 c hc
    have ha := hpos a (h.mem a List.mem_cons_self)
    omega

theorem Leftmost.tail (h : Leftmost lo hi P (a :: chosen)) :
    Leftmost lo hi (fun b => P b ∧ hi a ≤ lo b) chosen := by
  obtain ⟨hahead, hapart⟩ := List.pairwise_cons.mp h.apart
  refine ⟨hapart, fun b hb => ⟨h.mem b (List.mem_cons_of_mem a hb), hahead b hb⟩, ?_⟩
  rintro b ⟨hb, hbehind⟩
  obtain ⟨c, hc, hcover⟩ := h.covers b hb
  rcases List.mem_cons.mp hc with rfl | hc
  · omega
  · exact ⟨c, hc, hcover⟩

/-- What is apart and covers is fixed, where an interval is by its start. -/
theorem Leftmost.unique (h : Leftmost lo hi P chosen) (h' : Leftmost lo hi P chosen')
    (hpos : ∀ b, P b → lo b < hi b) (hstart : ∀ a b, P a → P b → lo a = lo b → a = b) :
    chosen = chosen' := by
  induction chosen generalizing P chosen' with
  | nil =>
      cases chosen' with
      | nil => rfl
      | cons b chosen' =>
          obtain ⟨c, hc, -⟩ := h.covers b (h'.mem b List.mem_cons_self)
          exact absurd hc List.not_mem_nil
  | cons a chosen ih =>
      have ha := h.mem a List.mem_cons_self
      cases chosen' with
      | nil =>
          obtain ⟨c, hc, -⟩ := h'.covers a ha
          exact absurd hc List.not_mem_nil
      | cons b chosen' =>
          have hb := h'.mem b List.mem_cons_self
          obtain rfl := hstart a b ha hb (Nat.le_antisymm (h.head_le hpos hb) (h'.head_le hpos ha))
          have hrest := ih h.tail h'.tail (fun c hc => hpos c hc.1)
            (fun c d hc hd => hstart c d hc.1 hd.1)
          rw [hrest]

/-- What is kept is the choice among its kind exactly where nothing of that kind starts inside
something that was not kept. -/
theorem Leftmost.filter_iff [DecidablePred A] (h : Leftmost lo hi P chosen) :
    Leftmost lo hi (fun a => P a ∧ A a) (chosen.filter fun a => A a) ↔
      ∀ a ∈ chosen, ¬ A a → ∀ b, P b → A b → ¬ (lo a ≤ lo b ∧ lo b < hi a) := by
  constructor
  · intro hfilter a ha hA b hb hAb hinside
    obtain ⟨c, hc, hcover⟩ := hfilter.covers b ⟨hb, hAb⟩
    obtain ⟨hmem, hAc⟩ := List.mem_filter.mp hc
    rw [h.eq_of_meet ha hmem hinside hcover] at hA
    exact hA (of_decide_eq_true hAc)
  · intro hhides
    refine ⟨h.apart.filter _, ?_, ?_⟩
    · intro a ha
      obtain ⟨hmem, hA⟩ := List.mem_filter.mp ha
      exact ⟨h.mem a hmem, of_decide_eq_true hA⟩
    · rintro b ⟨hb, hAb⟩
      obtain ⟨a, ha, hcover⟩ := h.covers b hb
      by_cases hA : A a
      · exact ⟨a, List.mem_filter.mpr ⟨ha, decide_eq_true hA⟩, hcover⟩
      · exact absurd hcover (hhides a ha hA b hb hAb)

end DbtNova.LeftmostChoice
