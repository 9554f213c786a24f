import Mathlib.InformationTheory.Hamming

/-!
# Flipping bits

The number of bits in which two words differ, and how it changes when one bit is flipped.
-/
namespace DbtNova.BitFlips
variable {w : ℕ} {a b : BitVec w} {i : ℕ}

def bitDistance (a b : BitVec w) : ℕ :=
  hammingDist (fun i : Fin w => a.getLsbD i) fun i : Fin w => b.getLsbD i

def flipBit (a : BitVec w) (i : ℕ) : BitVec w := a ^^^ 1#w <<< i

theorem getLsbD_flipBit_self (h : i < w) : (flipBit a i).getLsbD i = !a.getLsbD i := by
  simp [flipBit, h]

theorem getLsbD_flipBit_ne {j : ℕ} (h : i ≠ j) : (flipBit a i).getLsbD j = a.getLsbD j := by
  have hbit : (1#w <<< i).getLsbD j = false := by
    simp
    omega
  rw [flipBit, BitVec.getLsbD_xor, hbit, Bool.xor_false]

theorem flipBit_flipBit (a : BitVec w) (i : ℕ) : flipBit (flipBit a i) i = a := by
  rw [flipBit, flipBit, BitVec.xor_assoc, BitVec.xor_self, BitVec.xor_zero]

theorem bitDistance_eq_zero_iff : bitDistance a b = 0 ↔ a = b := by
  rw [bitDistance, hammingDist_eq_zero]
  constructor
  · intro h
    apply BitVec.eq_of_getLsbD_eq
    intro i hi
    exact congrFun h ⟨i, hi⟩
  · intro h
    rw [h]

theorem bitDistance_comm (a b : BitVec w) : bitDistance a b = bitDistance b a :=
  hammingDist_comm _ _

/-- Flipping a bit in which two words differ brings them closer. -/
theorem bitDistance_flipBit (hi : i < w) (h : a.getLsbD i ≠ b.getLsbD i) :
    bitDistance a b = bitDistance (flipBit a i) b + 1 := by
  have hmem : (⟨i, hi⟩ : Fin w) ∈
      Finset.univ.filter fun k : Fin w => a.getLsbD k ≠ b.getLsbD k :=
    Finset.mem_filter.mpr ⟨Finset.mem_univ _, h⟩
  have herase : (Finset.univ.filter fun k : Fin w => (flipBit a i).getLsbD k ≠ b.getLsbD k) =
      (Finset.univ.filter fun k : Fin w => a.getLsbD k ≠ b.getLsbD k).erase ⟨i, hi⟩ := by
    ext k
    rw [Finset.mem_erase, Finset.mem_filter, Finset.mem_filter]
    by_cases hk : i = k.val
    · subst hk
      rw [getLsbD_flipBit_self k.isLt]
      simpa using h
    · have hne : k ≠ ⟨i, hi⟩ := fun heq => hk (congrArg Fin.val heq).symm
      rw [getLsbD_flipBit_ne hk]
      simp [hne]
  unfold bitDistance hammingDist
  rw [herase, Finset.card_erase_add_one hmem]

/-- Two words that differ are one step further apart than after some flip. -/
theorem bitDistance_eq_succ_iff {n : ℕ} :
    bitDistance a b = n + 1 ↔
      ∃ i < w, a.getLsbD i ≠ b.getLsbD i ∧ bitDistance (flipBit a i) b = n := by
  constructor
  · intro h
    have hne : a ≠ b := by
      intro heq
      rw [bitDistance_eq_zero_iff.mpr heq] at h
      contradiction
    obtain ⟨i, hi, hbit⟩ : ∃ i, i < w ∧ a.getLsbD i ≠ b.getLsbD i := by
      by_contra hall
      push Not at hall
      exact hne (BitVec.eq_of_getLsbD_eq hall)
    rw [bitDistance_flipBit hi hbit] at h
    exact ⟨i, hi, hbit, Nat.succ_injective h⟩
  · intro h
    obtain ⟨i, hi, hbit, hn⟩ := h
    rw [bitDistance_flipBit hi hbit, hn]

theorem bitDistance_eq_one_iff : bitDistance a b = 1 ↔ ∃ i < w, flipBit a i = b := by
  rw [bitDistance_eq_succ_iff]
  constructor
  · intro h
    obtain ⟨i, hi, -, hzero⟩ := h
    exact ⟨i, hi, bitDistance_eq_zero_iff.mp hzero⟩
  · intro h
    obtain ⟨i, hi, rfl⟩ := h
    refine ⟨i, hi, ?_, bitDistance_eq_zero_iff.mpr rfl⟩
    rw [getLsbD_flipBit_self hi]
    simp

theorem bitDistance_eq_two_iff :
    bitDistance a b = 2 ↔ ∃ i j, i < j ∧ j < w ∧ flipBit (flipBit a i) j = b := by
  rw [bitDistance_eq_succ_iff]
  constructor
  · intro h
    obtain ⟨i, hi, hbit, hone⟩ := h
    obtain ⟨j, hj, hflip⟩ := bitDistance_eq_one_iff.mp hone
    have hne : i ≠ j := by
      intro heq
      rw [← heq, flipBit_flipBit] at hflip
      exact hbit (by rw [hflip])
    rcases Nat.lt_or_gt_of_ne hne with hlt | hgt
    · exact ⟨i, j, hlt, hj, hflip⟩
    · refine ⟨j, i, hgt, hi, ?_⟩
      rw [← hflip, flipBit, flipBit, flipBit, flipBit, BitVec.xor_assoc, BitVec.xor_assoc,
        BitVec.xor_comm (1#w <<< j)]
  · intro h
    obtain ⟨i, j, hlt, hj, rfl⟩ := h
    refine ⟨i, hlt.trans hj, ?_, bitDistance_eq_one_iff.mpr ⟨j, hj, rfl⟩⟩
    rw [getLsbD_flipBit_ne hlt.ne', getLsbD_flipBit_self (hlt.trans hj)]
    simp

/-- The flipped bits of words that agree from a position on lie below it. -/
theorem getLsbD_lt {bits : ℕ} (h : ∀ k ≥ bits, a.getLsbD k = b.getLsbD k)
    (hbit : a.getLsbD i ≠ b.getLsbD i) : i < bits := by
  by_contra hge
  exact hbit (h i (Nat.le_of_not_lt hge))

end DbtNova.BitFlips
