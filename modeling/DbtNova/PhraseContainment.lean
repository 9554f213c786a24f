import DbtNova.TokenJoin
import DbtNova.Utf8

/-!
# One phrase in another

`phrase_contains` of `tools/search/indicators.rs`. It looks at the first occurrence of the needle's
text only, so an occurrence that begins or ends inside a token hides the phrase behind it.
-/
namespace DbtNova.PhraseContainment
open TokenJoin Utf8

abbrev Str := List Char

def phraseContains (haystack needle : Str) : Bool :=
  if haystack = needle then true
  else
    match find needle haystack with
    | none => false
    | some start =>
        let stop := start + byteLen needle
        let beforeOk := start == 0 || (encode haystack)[start - 1]? == some ' '.toUInt8
        let afterOk := stop == byteLen haystack || (encode haystack)[stop]? == some ' '.toUInt8
        beforeOk && afterOk

section Contains
variable {h n : List Str} {haystack needle front back : Str}

/-- The checks before and behind an occurrence look for blanks. -/
theorem checks_iff (heq : haystack = front ++ needle ++ back) :
    ((byteLen front == 0 || (encode haystack)[byteLen front - 1]? == some ' '.toUInt8) &&
        (byteLen front + byteLen needle == byteLen haystack ||
          (encode haystack)[byteLen front + byteLen needle]? == some ' '.toUInt8)) = true ↔
      Aligned ' ' front back := by
  have hstop : byteLen front + byteLen needle = byteLen (front ++ needle) :=
    (byteLen_append front needle).symm
  have hafter : byteLen front + byteLen needle = byteLen haystack ↔ back = [] := by
    rw [heq, ← byteLen_eq_zero_iff]
    simp only [byteLen_append]
    omega
  have hbyte : (encode haystack)[byteLen front + byteLen needle]? = some ' '.toUInt8 ↔
      back.head? = some ' ' := by
    rw [hstop, heq]
    exact getElem?_behind_iff (d := ' ') (by decide)
  have hbefore : (byteLen front = 0 ∨
      (encode haystack)[byteLen front - 1]? = some ' '.toUInt8) ↔
        (front = [] ∨ front.getLast? = some ' ') := by
    rw [byteLen_eq_zero_iff]
    by_cases hfront : front = []
    · exact iff_of_true (Or.inl hfront) (Or.inl hfront)
    · have hlast : (encode (front ++ (needle ++ back)))[byteLen front - 1]? =
          some (UInt8.ofNat ' '.toNat) ↔ front.getLast? = some ' ' :=
        getElem?_before_iff (by decide) hfront
      rw [heq, List.append_assoc]
      exact or_congr_right hlast
  simp only [Bool.and_eq_true, Bool.or_eq_true, beq_iff_eq, hafter, hbyte, hbefore]
  rfl

/-- An occurrence with none before it. -/
def FirstOccurrence (haystack needle front back : Str) : Prop :=
  haystack = front ++ needle ++ back ∧
    ∀ front' back', haystack = front' ++ needle ++ back' → front.length ≤ front'.length

theorem phraseContains_iff (hne : haystack ≠ needle) :
    phraseContains haystack needle = true ↔
      ∃ front back, FirstOccurrence haystack needle front back ∧ Aligned ' ' front back := by
  unfold phraseContains
  rw [if_neg hne]
  cases hfind : find needle haystack with
  | none =>
      refine iff_of_false Bool.false_ne_true ?_
      rintro ⟨front, back, ⟨heq, -⟩, -⟩
      exact find_none hfind front back heq
  | some start =>
      obtain ⟨front, back, heq, rfl, hfirst⟩ := find_spec hfind
      refine (checks_iff heq).trans ⟨fun h => ⟨front, back, ⟨heq, hfirst⟩, h⟩, ?_⟩
      rintro ⟨front', back', ⟨heq', hfirst'⟩, haligned⟩
      have hlen : front.length = front'.length :=
        le_antisymm (hfirst front' back' heq') (hfirst' front back heq)
      have hsame := heq.symm.trans heq'
      rw [List.append_assoc, List.append_assoc] at hsame
      obtain ⟨rfl, hrest⟩ := List.append_inj hsame hlen
      rwa [List.append_cancel_left hrest]

/-- Each run of as many tokens that has the needle's text in it ends at or behind the needle. -/
def NoEarlierText (h n : List Str) : Prop :=
  ∀ pre w post, h = pre ++ w ++ post → w.length = n.length → join ' ' n <:+: join ' ' w →
    n <:+: pre ++ w

/-- Where the texts differ, a first occurrence at tokens is all that is looked for. -/
theorem phraseContains_join_iff (hh : Tokens ' ' h) (hhne : h ≠ []) (hn : Tokens ' ' n)
    (hne : n ≠ []) :
    phraseContains (join ' ' h) (join ' ' n) = true ↔ n <:+: h ∧ NoEarlierText h n := by
  by_cases hsame : join ' ' h = join ' ' n
  · have heq := join_injective hh hhne hn hne hsame
    subst heq
    refine iff_of_true (if_pos rfl) ⟨List.infix_rfl, ?_⟩
    intro pre w post hsplit hlen _
    have hlengths := congrArg List.length hsplit
    simp only [List.length_append] at hlengths
    have hpre : pre = [] := List.length_eq_zero_iff.mp (by omega)
    have hpost : post = [] := List.length_eq_zero_iff.mp (by omega)
    rw [hpre, hpost, List.append_nil] at hsplit
    rw [hpre, ← hsplit]
  · rw [phraseContains_iff hsame]
    constructor
    · rintro ⟨front, back, ⟨heq, hfirst⟩, haligned⟩
      obtain ⟨pre, post, hparts, -⟩ := (aligned_iff hh hhne hn hne).mp ⟨heq, haligned⟩
      exact ⟨⟨pre, post, hparts.symm⟩, (first_aligned_iff hh hhne hn hne heq hfirst).mp haligned⟩
    · rintro ⟨⟨pre, post, rfl⟩, hwindows⟩
      have hocc := join_append (s := ' ') hne pre post
      cases hfind : find (join ' ' n) (join ' ' (pre ++ n ++ post)) with
      | none => exact absurd hocc (find_none hfind _ _)
      | some start =>
          obtain ⟨front, back, heq, -, hfirst⟩ := find_spec hfind
          exact ⟨front, back, ⟨heq, hfirst⟩,
            (first_aligned_iff hh hhne hn hne heq hfirst).mpr hwindows⟩

theorem phraseContains_sublist_iff (hh : Tokens ' ' h) (hhne : h ≠ []) (hn : Tokens ' ' n)
    (hne : n ≠ []) :
    (phraseContains (join ' ' h) (join ' ' n) = true ↔ n <:+: h) ↔
      (n <:+: h → NoEarlierText h n) := by
  rw [phraseContains_join_iff hh hhne hn hne, and_iff_left_iff_imp]

theorem phraseContains_sublist_sales :
    (phraseContains (join ' ' ["net".toList, "sales".toList, "tax".toList])
          (join ' ' ["sales".toList, "tax".toList]) = true ↔
        ["sales".toList, "tax".toList] <:+: ["net".toList, "sales".toList, "tax".toList]) ↔
      (["sales".toList, "tax".toList] <:+: ["net".toList, "sales".toList, "tax".toList] →
        NoEarlierText ["net".toList, "sales".toList, "tax".toList]
          ["sales".toList, "tax".toList]) :=
  phraseContains_sublist_iff (by unfold Tokens; decide) (List.cons_ne_nil _ _)
    (by unfold Tokens; decide) (List.cons_ne_nil _ _)

/-- The text of the needle begins inside `metadata` first. -/
theorem data_lake_missed :
    phraseContains
        (join ' ' ["metadata".toList, "lake".toList, "data".toList, "lake".toList])
        (join ' ' ["data".toList, "lake".toList]) = false ∧
      ["data".toList, "lake".toList] <:+:
        ["metadata".toList, "lake".toList, "data".toList, "lake".toList] := by
  refine ⟨by decide, ["metadata".toList, "lake".toList], [], rfl⟩

end Contains

end DbtNova.PhraseContainment
