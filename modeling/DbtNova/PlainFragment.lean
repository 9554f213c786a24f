import DbtNova.SqlStructure

/-!
# Words that normalizing keeps

A text of small letters, digits, underscores and dots is its own normal form when no
literal is found in it. There are as many words of letters as one needs, which gives names
that a statement does not use yet.
-/
namespace DbtNova.PlainFragment
open PrintedSql SqlLiterals SqlStructure

/-- A fragment before its aliases are replaced. -/
def fragmentText (value : List Char) : String :=
  let masked := maskSqlLiterals value
  let unquoted := masked.filter fun c => !(c == '"' || c == '\x60' || c == '[' || c == ']')
  let normalized := collapseWhitespace (unquoted.map Char.toLower)
  let normalized := Text.replace " . " "." normalized
  let normalized := Text.replace " ." "." normalized
  let normalized := Text.replace ". " "." normalized
  let normalized := Text.replace "( " "(" normalized
  let normalized := Text.replace " )" ")" normalized
  let normalized := Text.replace " ," "," normalized
  String.ofList normalized

theorem normalizeSqlFragment_eq (value : List Char) (aliases : Aliases) :
    normalizeSqlFragment value aliases =
      stripSingleTableQualifier (applyAliases (fragmentText value) aliases) aliases := rfl

/-- A character that normalizing leaves alone. -/
def PlainChar (c : Char) : Prop := c.isLower = true ∨ c.isDigit = true ∨ c = '_' ∨ c = '.'

section Letters
variable {text : List Char}

theorem isLower_ne {c d : Char} (hc : c.isLower = true) (hd : d.isLower = false) : c ≠ d := by
  intro heq
  rw [heq, hd] at hc
  cases hc

theorem isLower_toNat {c : Char} (h : c.isLower = true) : 97 ≤ c.toNat ∧ c.toNat ≤ 122 := by
  change (decide (c.val ≥ 97) && decide (c.val ≤ 122)) = true at h
  rw [Bool.and_eq_true, decide_eq_true_eq, decide_eq_true_eq] at h
  exact h

theorem maskFrom_of_lower (h : ∀ c ∈ text, c.isLower = true) (previous : Option Char) :
    maskFrom previous text = text := by
  induction text generalizing previous with
  | nil => rfl
  | cons c rest ih =>
      rw [List.forall_mem_cons] at h
      have hrange := isLower_toNat h.1
      have hquote : c ≠ '\'' := isLower_ne h.1 rfl
      have hsign : isSign c = false := by
        unfold isSign
        rw [Bool.or_eq_false_iff, beq_eq_false_iff_ne, beq_eq_false_iff_ne]
        exact ⟨isLower_ne h.1 rfl, isLower_ne h.1 rfl⟩
      have hdigit : c.isDigit = false := by
        unfold Char.isDigit
        rw [Bool.and_eq_false_iff, decide_eq_false_iff_not, decide_eq_false_iff_not]
        refine Or.inr fun hle => ?_
        have hnat : c.toNat ≤ 57 := hle
        omega
      rw [maskFrom_copied, ih h.2]
      rw [literalLength_cons, if_neg hquote, if_neg]
      rw [hsign, hdigit]
      simp only [Bool.false_eq_true, false_and, or_self, not_false_eq_true]

theorem replaceFrom_of_not_mem {pattern : List Char} {c : Char} (hpattern : c ∈ pattern)
    (h : c ∉ text) (replacement : List Char) :
    Text.replaceFrom pattern replacement 0 text = text := by
  induction text with
  | nil => rfl
  | cons d rest ih =>
      have hnot : pattern.isPrefixOf (d :: rest) ≠ true := fun hlead =>
        h ((List.isPrefixOf_iff_prefix.mp hlead).subset hpattern)
      rw [Text.replaceFrom, if_neg hnot, ih fun hmem => h (List.mem_cons_of_mem d hmem)]

theorem replaceQualifierFrom_of_not_mem {needle : List Char} {c : Char} (hneedle : c ∈ needle)
    (h : c ∉ text) (replacement : List Char) (previous : Option Char) :
    replaceQualifierFrom needle replacement 0 previous text = text := by
  induction text generalizing previous with
  | nil => rfl
  | cons d rest ih =>
      have hnot : needle.isPrefixOf (d :: rest) ≠ true := fun hlead =>
        h ((List.isPrefixOf_iff_prefix.mp hlead).subset hneedle)
      rw [replaceQualifierFrom, if_neg hnot, ih fun hmem => h (List.mem_cons_of_mem d hmem)]

theorem replaceQualifier_of_not_mem {value : String} (h : '.' ∉ value.toList)
    (label canonical : String) : replaceQualifier value label canonical = value := by
  have hneedle : '.' ∈ (label ++ ".").toList := by
    rw [String.toList_append]
    exact List.mem_append_right _ (List.mem_singleton.mpr rfl)
  unfold replaceQualifier
  simp only [replaceQualifierFrom_of_not_mem hneedle h, String.ofList_toList]

theorem applyAliases_of_not_mem {value : String} (h : '.' ∉ value.toList) (aliases : Aliases) :
    applyAliases value aliases = value := by
  unfold applyAliases
  generalize aliases.insertionSort comesBefore = entries
  induction entries with
  | nil => rfl
  | cons entry entries ih =>
      rw [List.foldl_cons, replaceQualifier_of_not_mem h, ite_self, ih]

theorem stripSingleTableQualifier_of_not_mem {value : String} (h : '.' ∉ value.toList)
    (aliases : Aliases) : stripSingleTableQualifier value aliases = value := by
  unfold stripSingleTableQualifier
  split
  · rw [replaceQualifier_of_not_mem h, ite_self]
  · rfl

theorem PlainChar.toNat {c : Char} (h : PlainChar c) :
    (97 ≤ c.toNat ∧ c.toNat ≤ 122) ∨ (48 ≤ c.toNat ∧ c.toNat ≤ 57) ∨ c.toNat = 95 ∨
      c.toNat = 46 := by
  rcases h with hlower | hdigit | rfl | rfl
  · exact Or.inl (isLower_toNat hlower)
  · unfold Char.isDigit at hdigit
    rw [Bool.and_eq_true, decide_eq_true_eq, decide_eq_true_eq] at hdigit
    exact Or.inr (Or.inl hdigit)
  · exact Or.inr (Or.inr (Or.inl rfl))
  · exact Or.inr (Or.inr (Or.inr rfl))

/-- Characters that are all put in front of the last word. -/
theorem foldr_word {f : Char → List (List Char) → List (List Char)}
    (hf : ∀ c ∈ text, ∀ word, f c [word] = [c :: word]) : text.foldr f [[]] = [text] := by
  induction text with
  | nil => rfl
  | cons c rest ih =>
      rw [List.forall_mem_cons] at hf
      rw [List.foldr_cons, ih hf.2, hf.1]

theorem splitWhitespace_of_plain (h : ∀ c ∈ text, PlainChar c) (hne : text ≠ []) :
    Text.splitWhitespace text = [text] := by
  unfold Text.splitWhitespace
  rw [foldr_word]
  · cases text with
    | nil => exact absurd rfl hne
    | cons c rest => rfl
  · intro c hc word
    have hrange := (h c hc).toNat
    have hspace : Text.isWhitespace c = false := by
      unfold Text.isWhitespace
      simp only [Bool.or_eq_false_iff, Bool.and_eq_false_iff, decide_eq_false_iff_not,
        beq_eq_false_iff_ne]
      omega
    rw [if_neg (Bool.eq_false_iff.mp hspace)]

/-- A plain text without literals is not changed before its aliases are replaced. -/
theorem fragmentText_of_plain (hmask : maskFrom none text = text) (h : ∀ c ∈ text, PlainChar c)
    (hne : text ≠ []) : fragmentText text = String.ofList text := by
  have hnot : ∀ {c d : Char}, PlainChar c → ¬ PlainChar d → c ≠ d := fun hc hd heq =>
    hd (heq ▸ hc)
  have hspecial : ∀ d : Char, d.toNat < 46 ∨ d.toNat = 91 ∨ d.toNat = 93 ∨ d.toNat = 96 →
      ¬ PlainChar d := by
    intro d hd hplain
    have hrange := hplain.toNat
    omega
  have hfilter : text.filter (fun c => !(c == '"' || c == '\x60' || c == '[' || c == ']')) =
      text := by
    apply List.filter_eq_self.mpr
    intro c hc
    simp only [Bool.not_eq_true', Bool.or_eq_false_iff, beq_eq_false_iff_ne]
    exact ⟨⟨⟨hnot (h c hc) (hspecial _ (by decide)), hnot (h c hc) (hspecial _ (by decide))⟩,
      hnot (h c hc) (hspecial _ (by decide))⟩, hnot (h c hc) (hspecial _ (by decide))⟩
  have hlower : text.map Char.toLower = text := by
    refine (List.map_congr_left fun c hc => ?_).trans (List.map_id' text)
    have hrange := (h c hc).toNat
    rw [← Char.toNat_inj, Text.toNat_toLower, if_neg (by omega)]
  have hspace : ' ' ∉ text := fun hmem => hspecial ' ' (by decide) (h ' ' hmem)
  have hreplace : ∀ pattern replacement : String, ' ' ∈ pattern.toList →
      Text.replace pattern replacement text = text := fun pattern replacement hpattern =>
    replaceFrom_of_not_mem hpattern hspace replacement.toList
  unfold fragmentText maskSqlLiterals collapseWhitespace
  rw [hmask]
  simp only [hfilter, hlower, splitWhitespace_of_plain h hne, List.intercalate_singleton]
  rw [hreplace " . " _ (by decide), hreplace " ." _ (by decide), hreplace ". " _ (by decide),
    hreplace "( " _ (by decide), hreplace " )" _ (by decide), hreplace " ," _ (by decide)]

/-- A word of letters is its own normal form. -/
theorem normalizeSqlFragment_of_lower (h : ∀ c ∈ text, c.isLower = true) (hne : text ≠ [])
    (aliases : Aliases) : normalizeSqlFragment text aliases = String.ofList text := by
  have hdot : '.' ∉ (String.ofList text).toList := by
    rw [String.toList_ofList]
    exact fun hmem => isLower_ne (h '.' hmem) rfl rfl
  rw [normalizeSqlFragment_eq, fragmentText_of_plain (maskFrom_of_lower h none)
    (fun c hc => Or.inl (h c hc)) hne, applyAliases_of_not_mem hdot,
    stripSingleTableQualifier_of_not_mem hdot]

end Letters

/-- A word of this many letters. -/
def word (n : ℕ) : Printed Literal := [.fixed (String.ofList (List.replicate n 'a'))]

theorem normalizePrinted_word {n : ℕ} (hn : 0 < n) (aliases : Aliases) :
    normalizePrinted (word n) aliases = String.ofList (List.replicate n 'a') := by
  have hchars : Printed.chars (word n) = List.replicate n 'a' := by
    unfold word Printed.chars
    rw [List.flatMap_singleton]
    exact String.toList_ofList
  have hletters : ∀ c ∈ List.replicate n 'a', c.isLower = true := fun c hc =>
    (List.eq_of_mem_replicate hc) ▸ rfl
  have hne : List.replicate n 'a' ≠ [] := fun heq =>
    hn.ne' (by rw [← @List.length_replicate _ n, heq, List.length_nil])
  unfold normalizePrinted
  rw [hchars, normalizeSqlFragment_of_lower hletters hne]

/-- Some word is longer than all of these texts. -/
theorem exists_word (texts : List String) :
    ∃ n, 0 < n ∧ ∀ text ∈ texts, text.length < n := by
  induction texts with
  | nil => exact ⟨1, Nat.one_pos, fun _ hmem => absurd hmem List.not_mem_nil⟩
  | cons text texts ih =>
      obtain ⟨n, hn, hlonger⟩ := ih
      refine ⟨n + text.length + 1, Nat.succ_pos _, fun other hother => ?_⟩
      cases List.mem_cons.mp hother with
      | inl heq =>
          rw [heq]
          omega
      | inr hmem =>
          have hlt := hlonger other hmem
          omega

end DbtNova.PlainFragment
