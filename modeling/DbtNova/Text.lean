import Mathlib.Data.List.DropRight
import Mathlib.Tactic.Common

/-!
# Text operations of the Rust standard library

Strings are read as lists of characters. The functions below follow the
documented behaviour of the `str` methods of the same names: trimming removes
the characters of the Unicode property White_Space, while the `ascii` case
functions leave every character outside ASCII alone.
-/
namespace DbtNova.Text

/-- `char::is_whitespace`. -/
def isWhitespace (c : Char) : Bool :=
  (0x9 ≤ c.toNat && c.toNat ≤ 0xD) || c.toNat == 0x20 || c.toNat == 0x85 ||
    c.toNat == 0xA0 || c.toNat == 0x1680 || (0x2000 ≤ c.toNat && c.toNat ≤ 0x200A) ||
    c.toNat == 0x2028 || c.toNat == 0x2029 || c.toNat == 0x202F || c.toNat == 0x205F ||
    c.toNat == 0x3000

def trimStartChars (cs : List Char) : List Char := cs.dropWhile isWhitespace

def trimChars (cs : List Char) : List Char :=
  (trimStartChars (trimStartChars cs).reverse).reverse

def trim (s : String) : String := String.ofList (trimChars s.toList)

theorem mem_trimStartChars {cs : List Char} {c : Char} (h : c ∈ cs) (hc : isWhitespace c = false) :
    c ∈ trimStartChars cs := by
  induction cs with
  | nil => cases h
  | cons d ds ih =>
      unfold trimStartChars
      by_cases hd : isWhitespace d = true
      · rw [List.dropWhile_cons_of_pos hd]
        apply ih
        cases List.mem_cons.mp h with
        | inl heq =>
            rw [heq, hd] at hc
            cases hc
        | inr hmem => exact hmem
      · rw [List.dropWhile_cons_of_neg hd]
        exact h

/-- Trimming removes no character that is not white space. -/
theorem mem_trimChars {cs : List Char} {c : Char} (h : c ∈ cs) (hc : isWhitespace c = false) :
    c ∈ trimChars cs := by
  unfold trimChars
  apply List.mem_reverse.mpr
  apply mem_trimStartChars _ hc
  exact List.mem_reverse.mpr (mem_trimStartChars h hc)

/-- Trimming a trimmed text changes nothing. -/
theorem trim_trim (s : String) : trim (trim s) = trim s := by
  have hchars : ∀ cs : List Char, trimChars cs = (cs.dropWhile isWhitespace).rdropWhile
      isWhitespace := fun _ => rfl
  unfold trim
  rw [String.toList_ofList, hchars (trimChars s.toList), hchars s.toList]
  generalize hstart : s.toList.dropWhile isWhitespace = start
  have hhead : start.dropWhile isWhitespace = start := by
    rw [← hstart]
    exact List.dropWhile_idempotent isWhitespace s.toList
  -- what is left of the front after trimming the end begins as before
  have hfront : (start.rdropWhile isWhitespace).dropWhile isWhitespace =
      start.rdropWhile isWhitespace := by
    cases hrest : start.rdropWhile isWhitespace with
    | nil => rfl
    | cons c rest =>
        obtain ⟨tail, hinitial⟩ := List.rdropWhile_prefix isWhitespace start
        rw [hrest] at hinitial
        rw [← hinitial, List.cons_append] at hhead
        by_cases hc : isWhitespace c = true
        · rw [List.dropWhile_cons_of_pos hc] at hhead
          have hlength : ((rest ++ tail).dropWhile isWhitespace).length ≤ (rest ++ tail).length :=
            (List.dropWhile_suffix isWhitespace).length_le
          rw [hhead, List.length_cons] at hlength
          omega
        · exact List.dropWhile_cons_of_neg hc
  rw [hfront, List.rdropWhile_idempotent]

def toAsciiLowercase (s : String) : String := String.ofList (s.toList.map Char.toLower)

def toAsciiUppercase (s : String) : String := String.ofList (s.toList.map Char.toUpper)

def eqIgnoreAsciiCase (a b : String) : Bool :=
  a.toList.map Char.toLower == b.toList.map Char.toLower

/-! ## Letters of either case -/

theorem toNat_toLower (c : Char) :
    c.toLower.toNat = if 65 ≤ c.toNat ∧ c.toNat ≤ 90 then c.toNat + 32 else c.toNat := by
  unfold Char.toLower
  split
  · rename_i h
    have hrange : 65 ≤ c.toNat ∧ c.toNat ≤ 90 := h
    have hle : c.val.toNat ≤ 90 := hrange.2
    rw [if_pos hrange]
    change (c.val + 32).toNat = c.val.toNat + 32
    rw [UInt32.toNat_add]
    change (c.val.toNat + 32) % 4294967296 = _
    omega
  · rename_i h
    have hrange : ¬ (65 ≤ c.toNat ∧ c.toNat ≤ 90) := h
    rw [if_neg hrange]

theorem toNat_toUpper (c : Char) :
    c.toUpper.toNat = if 97 ≤ c.toNat ∧ c.toNat ≤ 122 then c.toNat - 32 else c.toNat := by
  unfold Char.toUpper
  split
  · rename_i h
    have hrange : 97 ≤ c.toNat ∧ c.toNat ≤ 122 := h
    have hle : 97 ≤ c.val.toNat ∧ c.val.toNat ≤ 122 := hrange
    rw [if_pos hrange]
    change (c.val + ('A'.val - 'a'.val)).toNat = c.val.toNat - 32
    rw [UInt32.toNat_add]
    change (c.val.toNat + 4294967264) % 4294967296 = _
    omega
  · rename_i h
    have hrange : ¬ (97 ≤ c.toNat ∧ c.toNat ≤ 122) := h
    rw [if_neg hrange]

@[simp] theorem toLower_toUpper (c : Char) : c.toUpper.toLower = c.toLower := by
  apply Char.toNat_inj.mp
  rw [toNat_toLower, toNat_toLower, toNat_toUpper]
  split_ifs <;> omega

@[simp] theorem toLower_toLower (c : Char) : c.toLower.toLower = c.toLower := by
  apply Char.toNat_inj.mp
  rw [toNat_toLower, toNat_toLower]
  split_ifs <;> omega

theorem isWhitespace_congr {c d : Char}
    (h : c.toNat = d.toNat ∨ (33 ≤ c.toNat ∧ c.toNat ≤ 126 ∧ 33 ≤ d.toNat ∧ d.toNat ≤ 126)) :
    isWhitespace c = isWhitespace d := by
  unfold isWhitespace
  cases h with
  | inl heq => rw [heq]
  | inr hrange =>
      rw [Bool.eq_iff_iff]
      simp only [Bool.or_eq_true, Bool.and_eq_true, decide_eq_true_eq, beq_iff_eq]
      omega

theorem isWhitespace_toLower (c : Char) : isWhitespace c.toLower = isWhitespace c := by
  apply isWhitespace_congr
  rw [toNat_toLower]
  split_ifs <;> omega

theorem isWhitespace_toUpper (c : Char) : isWhitespace c.toUpper = isWhitespace c := by
  apply isWhitespace_congr
  rw [toNat_toUpper]
  split_ifs <;> omega

theorem trimChars_map {f : Char → Char} (h : ∀ c, isWhitespace (f c) = isWhitespace c)
    (cs : List Char) : trimChars (cs.map f) = (trimChars cs).map f := by
  have hstart : ∀ cs : List Char, trimStartChars (cs.map f) = (trimStartChars cs).map f := by
    intro cs
    unfold trimStartChars
    rw [List.dropWhile_map]
    have hsame : isWhitespace ∘ f = isWhitespace := funext h
    rw [hsame]
  unfold trimChars
  rw [hstart, ← List.map_reverse, hstart, List.map_reverse]

theorem trim_toAsciiLowercase (s : String) :
    trim (toAsciiLowercase s) = toAsciiLowercase (trim s) := by
  unfold trim toAsciiLowercase
  rw [String.toList_ofList, String.toList_ofList, trimChars_map isWhitespace_toLower]

theorem trim_toAsciiUppercase (s : String) :
    trim (toAsciiUppercase s) = toAsciiUppercase (trim s) := by
  unfold trim toAsciiUppercase
  rw [String.toList_ofList, String.toList_ofList, trimChars_map isWhitespace_toUpper]

@[simp] theorem toAsciiLowercase_idem (s : String) :
    toAsciiLowercase (toAsciiLowercase s) = toAsciiLowercase s := by
  unfold toAsciiLowercase
  rw [String.toList_ofList, List.map_map]
  exact congrArg String.ofList (List.map_congr_left fun c _ => toLower_toLower c)

@[simp] theorem toAsciiLowercase_upper (s : String) :
    toAsciiLowercase (toAsciiUppercase s) = toAsciiLowercase s := by
  unfold toAsciiLowercase toAsciiUppercase
  rw [String.toList_ofList, List.map_map]
  exact congrArg String.ofList (List.map_congr_left fun c _ => toLower_toUpper c)

/-! ## Parts of a text -/

def splitWhitespace (cs : List Char) : List (List Char) :=
  (cs.foldr (fun c words =>
    if isWhitespace c then [] :: words
    else match words with
      | [] => [[c]]
      | word :: words => (c :: word) :: words) [[]]).filter fun word => !word.isEmpty

/-- `skipped` characters belong to the match before. -/
def replaceFrom (pattern replacement : List Char) : ℕ → List Char → List Char
  | _, [] => []
  | skipped + 1, _ :: rest => replaceFrom pattern replacement skipped rest
  | 0, c :: rest =>
      if pattern.isPrefixOf (c :: rest) then
        replacement ++ replaceFrom pattern replacement (pattern.length - 1) rest
      else c :: replaceFrom pattern replacement 0 rest

/-- Replaces the matches of a pattern, from left to right. -/
def replace (pattern replacement : String) (cs : List Char) : List Char :=
  replaceFrom pattern.toList replacement.toList 0 cs

/-- The order of texts, which is that of their characters. -/
def lt (a b : String) : Bool := List.lex a.toList b.toList fun c d => decide (c.toNat < d.toNat)

def insertSorted (a : String) : List String → List String
  | [] => [a]
  | b :: bs => if lt a b then a :: b :: bs else if a = b then b :: bs else b :: insertSorted a bs

/-- The elements of a `BTreeSet` with these members. -/
def sortedSet (xs : List String) : List String := xs.foldr insertSorted []

end DbtNova.Text
