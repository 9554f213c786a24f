import DbtNova.Boundary
import DbtNova.Text

/-!
# Texts under their byte offsets

A text is a list of characters, and its bytes are those of its UTF-8 form. An offset
counts bytes; a slice at an offset inside a character panics. An offset that holds an
ASCII byte is the bound of a character, and so is the next one.
-/
namespace DbtNova.Utf8

def encode (s : List Char) : List UInt8 := s.flatMap String.utf8EncodeChar

def byteLen (s : List Char) : ℕ := Boundary.extent Char.utf8Size s

def IsBoundary (s : List Char) (n : ℕ) : Prop := Boundary.isBoundary Char.utf8Size s n = true

/-- The panic of a slice that does not end at characters. -/
structure Panic where
  deriving DecidableEq, Repr

abbrev Checked (α : Type) := Except Panic α

/-- `&s[..n]`. -/
def sliceTo (s : List Char) (n : ℕ) : Checked (List Char) :=
  match Boundary.sliceTo Char.utf8Size s n with
  | some front => .ok front
  | none => .error {}

/-- `&s[n..]`. -/
def sliceFrom (s : List Char) (n : ℕ) : Checked (List Char) :=
  match Boundary.sliceTo Char.utf8Size s n with
  | some front => .ok (s.drop front.length)
  | none => .error {}

/-- `&s[m..n]`. -/
def slice (s : List Char) (m n : ℕ) : Checked (List Char) :=
  if m ≤ n then do
    let front ← sliceTo s n
    sliceFrom front m
  else .error {}

/-- `str::find`: the offset of the first match. -/
def find (needle : List Char) : List Char → Option ℕ
  | [] => if needle.isEmpty then some 0 else none
  | c :: rest =>
      if needle.isPrefixOf (c :: rest) then some 0 else (find needle rest).map (c.utf8Size + ·)

def lower (s : List Char) : List Char := s.map Char.toLower

/-! ## Bytes of characters -/

section Bytes
variable {c : Char}

@[simp] theorem encode_nil : encode [] = [] := rfl

@[simp] theorem encode_cons (c : Char) (s : List Char) :
    encode (c :: s) = String.utf8EncodeChar c ++ encode s := rfl

@[simp] theorem encode_append (s t : List Char) : encode (s ++ t) = encode s ++ encode t :=
  List.flatMap_append

@[simp] theorem byteLen_append (s t : List Char) : byteLen (s ++ t) = byteLen s + byteLen t := by
  unfold byteLen Boundary.extent
  rw [List.map_append, List.sum_append]

@[simp] theorem byteLen_cons (c : Char) (s : List Char) :
    byteLen (c :: s) = c.utf8Size + byteLen s := Boundary.extent_cons c s

theorem byteLen_eq_zero_iff {s : List Char} : byteLen s = 0 ↔ s = [] := by
  cases s with
  | nil => simp [byteLen]
  | cons c s =>
      have hsize := Char.utf8Size_pos c
      rw [byteLen_cons]
      exact iff_of_false (by omega) (List.cons_ne_nil c s)

theorem byteLen_pos_iff {s : List Char} : 0 < byteLen s ↔ s ≠ [] :=
  Nat.pos_iff_ne_zero.trans byteLen_eq_zero_iff.not

theorem length_encode (s : List Char) : (encode s).length = byteLen s := by
  induction s with
  | nil => rfl
  | cons c s ih =>
      rw [encode_cons, List.length_append, String.length_utf8EncodeChar, ih, byteLen_cons]

theorem utf8EncodeChar_ascii (h : c.toNat < 128) :
    String.utf8EncodeChar c = [UInt8.ofNat c.toNat] := by
  have hle : c.val.toNat ≤ 127 := Nat.le_of_lt_succ h
  unfold String.utf8EncodeChar
  exact if_pos hle

theorem utf8Size_ascii (h : c.toNat < 128) : c.utf8Size = 1 := by
  rw [← String.length_utf8EncodeChar, utf8EncodeChar_ascii h]
  rfl

/-- The bytes of other characters are no ASCII bytes. -/
theorem utf8EncodeChar_wide (h : 128 ≤ c.toNat) :
    2 ≤ c.utf8Size ∧ ∀ b ∈ String.utf8EncodeChar c, 128 ≤ b.toNat := by
  have hlt : ¬ c.val.toNat ≤ 127 := Nat.not_le.mpr h
  rw [← String.length_utf8EncodeChar]
  unfold String.utf8EncodeChar
  simp only [hlt, if_false]
  have hbyte : ∀ n, 128 ≤ n → n < 256 → 128 ≤ (UInt8.ofNat n).toNat := by
    intro n hlow hhigh
    rw [UInt8.toNat_ofNat', Nat.mod_eq_of_lt hhigh]
    exact hlow
  split_ifs
  · refine ⟨Nat.le_refl 2, ?_⟩
    simp only [List.forall_mem_cons, List.not_mem_nil, false_implies, implies_true, and_true]
    exact ⟨hbyte _ (by omega) (by omega), hbyte _ (by omega) (by omega)⟩
  · refine ⟨Nat.le_succ 2, ?_⟩
    simp only [List.forall_mem_cons, List.not_mem_nil, false_implies, implies_true, and_true]
    exact ⟨hbyte _ (by omega) (by omega), hbyte _ (by omega) (by omega),
      hbyte _ (by omega) (by omega)⟩
  · refine ⟨Nat.le_add_left 2 2, ?_⟩
    simp only [List.forall_mem_cons, List.not_mem_nil, false_implies, implies_true, and_true]
    exact ⟨hbyte _ (by omega) (by omega), hbyte _ (by omega) (by omega),
      hbyte _ (by omega) (by omega), hbyte _ (by omega) (by omega)⟩

end Bytes

/-! ## Bounds of characters -/

section Bounds
variable {s : List Char} {m n : ℕ}

theorem isBoundary_iff : IsBoundary s n ↔ ∃ front back, s = front ++ back ∧ byteLen front = n := by
  unfold IsBoundary
  rw [Boundary.isBoundary_iff Char.utf8Size_pos]
  constructor
  · rintro ⟨front, ⟨back, hs⟩, hn⟩
    exact ⟨front, back, hs.symm, hn⟩
  · rintro ⟨front, back, hs, hn⟩
    exact ⟨front, ⟨back, hs.symm⟩, hn⟩

theorem isBoundary_front (front back : List Char) : IsBoundary (front ++ back) (byteLen front) :=
  isBoundary_iff.mpr ⟨front, back, rfl, rfl⟩

theorem isBoundary_zero (s : List Char) : IsBoundary s 0 := isBoundary_iff.mpr ⟨[], s, rfl, rfl⟩

theorem IsBoundary.le (h : IsBoundary s n) : n ≤ byteLen s := by
  obtain ⟨front, back, rfl, rfl⟩ := isBoundary_iff.mp h
  rw [byteLen_append]
  exact Nat.le_add_right _ _

/-- Of two fronts of a text the one with no more bytes is a front of the other. -/
theorem exists_between {front back front' back' : List Char} (h : front ++ back = front' ++ back')
    (hle : byteLen front ≤ byteLen front') :
    ∃ between, front' = front ++ between ∧ back = between ++ back' := by
  obtain ⟨between, hfront, hback⟩ | ⟨between, hfront, hback⟩ := List.append_eq_append_iff.mp h
  · exact ⟨between, hfront, hback⟩
  · -- the other front is not longer, so nothing stands between
    have hnil : between = [] := by
      rw [hfront, byteLen_append] at hle
      exact byteLen_eq_zero_iff.mp (by omega)
    subst hnil
    rw [List.append_nil] at hfront
    exact ⟨[], by rw [hfront, List.append_nil], hback.symm⟩

/-- Between the bytes of one character there is no bound. -/
theorem not_isBoundary_inside {front back : List Char} {c : Char} (hpos : 0 < n)
    (hlt : n < c.utf8Size) : ¬ IsBoundary (front ++ c :: back) (byteLen front + n) := by
  intro h
  obtain ⟨front', back', hs, hlen⟩ := isBoundary_iff.mp h
  obtain ⟨between, rfl, hback⟩ | ⟨between, rfl, hback⟩ := List.append_eq_append_iff.mp hs
  · cases between with
    | nil =>
        rw [List.append_nil] at hlen
        omega
    | cons d between =>
        rw [List.cons_append] at hback
        have hd : c = d := (List.cons.inj hback).1
        rw [byteLen_append, byteLen_cons, ← hd] at hlen
        omega
  · rw [byteLen_append] at hlen
    omega

theorem sliceTo_front (front back : List Char) :
    sliceTo (front ++ back) (byteLen front) = .ok front := by
  unfold sliceTo byteLen
  rw [Boundary.sliceTo_extent Char.utf8Size_pos (List.prefix_append front back)]

theorem sliceFrom_front (front back : List Char) :
    sliceFrom (front ++ back) (byteLen front) = .ok back := by
  unfold sliceFrom byteLen
  rw [Boundary.sliceTo_extent Char.utf8Size_pos (List.prefix_append front back)]
  exact congrArg Except.ok List.drop_left

theorem sliceFrom_ok_iff : (∃ tail, sliceFrom s n = .ok tail) ↔ IsBoundary s n := by
  unfold sliceFrom IsBoundary Boundary.isBoundary
  cases Boundary.sliceTo Char.utf8Size s n with
  | none => exact iff_of_false (fun ⟨_, h⟩ => nomatch h) Bool.false_ne_true
  | some front => exact iff_of_true ⟨_, rfl⟩ rfl

theorem sliceTo_ok (h : IsBoundary s n) : ∃ front, sliceTo s n = .ok front := by
  obtain ⟨front, back, rfl, rfl⟩ := isBoundary_iff.mp h
  exact ⟨front, sliceTo_front front back⟩

theorem slice_ok (hm : IsBoundary s m) (hn : IsBoundary s n) (hle : m ≤ n) :
    ∃ part, slice s m n = .ok part := by
  obtain ⟨front, back, rfl, rfl⟩ := isBoundary_iff.mp hn
  obtain ⟨front', back', hs, rfl⟩ := isBoundary_iff.mp hm
  unfold slice
  rw [if_pos hle, sliceTo_front]
  obtain ⟨between, hfront, -⟩ | ⟨between, rfl, hback⟩ := List.append_eq_append_iff.mp hs
  · -- the shorter front is as wide, so nothing stands between
    have hwidth : byteLen front = byteLen front' := by
      rw [hfront, byteLen_append] at hle ⊢
      omega
    rw [← hwidth]
    refine ⟨[], ?_⟩
    have hself := sliceFrom_front front []
    rwa [List.append_nil] at hself
  · exact ⟨between, sliceFrom_front front' between⟩

/-- What stands between two places. -/
theorem slice_between (front part back : List Char) :
    slice (front ++ (part ++ back)) (byteLen front) (byteLen (front ++ part)) = .ok part := by
  unfold slice
  rw [if_pos (Nat.le.intro (byteLen_append _ _).symm), ← List.append_assoc, sliceTo_front]
  exact sliceFrom_front front part

theorem isBoundary_sliceFrom {tail : List Char} (h : sliceFrom s m = .ok tail)
    (hn : IsBoundary tail n) : IsBoundary s (m + n) := by
  obtain ⟨front, back, rfl, rfl⟩ := isBoundary_iff.mp (sliceFrom_ok_iff.mp ⟨tail, h⟩)
  rw [sliceFrom_front] at h
  obtain ⟨front', back', hs, rfl⟩ := isBoundary_iff.mp hn
  rw [Except.ok.inj h, hs, ← List.append_assoc, ← byteLen_append]
  exact isBoundary_front ..

/-- An ASCII byte is a character. -/
theorem exists_of_ascii {b : UInt8} (h : (encode s)[n]? = some b) (hb : b.toNat < 128) :
    ∃ front c back, s = front ++ c :: back ∧ byteLen front = n ∧ c.toNat < 128 ∧
      b = UInt8.ofNat c.toNat := by
  induction s generalizing n with
  | nil => cases h
  | cons c s ih =>
      rw [encode_cons] at h
      by_cases hn : n < c.utf8Size
      · rw [← String.length_utf8EncodeChar] at hn
        rw [List.getElem?_append_left hn] at h
        by_cases hc : c.toNat < 128
        · rw [utf8EncodeChar_ascii hc] at h hn
          have hzero : n = 0 := Nat.lt_one_iff.mp hn
          rw [hzero] at h
          exact ⟨[], c, s, rfl, hzero.symm, hc, (Option.some.inj h).symm⟩
        · have hwide := (utf8EncodeChar_wide (Nat.not_lt.mp hc)).2 b (List.mem_of_getElem? h)
          omega
      · rw [List.getElem?_append_right (by rw [String.length_utf8EncodeChar]; omega),
          String.length_utf8EncodeChar] at h
        obtain ⟨front, d, back, rfl, hlen, hd⟩ := ih h
        refine ⟨c :: front, d, back, rfl, ?_, hd⟩
        rw [byteLen_cons, hlen]
        omega

theorem isBoundary_of_ascii {b : UInt8} (h : (encode s)[n]? = some b) (hb : b.toNat < 128) :
    IsBoundary s n ∧ IsBoundary s (n + 1) := by
  obtain ⟨front, c, back, rfl, rfl, hc, -⟩ := exists_of_ascii h hb
  refine ⟨isBoundary_front .., ?_⟩
  have hnext := isBoundary_front (front ++ [c]) back
  rwa [List.append_assoc, byteLen_append, byteLen_cons, utf8Size_ascii hc] at hnext

/-- A byte of a character is an ASCII byte only where it is all of the character. -/
theorem utf8EncodeChar_eq_ascii {c d : Char} {k : ℕ} (hd : d.toNat < 128)
    (h : (String.utf8EncodeChar c)[k]? = some (UInt8.ofNat d.toNat)) : c = d := by
  have hmem := List.mem_of_getElem? h
  have hbyte : (UInt8.ofNat d.toNat).toNat = d.toNat := by
    rw [UInt8.toNat_ofNat', Nat.mod_eq_of_lt (by omega)]
  by_cases hc : c.toNat < 128
  · rw [utf8EncodeChar_ascii hc] at hmem
    have hsame := congrArg UInt8.toNat (List.mem_singleton.mp hmem)
    rw [hbyte, UInt8.toNat_ofNat', Nat.mod_eq_of_lt (by omega)] at hsame
    exact Char.toNat_inj.mp hsame.symm
  · have hwide := (utf8EncodeChar_wide (Nat.not_lt.mp hc)).2 _ hmem
    omega

/-- The byte behind a front. -/
theorem getElem?_behind_iff {front back : List Char} {d : Char} (hd : d.toNat < 128) :
    (encode (front ++ back))[byteLen front]? = some (UInt8.ofNat d.toNat) ↔
      back.head? = some d := by
  rw [← length_encode, encode_append, List.getElem?_append_right le_rfl, Nat.sub_self]
  cases back with
  | nil => exact iff_of_false (Option.some_ne_none _).symm (Option.some_ne_none _).symm
  | cons c back =>
      have hsize := Char.utf8Size_pos c
      rw [← String.length_utf8EncodeChar] at hsize
      rw [encode_cons, List.getElem?_append_left hsize, List.head?_cons, Option.some.injEq]
      constructor
      · exact utf8EncodeChar_eq_ascii hd
      · rintro rfl
        rw [utf8EncodeChar_ascii hd]
        rfl

/-- The last byte of a front. -/
theorem getElem?_before_iff {front back : List Char} {d : Char} (hd : d.toNat < 128)
    (hfront : front ≠ []) :
    (encode (front ++ back))[byteLen front - 1]? = some (UInt8.ofNat d.toNat) ↔
      front.getLast? = some d := by
  obtain ⟨u, c, rfl⟩ : ∃ u c, front = u ++ [c] :=
    ⟨front.dropLast, front.getLast hfront, (List.dropLast_append_getLast hfront).symm⟩
  have hsize := Char.utf8Size_pos c
  have hlast : byteLen (u ++ [c]) - 1 = (encode u).length + (c.utf8Size - 1) := by
    rw [byteLen_append, byteLen_cons, length_encode]
    simp only [byteLen, Boundary.extent_nil]
    omega
  rw [hlast, List.append_assoc, encode_append, List.getElem?_append_right (Nat.le_add_right _ _),
    Nat.add_sub_cancel_left, List.singleton_append, encode_cons,
    List.getElem?_append_left (by rw [String.length_utf8EncodeChar]; omega), List.getLast?_concat,
    Option.some.injEq]
  constructor
  · exact utf8EncodeChar_eq_ascii hd
  · rintro rfl
    rw [utf8EncodeChar_ascii hd, utf8Size_ascii hd]
    rfl

end Bounds

/-! ## Classes of ASCII characters -/

section Classes
variable {p : UInt8 → Bool} {P : Char → Bool}

/-- A byte is in the class where it is all of a character of the class. -/
structure AsciiClass (p : UInt8 → Bool) (P : Char → Bool) : Prop where
  ascii : ∀ c : Char, c.toNat < 128 → p (UInt8.ofNat c.toNat) = P c
  wideByte : ∀ b : UInt8, 128 ≤ b.toNat → p b = false
  wideChar : ∀ c : Char, 128 ≤ c.toNat → P c = false

theorem AsciiClass.any_byte (h : AsciiClass p P) {c : Char} {k : ℕ} (hk : k < c.utf8Size) :
    (String.utf8EncodeChar c)[k]?.any p = P c := by
  by_cases hc : c.toNat < 128
  · have hzero : k = 0 := by
      rw [utf8Size_ascii hc] at hk
      omega
    rw [utf8EncodeChar_ascii hc, hzero, List.getElem?_cons_zero, Option.any_some, h.ascii c hc]
  · have hwide := Nat.not_lt.mp hc
    rw [← String.length_utf8EncodeChar] at hk
    rw [List.getElem?_eq_getElem hk, Option.any_some, h.wideChar c hwide]
    exact h.wideByte _ ((utf8EncodeChar_wide hwide).2 _ (List.getElem_mem hk))

/-- The byte behind a front is in the class where the next character is. -/
theorem AsciiClass.any_behind (h : AsciiClass p P) (front back : List Char) :
    (encode (front ++ back))[byteLen front]?.any p = back.head?.any P := by
  rw [← length_encode, encode_append, List.getElem?_append_right le_rfl, Nat.sub_self]
  cases back with
  | nil => rfl
  | cons c back =>
      have hsize := Char.utf8Size_pos c
      rw [encode_cons, List.getElem?_append_left (by rwa [String.length_utf8EncodeChar]),
        h.any_byte hsize]
      rfl

/-- The last byte of a front is in the class where the last character is. -/
theorem AsciiClass.any_before (h : AsciiClass p P) {front : List Char} (hfront : front ≠ [])
    (back : List Char) :
    (encode (front ++ back))[byteLen front - 1]?.any p = front.getLast?.any P := by
  obtain ⟨u, c, rfl⟩ : ∃ u c, front = u ++ [c] :=
    ⟨front.dropLast, front.getLast hfront, (List.dropLast_append_getLast hfront).symm⟩
  have hsize := Char.utf8Size_pos c
  have hlast : byteLen (u ++ [c]) - 1 = (encode u).length + (c.utf8Size - 1) := by
    rw [byteLen_append, byteLen_cons, length_encode]
    simp only [byteLen, Boundary.extent_nil]
    omega
  rw [hlast, List.append_assoc, encode_append, List.getElem?_append_right (Nat.le_add_right _ _),
    Nat.add_sub_cancel_left, List.singleton_append, encode_cons,
    List.getElem?_append_left (by rw [String.length_utf8EncodeChar]; omega),
    h.any_byte (by omega), List.getLast?_concat, Option.any_some]

theorem AsciiClass.takeWhile_encode (h : AsciiClass p P) (s : List Char) :
    (encode s).takeWhile p = encode (s.takeWhile P) := by
  induction s with
  | nil => rfl
  | cons c s ih =>
      rw [encode_cons, List.takeWhile_cons]
      by_cases hc : c.toNat < 128
      · rw [utf8EncodeChar_ascii hc, List.singleton_append, List.takeWhile_cons, h.ascii c hc, ih]
        split
        · rw [encode_cons, utf8EncodeChar_ascii hc, List.singleton_append]
        · rfl
      · have hwide := Nat.not_lt.mp hc
        rw [h.wideChar c hwide]
        cases hencode : String.utf8EncodeChar c with
        | nil =>
            have hsize := Char.utf8Size_pos c
            rw [← String.length_utf8EncodeChar, hencode] at hsize
            exact absurd hsize (Nat.lt_irrefl 0)
        | cons b bytes =>
            have hb := (utf8EncodeChar_wide hwide).2 b (hencode ▸ List.mem_cons_self)
            rw [List.cons_append, List.takeWhile_cons, h.wideByte b hb]
            rfl

theorem byte_beq {c d : Char} (hc : c.toNat < 128) (hd : d.toNat < 128) :
    (UInt8.ofNat c.toNat == UInt8.ofNat d.toNat) = (c == d) := by
  rw [Bool.eq_iff_iff, beq_iff_eq, beq_iff_eq]
  constructor
  · intro h
    have hnat := congrArg UInt8.toNat h
    rw [UInt8.toNat_ofNat', UInt8.toNat_ofNat', Nat.mod_eq_of_lt (by omega),
      Nat.mod_eq_of_lt (by omega)] at hnat
    exact Char.toNat_inj.mp hnat
  · rintro rfl
    rfl

theorem ofUInt8_ascii {c : Char} (hc : c.toNat < 128) :
    Char.ofUInt8 (UInt8.ofNat c.toNat) = c := by
  have hval : (Char.ofUInt8 (UInt8.ofNat c.toNat)).toNat = (UInt8.ofNat c.toNat).toNat := rfl
  rw [← Char.toNat_inj, hval, UInt8.toNat_ofNat', Nat.mod_eq_of_lt (by omega)]

/-- Letters, digits and the underscore. -/
def isWordChar (c : Char) : Bool := c.isAlphanum || c == '_'

theorem isWordChar_iff {c : Char} : isWordChar c = true ↔
    48 ≤ c.toNat ∧ c.toNat ≤ 57 ∨ 65 ≤ c.toNat ∧ c.toNat ≤ 90 ∨ 97 ≤ c.toNat ∧ c.toNat ≤ 122 ∨
      c.toNat = 95 := by
  have hunderscore : c = '_' ↔ c.toNat = 95 := Char.toNat_inj.symm
  have hupper : c.isUpper = true ↔ 65 ≤ c.toNat ∧ c.toNat ≤ 90 := by
    change decide (c.val ≥ 65 ∧ c.val ≤ 90) = true ↔ _
    rw [decide_eq_true_eq]
    rfl
  have hlower : c.isLower = true ↔ 97 ≤ c.toNat ∧ c.toNat ≤ 122 := by
    change (decide (c.val ≥ 97) && decide (c.val ≤ 122)) = true ↔ _
    rw [Bool.and_eq_true, decide_eq_true_eq, decide_eq_true_eq]
    rfl
  have hdigit : c.isDigit = true ↔ 48 ≤ c.toNat ∧ c.toNat ≤ 57 := by
    simp only [Char.isDigit, ge_iff_le, Bool.and_eq_true, decide_eq_true_eq, UInt32.le_iff_toNat_le]
    rfl
  change ((c.isUpper || c.isLower) || c.isDigit || c == '_') = true ↔ _
  rw [Bool.or_eq_true, Bool.or_eq_true, Bool.or_eq_true,
    hupper, hlower, hdigit, beq_iff_eq, hunderscore]
  omega

theorem isWordChar_ascii {c : Char} (h : isWordChar c = true) : c.toNat < 128 := by
  rw [isWordChar_iff] at h
  omega

theorem wordClass :
    AsciiClass (fun b => (Char.ofUInt8 b).isAlphanum || b == '_'.toUInt8) isWordChar := by
  have hchar : ∀ b : UInt8,
      ((Char.ofUInt8 b).isAlphanum || b == '_'.toUInt8) = isWordChar (Char.ofUInt8 b) := by
    intro b
    have hunderscore : (b == '_'.toUInt8) = (Char.ofUInt8 b == '_') := by
      rw [Bool.eq_iff_iff, beq_iff_eq, beq_iff_eq]
      constructor
      · rintro rfl
        rfl
      · exact fun h => UInt8.toNat_inj.mp (congrArg Char.toNat h)
    rw [hunderscore, isWordChar]
  refine ⟨fun c hc => ?_, fun b hb => ?_, fun c hc => ?_⟩
  · rw [hchar, ofUInt8_ascii hc]
  · rw [hchar, Bool.eq_false_iff]
    intro h
    have hlt := isWordChar_ascii h
    have hval : (Char.ofUInt8 b).toNat = b.toNat := rfl
    omega
  · rw [Bool.eq_false_iff]
    exact fun h => absurd (isWordChar_ascii h) (Nat.not_lt.mpr hc)

end Classes

/-! ## Letters of the other case -/

theorem utf8Size_toLower (c : Char) : c.toLower.utf8Size = c.utf8Size := by
  by_cases h : 65 ≤ c.toNat ∧ c.toNat ≤ 90
  · rw [utf8Size_ascii, utf8Size_ascii (by omega)]
    rw [Text.toNat_toLower, if_pos h]
    omega
  · have hsame : c.toLower = c := by
      rw [← Char.toNat_inj, Text.toNat_toLower, if_neg h]
    rw [hsame]

theorem isWordChar_toLower (c : Char) : isWordChar c.toLower = isWordChar c := by
  rw [Bool.eq_iff_iff, isWordChar_iff, isWordChar_iff, Text.toNat_toLower]
  split <;> omega

@[simp] theorem byteLen_lower (s : List Char) : byteLen (lower s) = byteLen s := by
  induction s with
  | nil => rfl
  | cons c s ih =>
      have hcons : lower (c :: s) = c.toLower :: lower s := rfl
      rw [hcons, byteLen_cons, byteLen_cons, ih, utf8Size_toLower]

theorem isBoundary_lower {s : List Char} {n : ℕ} : IsBoundary (lower s) n ↔ IsBoundary s n := by
  rw [isBoundary_iff, isBoundary_iff]
  constructor
  · rintro ⟨front, back, hs, rfl⟩
    obtain ⟨front', back', rfl, rfl, rfl⟩ := List.map_eq_append_iff.mp hs
    exact ⟨front', back', rfl, (byteLen_lower front').symm⟩
  · rintro ⟨front, back, rfl, rfl⟩
    exact ⟨lower front, lower back, List.map_append, byteLen_lower front⟩

/-- The match that is found is the first. -/
theorem find_spec {needle s : List Char} {n : ℕ} (h : find needle s = some n) :
    ∃ front back, s = front ++ needle ++ back ∧ byteLen front = n ∧
      ∀ front' back', s = front' ++ needle ++ back' → front.length ≤ front'.length := by
  induction s generalizing n with
  | nil =>
      unfold find at h
      split at h
      · rename_i hempty
        rw [List.isEmpty_iff.mp hempty]
        exact ⟨[], [], rfl, Option.some.inj h, fun _ _ _ => Nat.zero_le _⟩
      · cases h
  | cons c s ih =>
      unfold find at h
      split at h
      · rename_i hlead
        obtain ⟨back, hback⟩ := List.isPrefixOf_iff_prefix.mp hlead
        exact ⟨[], back, hback.symm, Option.some.inj h, fun _ _ _ => Nat.zero_le _⟩
      · rename_i hlead
        obtain ⟨k, hk, rfl⟩ := Option.map_eq_some_iff.mp h
        obtain ⟨front, back, rfl, rfl, hfirst⟩ := ih hk
        refine ⟨c :: front, back, rfl, byteLen_cons c front, fun front' back' hs => ?_⟩
        cases front' with
        | nil => exact absurd (List.isPrefixOf_iff_prefix.mpr ⟨back', hs.symm⟩) hlead
        | cons d front' => exact Nat.succ_le_succ (hfirst front' back' (List.cons.inj hs).2)

theorem find_none {needle s : List Char} (h : find needle s = none) (front back : List Char) :
    s ≠ front ++ needle ++ back := by
  induction s generalizing front with
  | nil =>
      intro hs
      obtain ⟨hfront, -⟩ := List.append_eq_nil_iff.mp hs.symm
      unfold find at h
      rw [(List.append_eq_nil_iff.mp hfront).2] at h
      cases h
  | cons c s ih =>
      intro hs
      unfold find at h
      split at h
      · cases h
      · rename_i hlead
        cases front with
        | nil => exact hlead (List.isPrefixOf_iff_prefix.mpr ⟨back, hs.symm⟩)
        | cons d front =>
            exact ih (Option.map_eq_none_iff.mp h) front (List.cons.inj hs).2

theorem isBoundary_find {needle s : List Char} {n : ℕ} (h : find needle s = some n) :
    IsBoundary s n ∧ IsBoundary s (n + byteLen needle) := by
  obtain ⟨front, back, rfl, rfl, -⟩ := find_spec h
  constructor
  · rw [List.append_assoc]
    exact isBoundary_front ..
  · rw [← byteLen_append]
    exact isBoundary_front ..

end DbtNova.Utf8
