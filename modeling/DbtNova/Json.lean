import Mathlib.Tactic.Common

/-!
# JSON values and their compact text

A number is kept by the text the serializer prints for it, and an object by its
fields in the order of the map. The printer follows the serializer: no blanks,
short escapes where they exist, `\u00xx` for the other control characters.
-/
namespace DbtNova

inductive JsonValue where
  | null
  | bool (flag : Bool)
  | number (text : String)
  | string (text : String)
  | array (values : List JsonValue)
  | object (fields : List (String × JsonValue))

namespace JsonValue

def hexDigit (n : ℕ) : Char := Char.ofNat (if n < 10 then 48 + n else 87 + n)

def escapeChar (c : Char) : List Char :=
  if c = '"' then ['\\', '"']
  else if c = '\\' then ['\\', '\\']
  else if c = '\n' then ['\\', 'n']
  else if c = '\r' then ['\\', 'r']
  else if c = '\t' then ['\\', 't']
  else if c.toNat = 8 then ['\\', 'b']
  else if c.toNat = 12 then ['\\', 'f']
  else if c.toNat < 32 then
    ['\\', 'u', '0', '0', hexDigit (c.toNat / 16), hexDigit (c.toNat % 16)]
  else [c]

def quoteText (s : String) : List Char := '"' :: s.toList.flatMap escapeChar ++ ['"']

mutual

/-- The compact text of a value, as a list of characters. -/
def chars : JsonValue → List Char
  | .null => "null".toList
  | .bool true => "true".toList
  | .bool false => "false".toList
  | .number text => text.toList
  | .string text => quoteText text
  | .array values => '[' :: charsOfValues values ++ [']']
  | .object fields => '\x7b' :: charsOfFields fields ++ ['\x7d']

def charsOfValues : List JsonValue → List Char
  | [] => []
  | [v] => v.chars
  | v :: w :: vs => v.chars ++ ',' :: charsOfValues (w :: vs)

def charsOfFields : List (String × JsonValue) → List Char
  | [] => []
  | [f] => charsOfField f
  | f :: g :: fs => charsOfField f ++ ',' :: charsOfFields (g :: fs)

def charsOfField : String × JsonValue → List Char
  | (key, v) => quoteText key ++ ':' :: v.chars

end

def toText (v : JsonValue) : String := String.ofList v.chars

/-! ## The text determines the value -/

def hexValue (c : Char) : ℕ := if c.toNat < 58 then c.toNat - 48 else c.toNat - 87

/-- Reads back the first character of an escaped text. -/
def unescape : List Char → Option (Char × List Char)
  | '\\' :: 'u' :: '0' :: '0' :: a :: b :: r =>
      some (Char.ofNat (16 * hexValue a + hexValue b), r)
  | '\\' :: 'n' :: r => some ('\n', r)
  | '\\' :: 'r' :: r => some ('\r', r)
  | '\\' :: 't' :: r => some ('\t', r)
  | '\\' :: 'b' :: r => some (Char.ofNat 8, r)
  | '\\' :: 'f' :: r => some (Char.ofNat 12, r)
  | '\\' :: c :: r => some (c, r)
  | '"' :: _ => none
  | c :: r => some (c, r)
  | [] => none

theorem hexValue_hexDigit : ∀ n < 16, hexValue (hexDigit n) = n := by decide

theorem unescape_control {c : Char} (hc : c.toNat < 32) (r : List Char) :
    unescape ('\\' :: 'u' :: '0' :: '0' :: hexDigit (c.toNat / 16) ::
      hexDigit (c.toNat % 16) :: r) = some (c, r) := by
  have hhigh := hexValue_hexDigit (c.toNat / 16) (by omega)
  have hlow := hexValue_hexDigit (c.toNat % 16) (by omega)
  have hsum : 16 * (c.toNat / 16) + c.toNat % 16 = c.toNat := by omega
  simp only [unescape, hhigh, hlow, hsum, Char.ofNat_toNat]

theorem unescape_escapeChar (c : Char) (r : List Char) :
    unescape (escapeChar c ++ r) = some (c, r) := by
  unfold escapeChar
  split_ifs with h1 h2 h3 h4 h5 h6 h7 h8
  · subst h1; rfl
  · subst h2; rfl
  · subst h3; rfl
  · subst h4; rfl
  · subst h5; rfl
  · have hc : c = Char.ofNat 8 := by rw [← h6, Char.ofNat_toNat]
    subst hc; rfl
  · have hc : c = Char.ofNat 12 := by rw [← h7, Char.ofNat_toNat]
    subst hc; rfl
  · exact unescape_control h8 r
  · simp only [List.cons_append, List.nil_append]
    unfold unescape
    split <;> simp_all

theorem escaped_cancel {s t r r' : List Char}
    (h : s.flatMap escapeChar ++ '"' :: r = t.flatMap escapeChar ++ '"' :: r') :
    s = t ∧ r = r' := by
  induction s generalizing t with
  | nil =>
      cases t with
      | nil => simpa using h
      | cons d t =>
          have hread := congrArg unescape h
          simp only [List.flatMap_cons, List.append_assoc, unescape_escapeChar] at hread
          simp [unescape] at hread
  | cons c s ih =>
      cases t with
      | nil =>
          have hread := congrArg unescape h
          simp only [List.flatMap_cons, List.append_assoc, unescape_escapeChar] at hread
          simp [unescape] at hread
      | cons d t =>
          have hread := congrArg unescape h
          simp only [List.flatMap_cons, List.append_assoc, unescape_escapeChar,
            Option.some.injEq, Prod.mk.injEq] at hread
          obtain ⟨hst, hr⟩ := ih hread.2
          exact ⟨by rw [hread.1, hst], hr⟩

theorem quoteText_cancel {s t : String} {r r' : List Char}
    (h : quoteText s ++ r = quoteText t ++ r') : s = t ∧ r = r' := by
  simp only [quoteText, List.cons_append, List.append_assoc, List.cons.injEq, true_and,
    List.nil_append] at h
  obtain ⟨hst, hr⟩ := escaped_cancel h
  exact ⟨String.toList_inj.mp hst, hr⟩

def numberChar (c : Char) : Bool :=
  c.isDigit || c == '-' || c == '+' || c == '.' || c == 'e' || c == 'E'

mutual

/-- Every number in the value is written with the characters of a number. -/
def wellFormed : JsonValue → Bool
  | .null | .bool _ | .string _ => true
  | .number text => text.toList.all numberChar && !text.toList.isEmpty
  | .array values => wellFormedValues values
  | .object fields => wellFormedFields fields

def wellFormedValues : List JsonValue → Bool
  | [] => true
  | v :: vs => v.wellFormed && wellFormedValues vs

def wellFormedFields : List (String × JsonValue) → Bool
  | [] => true
  | f :: fs => wellFormedField f && wellFormedFields fs

def wellFormedField : String × JsonValue → Bool
  | (_, v) => v.wellFormed

end

/-- The text of a number. -/
structure NumberText where
  text : String
  isNumber : (text.toList.all numberChar && !text.toList.isEmpty) = true
  deriving DecidableEq, Repr

/-- What may follow a value: nothing that continues a number. -/
def Delimited (r : List Char) : Prop := ∀ c ∈ r.head?, numberChar c = false

theorem number_cancel {s t r r' : List Char} (hs : s.all numberChar = true)
    (ht : t.all numberChar = true) (hr : Delimited r) (hr' : Delimited r')
    (h : s ++ r = t ++ r') : s = t ∧ r = r' := by
  induction s generalizing t with
  | nil =>
      cases t with
      | nil => simpa using h
      | cons d t =>
          simp only [List.nil_append, List.cons_append] at h
          have hd := hr d (by simp [h])
          simp [hd] at ht
  | cons c s ih =>
      simp only [List.all_cons, Bool.and_eq_true] at hs
      cases t with
      | nil =>
          simp only [List.nil_append, List.cons_append] at h
          have hc := hr' c (by simp [← h])
          simp [hc] at hs
      | cons d t =>
          simp only [List.all_cons, Bool.and_eq_true] at ht
          simp only [List.cons_append, List.cons.injEq] at h
          obtain ⟨hst, hrest⟩ := ih hs.2 ht.2 h.2
          exact ⟨by rw [h.1, hst], hrest⟩

/-- Items with commas between them. -/
def separated {α : Type*} (item : α → List Char) : List α → List Char
  | [] => []
  | [a] => item a
  | a :: b :: l => item a ++ ',' :: separated item (b :: l)

theorem charsOfValues_eq (vs : List JsonValue) : charsOfValues vs = separated chars vs := by
  induction vs with
  | nil => rfl
  | cons v vs ih =>
      cases vs with
      | nil => rfl
      | cons w vs => rw [charsOfValues, separated, ih]

theorem charsOfFields_eq (fs : List (String × JsonValue)) :
    charsOfFields fs = separated charsOfField fs := by
  induction fs with
  | nil => rfl
  | cons f fs ih =>
      cases fs with
      | nil => rfl
      | cons g fs => rw [charsOfFields, separated, ih]

theorem separated_cons {α : Type*} (item : α → List Char) (a : α) (l : List α) :
    separated item (a :: l) = item a ++ l.flatMap fun b => ',' :: item b := by
  induction l generalizing a with
  | nil => simp [separated]
  | cons b l ih => simp [separated, ih]

section Separated
variable {α : Type*} {item : α → List Char} {close : Char}

theorem commaTail_delimited (hclose : numberChar close = false) (l : List α) (r : List Char) :
    Delimited ((l.flatMap fun b => ',' :: item b) ++ close :: r) := by
  intro c hc
  cases l with
  | nil =>
      have : close = c := by simpa using hc
      rw [← this, hclose]
  | cons b l =>
      have : ',' = c := by simpa using hc
      rw [← this]
      rfl

/-- Items that can be told apart stay apart behind commas. -/
theorem commaTail_cancel (hclose : numberChar close = false) (hcomma : close ≠ ',')
    {as bs : List α}
    (hitem : ∀ a ∈ as, ∀ b ∈ bs, ∀ r r', Delimited r → Delimited r' →
      item a ++ r = item b ++ r' → a = b ∧ r = r') {r r' : List Char}
    (h : (as.flatMap fun b => ',' :: item b) ++ close :: r =
      (bs.flatMap fun b => ',' :: item b) ++ close :: r') : as = bs ∧ r = r' := by
  induction as generalizing bs with
  | nil =>
      cases bs with
      | nil => simpa using h
      | cons b bs =>
          simp only [List.flatMap_nil, List.nil_append, List.flatMap_cons, List.cons_append,
            List.cons.injEq] at h
          exact absurd h.1 hcomma
  | cons a as ih =>
      cases bs with
      | nil =>
          simp only [List.flatMap_nil, List.nil_append, List.flatMap_cons, List.cons_append,
            List.cons.injEq] at h
          exact absurd h.1.symm hcomma
      | cons b bs =>
          simp only [List.flatMap_cons, List.cons_append, List.append_assoc, List.cons.injEq,
            true_and] at h
          obtain ⟨hab, hrest⟩ := hitem a (by simp) b (by simp) _ _
            (commaTail_delimited hclose as r) (commaTail_delimited hclose bs r') h
          obtain ⟨hl, hr⟩ := ih
            (fun a ha b hb => hitem a (List.mem_cons_of_mem _ ha) b (List.mem_cons_of_mem _ hb))
            hrest
          exact ⟨by rw [hab, hl], hr⟩

theorem separated_cancel (hclose : numberChar close = false) (hcomma : close ≠ ',')
    {as bs : List α}
    (hitem : ∀ a ∈ as, ∀ b ∈ bs, ∀ r r', Delimited r → Delimited r' →
      item a ++ r = item b ++ r' → a = b ∧ r = r')
    (hhead : ∀ a, ∀ r r', a ∈ as ∨ a ∈ bs → item a ++ r ≠ close :: r') {r r' : List Char}
    (h : separated item as ++ close :: r = separated item bs ++ close :: r') :
    as = bs ∧ r = r' := by
  cases as with
  | nil =>
      cases bs with
      | nil => simpa [separated] using h
      | cons b bs =>
          rw [separated_cons, List.append_assoc] at h
          exact absurd h.symm (hhead b _ _ (by simp))
  | cons a as =>
      cases bs with
      | nil =>
          rw [separated_cons, List.append_assoc] at h
          exact absurd h (hhead a _ _ (by simp))
      | cons b bs =>
          rw [separated_cons, separated_cons, List.append_assoc, List.append_assoc] at h
          obtain ⟨hab, hrest⟩ := hitem a (by simp) b (by simp) _ _
            (commaTail_delimited hclose as r) (commaTail_delimited hclose bs r') h
          obtain ⟨hl, hr⟩ := commaTail_cancel hclose hcomma
            (fun a ha b hb => hitem a (List.mem_cons_of_mem _ ha) b (List.mem_cons_of_mem _ hb))
            hrest
          exact ⟨by rw [hab, hl], hr⟩

end Separated

/-- The kind of value a text starts, by its first character. -/
def headKind (c : Char) : ℕ :=
  if c = 'n' then 0
  else if c = 't' then 1
  else if c = 'f' then 2
  else if numberChar c then 3
  else if c = '"' then 4
  else if c = '[' then 5
  else if c = '\x7b' then 6
  else 7

def kind : JsonValue → ℕ
  | .null => 0
  | .bool true => 1
  | .bool false => 2
  | .number _ => 3
  | .string _ => 4
  | .array _ => 5
  | .object _ => 6

theorem chars_head {v : JsonValue} (hv : v.wellFormed = true) :
    ∃ c cs, v.chars = c :: cs ∧ headKind c = v.kind := by
  cases v with
  | null => exact ⟨'n', _, rfl, rfl⟩
  | bool b => cases b <;> exact ⟨_, _, rfl, rfl⟩
  | number text =>
      simp only [wellFormed, Bool.and_eq_true] at hv
      cases htext : text.toList with
      | nil => simp [htext] at hv
      | cons c cs =>
          refine ⟨c, cs, by simp [chars, htext], ?_⟩
          have hc : numberChar c = true := by
            simp only [htext, List.all_cons, Bool.and_eq_true] at hv
            exact hv.1.1
          have hletter : c ≠ 'n' ∧ c ≠ 't' ∧ c ≠ 'f' := by
            refine ⟨?_, ?_, ?_⟩ <;> rintro rfl <;> simp [numberChar] at hc
          simp [headKind, hletter, hc, kind]
  | string text => exact ⟨'"', _, rfl, rfl⟩
  | array values => exact ⟨'[', _, rfl, rfl⟩
  | object fields => exact ⟨'\x7b', _, rfl, rfl⟩

theorem chars_kind {v w : JsonValue} (hv : v.wellFormed = true) (hw : w.wellFormed = true)
    {r r' : List Char} (h : v.chars ++ r = w.chars ++ r') : v.kind = w.kind := by
  obtain ⟨c, cs, hc, hkc⟩ := chars_head hv
  obtain ⟨d, ds, hd, hkd⟩ := chars_head hw
  rw [hc, hd, List.cons_append, List.cons_append, List.cons.injEq] at h
  rw [← hkc, ← hkd, h.1]

theorem chars_ne_close {v : JsonValue} (hv : v.wellFormed = true) (r r' : List Char) :
    v.chars ++ r ≠ ']' :: r' := by
  intro h
  obtain ⟨c, cs, hc, hkind⟩ := chars_head hv
  rw [hc, List.cons_append, List.cons.injEq] at h
  rw [h.1] at hkind
  cases v with
  | bool b => cases b <;> simp [headKind, numberChar, kind] at hkind
  | _ => simp [headKind, numberChar, kind] at hkind

theorem charsOfField_ne_close (f : String × JsonValue) (r r' : List Char) :
    charsOfField f ++ r ≠ '\x7d' :: r' := by
  obtain ⟨key, v⟩ := f
  simp [charsOfField, quoteText]

theorem wellFormedValues_iff {vs : List JsonValue} :
    wellFormedValues vs = true ↔ ∀ v ∈ vs, v.wellFormed = true := by
  induction vs with
  | nil => simp [wellFormedValues]
  | cons v vs ih => simp [wellFormedValues, ih]

theorem wellFormedFields_iff {fs : List (String × JsonValue)} :
    wellFormedFields fs = true ↔ ∀ f ∈ fs, f.2.wellFormed = true := by
  induction fs with
  | nil => simp [wellFormedFields]
  | cons f fs ih =>
      obtain ⟨key, v⟩ := f
      simp [wellFormedFields, wellFormedField, ih]

/-- A value can be read off the front of a text in only one way. -/
theorem chars_cancel (v w : JsonValue) (hv : v.wellFormed = true) (hw : w.wellFormed = true)
    {r r' : List Char} (hr : Delimited r) (hr' : Delimited r')
    (h : v.chars ++ r = w.chars ++ r') : v = w ∧ r = r' := by
  have hkind := chars_kind hv hw h
  match v, w with
  | .null, .null => exact ⟨rfl, by simpa [chars] using h⟩
  | .bool true, .bool true => exact ⟨rfl, by simpa [chars] using h⟩
  | .bool false, .bool false => exact ⟨rfl, by simpa [chars] using h⟩
  | .number s, .number t =>
      simp only [wellFormed, Bool.and_eq_true] at hv hw
      obtain ⟨hst, hrest⟩ := number_cancel hv.1 hw.1 hr hr' h
      exact ⟨by rw [String.toList_inj.mp hst], hrest⟩
  | .string s, .string t =>
      obtain ⟨hst, hrest⟩ := quoteText_cancel h
      exact ⟨by rw [hst], hrest⟩
  | .array vs, .array ws =>
      simp only [wellFormed, wellFormedValues_iff] at hv hw
      simp only [chars, charsOfValues_eq, List.cons_append, List.append_assoc, List.nil_append,
        List.cons.injEq, true_and] at h
      obtain ⟨hvs, hrest⟩ := separated_cancel (by rfl) (by decide)
        (fun a ha b hb _ _ hr hr' h => chars_cancel a b (hv a ha) (hw b hb) hr hr' h)
        (fun a r r' ha => chars_ne_close (ha.elim (hv a) (hw a)) r r') h
      exact ⟨by rw [hvs], hrest⟩
  | .object fs, .object gs =>
      simp only [wellFormed, wellFormedFields_iff] at hv hw
      simp only [chars, charsOfFields_eq, List.cons_append, List.append_assoc, List.nil_append,
        List.cons.injEq, true_and] at h
      obtain ⟨hfs, hrest⟩ := separated_cancel (by rfl) (by decide)
        (fun f hf g hg _ _ hr hr' h => by
          obtain ⟨key, a⟩ := f
          obtain ⟨key', b⟩ := g
          simp only [charsOfField, List.append_assoc, List.cons_append] at h
          obtain ⟨hkey, hvalue⟩ := quoteText_cancel h
          obtain ⟨hab, hrest⟩ := chars_cancel a b (hv _ hf) (hw _ hg) hr hr'
            (List.cons.inj hvalue).2
          exact ⟨by rw [hkey, hab], hrest⟩)
        (fun f r r' _ => charsOfField_ne_close f r r') h
      exact ⟨by rw [hfs], hrest⟩
termination_by v
decreasing_by
  · have := List.sizeOf_lt_of_mem ha
    simp only [array.sizeOf_spec]
    omega
  · have := List.sizeOf_lt_of_mem hf
    simp only [object.sizeOf_spec, Prod.mk.sizeOf_spec] at this ⊢
    omega

theorem toText_injective {v w : JsonValue} (hv : v.wellFormed = true)
    (hw : w.wellFormed = true) (h : v.toText = w.toText) : v = w := by
  have hchars : v.chars ++ [] = w.chars ++ [] := by
    rw [String.ofList_injective h]
  exact (chars_cancel v w hv hw (by simp [Delimited]) (by simp [Delimited]) hchars).1

/-- A natural number as a value. -/
def ofNat (n : ℕ) : JsonValue := .number n.repr

@[simp] theorem ofNat_wellFormed (n : ℕ) : (ofNat n).wellFormed = true := by
  have hdigits : ∀ c ∈ Nat.toDigits 10 n, numberChar c = true := by
    intro c hc
    have := Nat.isDigit_of_mem_toDigits (by omega) (by omega) hc
    simp [numberChar, this]
  simpa [ofNat, wellFormed, Nat.toDigits_ne_nil] using hdigits

@[simp] theorem ofNat_inj {m n : ℕ} : ofNat m = ofNat n ↔ m = n := by
  refine ⟨fun h => ?_, fun h => by rw [h]⟩
  have hdigits := congrArg String.toList (JsonValue.number.inj h)
  rw [Nat.toList_repr, Nat.toList_repr] at hdigits
  have hread := congrArg (Nat.ofDigitChars 10 · 0) hdigits
  simpa only [Nat.ofDigitChars_ten_toDigits] using hread

end JsonValue

end DbtNova
