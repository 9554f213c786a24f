import DbtNova.RecipeSpecs
import DbtNova.Utf8

/-!
# The scans for placeholders

`parse_placeholder_at`, `apply_runtime_parameter_substitution` and `contains_query_placeholders` of
`tools/recipes/placeholder.rs` and `extract_query_placeholders` of `tools/recipes.rs`, each with its
own cursor over the bytes of the template. They agree with the scans over characters: a placeholder
has ASCII bytes only, and a cursor that goes on behind a placeholder or a character stays between
characters.
-/
namespace DbtNova.PlaceholderScan
open Utf8
open RecipePlaceholder (ParameterMap TypeMap Piece)

abbrev Str := List Char

def isTokenByte (byte : UInt8) : Bool :=
  (Char.ofUInt8 byte).isAlphanum || byte == '_'.toUInt8

/-- The loop from `name_end` on. -/
def nameEndFrom : List UInt8 → ℕ → Option ℕ
  | b :: c :: rest, nameEnd =>
      if b == '_'.toUInt8 && c == '_'.toUInt8 then some nameEnd
      else if isTokenByte b then nameEndFrom (c :: rest) (nameEnd + 1)
      else none
  | _, _ => none

/-- The bytes of a name are a text where they begin and end between characters. -/
def parsePlaceholderAt (text : Str) (index : ℕ) : Option (ℕ × ℕ × Str) :=
  let bytes := encode text
  let nameStart := index + 2
  if bytes[index]? == some '_'.toUInt8 && bytes[index + 1]? == some '_'.toUInt8 &&
      bytes[nameStart]?.any isTokenByte then
    (nameEndFrom (bytes.drop nameStart) nameStart).bind fun nameEnd =>
      (slice text nameStart nameEnd).toOption.map fun token => (index, nameEnd + 2, token)
  else none

def isWrappedByQuote (text : Str) (start stop : ℕ) (quote : Char) : Bool :=
  0 < start && stop < byteLen text && (encode text)[start - 1]? == some (UInt8.ofNat quote.toNat) &&
    (encode text)[stop]? == some (UInt8.ofNat quote.toNat)

/-- The loop from the cursor `i` on; every turn moves the cursor on, so the fuel does not run
out. -/
def substituteFrom (sql : Str) (parameters : ParameterMap) (parameterTypes : Option TypeMap) :
    ℕ → ℕ → Checked (Result Str)
  | 0, _ => .ok (.ok [])
  | fuel + 1, i =>
      if i < byteLen sql then
        match parsePlaceholderAt sql i with
        | some (start, stop, name) =>
            match RecipePlaceholder.getParameterValue (String.ofList name) parameters with
            | none => .ok (.error (.invalidParams
                ("Missing runtime parameter for placeholder '__" ++ String.ofList name ++ "__'")))
            | some value =>
                let placeholderType :=
                  RecipePlaceholder.placeholderType (String.ofList name) parameterTypes
                let quoted :=
                  isWrappedByQuote sql start stop '\'' || isWrappedByQuote sql start stop '"'
                match RecipePlaceholder.coercePlaceholderValue value placeholderType quoted with
                | .error error => .ok (.error error)
                | .ok replacement => do
                    let rest ← substituteFrom sql parameters parameterTypes fuel stop
                    return rest.map (replacement.toList ++ ·)
        | none => do
            let tail ← sliceFrom sql i
            match tail with
            | [] => return .error (.serverError "Invalid SQL payload encoding")
            | nextChar :: _ => do
                let copied ← slice sql i (i + nextChar.utf8Size)
                let rest ← substituteFrom sql parameters parameterTypes fuel (i + nextChar.utf8Size)
                return rest.map (copied ++ ·)
      else .ok (.ok [])

def applyRuntimeParameterSubstitution (sql : Str) (parameters : ParameterMap)
    (parameterTypes : Option TypeMap) : Checked (Result Str) :=
  if parameters.isEmpty then .ok (.ok sql)
  else substituteFrom sql parameters parameterTypes (byteLen sql) 0

def containsFrom (sql : Str) : ℕ → ℕ → Checked Bool
  | 0, _ => .ok false
  | fuel + 1, i =>
      if i < byteLen sql then
        if (parsePlaceholderAt sql i).isSome then .ok true
        else do
          let tail ← sliceFrom sql i
          match tail with
          | [] => return false
          | nextChar :: _ => containsFrom sql fuel (i + nextChar.utf8Size)
      else .ok false

def containsQueryPlaceholders (sql : Str) : Checked Bool := containsFrom sql (byteLen sql) 0

/-- A name is listed unless its key was seen. -/
def extractFrom (sql : Str) : ℕ → ℕ → List String → Checked (List String)
  | 0, _, names => .ok names
  | fuel + 1, i, names =>
      if i < byteLen sql then
        match parsePlaceholderAt sql i with
        | some (_, stop, name) =>
            extractFrom sql fuel stop (RecipeSpecs.addName names (String.ofList name))
        | none => do
            let tail ← sliceFrom sql i
            match tail with
            | [] => return names
            | nextChar :: _ => extractFrom sql fuel (i + nextChar.utf8Size) names
      else .ok names

def extractQueryPlaceholders (sql : Str) : Checked (List String) :=
  extractFrom sql (byteLen sql) 0 []

/-! ### Placeholders over characters -/

section Names
variable {front rest name after : Str} {c d : Char} {k : ℕ}

theorem isTokenByte_class : AsciiClass isTokenByte RecipePlaceholder.isTokenChar := wordClass

theorem isTokenChar_ascii (h : RecipePlaceholder.isTokenChar c = true) : c.toNat < 128 :=
  isWordChar_ascii h

theorem byte_eq_underscore_iff (hc : c.toNat < 128) :
    UInt8.ofNat c.toNat = '_'.toUInt8 ↔ c = '_' := by
  have hbytes := byte_beq hc (show '_'.toNat < 128 by decide)
  rw [Bool.eq_iff_iff, beq_iff_eq, beq_iff_eq] at hbytes
  exact hbytes

/-- The first byte of a text. -/
theorem exists_encode_cons (c : Char) (cs : Str) : ∃ b bytes, encode (c :: cs) = b :: bytes ∧
    (c.toNat < 128 → b = UInt8.ofNat c.toNat ∧ bytes = encode cs) ∧
    (128 ≤ c.toNat → 128 ≤ b.toNat) := by
  by_cases hc : c.toNat < 128
  · refine ⟨UInt8.ofNat c.toNat, encode cs, ?_, fun _ => ⟨rfl, rfl⟩, fun h => by omega⟩
    rw [encode_cons, utf8EncodeChar_ascii hc, List.singleton_append]
  · obtain ⟨hsize, hbytes⟩ := utf8EncodeChar_wide (Nat.not_lt.mp hc)
    cases hencode : String.utf8EncodeChar c with
    | nil =>
        rw [← String.length_utf8EncodeChar, hencode, List.length_nil] at hsize
        omega
    | cons b bytes =>
        refine ⟨b, bytes ++ encode cs, ?_, fun h => absurd h hc, fun _ => ?_⟩
        · rw [encode_cons, hencode, List.cons_append]
        · exact hbytes b (by rw [hencode]; exact List.mem_cons_self)

/-- A wide character ends the search for the end of a name. -/
theorem nameEndFrom_wide {b : UInt8} {bytes : List UInt8} (h : 128 ≤ b.toNat) :
    nameEndFrom (b :: bytes) k = none := by
  have hne : b ≠ '_'.toUInt8 := by
    rintro rfl
    exact absurd h (by decide)
  cases bytes with
  | nil => rfl
  | cons c bytes =>
      rw [nameEndFrom, isTokenByte_class.wideByte b h]
      simp [hne]

theorem nameEndFrom_encode (cs : Str) (k : ℕ) :
    nameEndFrom (encode cs) k =
      (RecipePlaceholder.scanName cs).map fun p => k + p.1.length := by
  induction cs generalizing k with
  | nil => rfl
  | cons c cs ih =>
      obtain ⟨b, bytes, hencode, hascii, hwide⟩ := exists_encode_cons c cs
      by_cases hc : c.toNat < 128
      · obtain ⟨rfl, rfl⟩ := hascii hc
        rw [hencode]
        cases cs with
        | nil => rfl
        | cons d cs =>
            obtain ⟨b', bytes', hencode', hascii', hwide'⟩ := exists_encode_cons d cs
            have hd : b' = '_'.toUInt8 ↔ d = '_' := by
              by_cases hd : d.toNat < 128
              · rw [(hascii' hd).1, byte_eq_underscore_iff hd]
              · have hb' := hwide' (Nat.not_lt.mp hd)
                refine iff_of_false ?_ ?_
                · rintro rfl
                  exact absurd hb' (by decide)
                · rintro rfl
                  exact absurd hd (by decide)
            have hrest := ih (k + 1)
            rw [hencode'] at hrest ⊢
            rw [nameEndFrom, isTokenByte_class.ascii c hc, hrest, RecipePlaceholder.scanName]
            simp only [Bool.and_eq_true, beq_iff_eq, byte_eq_underscore_iff hc, hd]
            split_ifs
            · rfl
            · cases RecipePlaceholder.scanName (d :: cs) with
              | none => rfl
              | some p =>
                  simp only [Option.map_some, List.length_cons, Option.some.injEq]
                  omega
            · rfl
      · have hb := hwide (Nat.not_lt.mp hc)
        have htoken : RecipePlaceholder.isTokenChar c = false := by
          rw [Bool.eq_false_iff]
          exact fun h => hc (isTokenChar_ascii h)
        have hne : c ≠ '_' := by
          rintro rfl
          exact hc (by decide)
        rw [hencode, nameEndFrom_wide hb]
        cases cs with
        | nil => rfl
        | cons d cs => rw [RecipePlaceholder.scanName]; simp [htoken, hne]

theorem scanName_spec (h : RecipePlaceholder.scanName rest = some (name, after)) :
    rest = name ++ '_' :: '_' :: after ∧
      ∀ c ∈ name, RecipePlaceholder.isTokenChar c = true := by
  induction rest generalizing name with
  | nil => cases h
  | cons c rest ih =>
      cases rest with
      | nil => cases h
      | cons d rest =>
          rw [RecipePlaceholder.scanName] at h
          split_ifs at h with hend htoken
          · obtain ⟨rfl, rfl⟩ := Prod.mk.inj (Option.some.inj h)
            obtain ⟨rfl, rfl⟩ := hend
            exact ⟨rfl, fun _ hc => absurd hc List.not_mem_nil⟩
          · obtain ⟨⟨name', after'⟩, hname, heq⟩ := Option.map_eq_some_iff.mp h
            obtain ⟨rfl, rfl⟩ := Prod.mk.inj heq
            obtain ⟨hrest, htokens⟩ := ih hname
            exact ⟨congrArg (c :: ·) hrest, List.forall_mem_cons.mpr ⟨htoken, htokens⟩⟩

/-- A name has one byte for each character. -/
theorem byteLen_name (h : ∀ c ∈ name, RecipePlaceholder.isTokenChar c = true) :
    byteLen name = name.length := by
  induction name with
  | nil => rfl
  | cons c name ih =>
      obtain ⟨hc, hname⟩ := List.forall_mem_cons.mp h
      rw [byteLen_cons, utf8Size_ascii (isTokenChar_ascii hc), ih hname, List.length_cons,
        Nat.add_comm]

/-- A placeholder as it stands in the template. -/
def marked (name : Str) : Str := "__".toList ++ name ++ "__".toList

theorem byteLen_marked (h : ∀ c ∈ name, RecipePlaceholder.isTokenChar c = true) :
    byteLen (marked name) = 2 + name.length + 2 := by
  have hmarks : byteLen "__".toList = 2 := by rfl
  rw [marked, byteLen_append, byteLen_append, byteLen_name h, hmarks]

theorem parsePlaceholder_spec (h : RecipePlaceholder.parsePlaceholderAt rest = some (name, after)) :
    rest = marked name ++ after ∧ ∀ c ∈ name, RecipePlaceholder.isTokenChar c = true := by
  unfold RecipePlaceholder.parsePlaceholderAt at h
  split at h
  · rename_i c cs
    split_ifs at h
    obtain ⟨hrest, htokens⟩ := scanName_spec h
    refine ⟨?_, htokens⟩
    rw [hrest, marked, List.append_assoc, List.append_assoc]
    rfl
  · cases h

theorem byte_at (front rest : Str) (k : ℕ) :
    (encode (front ++ rest))[byteLen front + k]? = (encode rest)[k]? := by
  rw [← length_encode, encode_append, List.getElem?_append_right (Nat.le_add_right _ _),
    Nat.add_sub_cancel_left]

/-- The head of the bytes is a mark where the head of the text is. -/
theorem mark_byte_iff (rest : Str) : (encode rest)[0]? = some '_'.toUInt8 ↔ rest.head? = some '_' :=
  @getElem?_behind_iff [] rest '_' (by decide)

theorem tokenByte_head (rest : Str) :
    (encode rest)[0]?.any isTokenByte = rest.head?.any RecipePlaceholder.isTokenChar :=
  isTokenByte_class.any_behind [] rest

theorem parsePlaceholder_cons (hc : c ≠ '_') (cs : Str) :
    RecipePlaceholder.parsePlaceholderAt (c :: cs) = none := by
  unfold RecipePlaceholder.parsePlaceholderAt
  split
  · rename_i heq
    exact absurd (List.cons.inj heq).1 hc
  · rfl

theorem parsePlaceholder_cons_cons (hd : d ≠ '_') (cs : Str) :
    RecipePlaceholder.parsePlaceholderAt ('_' :: d :: cs) = none := by
  unfold RecipePlaceholder.parsePlaceholderAt
  split
  · rename_i heq
    exact absurd (List.cons.inj (List.cons.inj heq).2).1 hd
  · rfl

theorem parsePlaceholder_marks (cs : Str) :
    RecipePlaceholder.parsePlaceholderAt ('_' :: '_' :: cs) =
      if cs.head?.any RecipePlaceholder.isTokenChar then RecipePlaceholder.scanName cs
      else none := by
  cases cs with
  | nil => rfl
  | cons c cs => rfl

/-- The bytes of a name behind the marks are cut out as the name. -/
theorem slice_name (h : ∀ c ∈ name, RecipePlaceholder.isTokenChar c = true) (front after : Str) :
    slice (front ++ (marked name ++ after)) (byteLen front + 2) (byteLen front + 2 + name.length) =
      .ok name := by
  have hmarks : byteLen "__".toList = 2 := by rfl
  have htext : front ++ (marked name ++ after) =
      (front ++ "__".toList) ++ (name ++ ("__".toList ++ after)) := by
    simp only [marked, List.append_assoc]
  have hstart : byteLen front + 2 = byteLen (front ++ "__".toList) := by
    rw [byteLen_append, hmarks]
  rw [htext, hstart, ← byteLen_name h, ← byteLen_append]
  exact slice_between _ name _

/-- A placeholder over bytes is one over characters. -/
theorem parsePlaceholderAt_front (front rest : Str) :
    parsePlaceholderAt (front ++ rest) (byteLen front) =
      (RecipePlaceholder.parsePlaceholderAt rest).map fun p =>
        (byteLen front, byteLen front + 2 + p.1.length + 2, p.1) := by
  have hzero : (encode (front ++ rest))[byteLen front]? = (encode rest)[0]? := byte_at front rest 0
  have hdrop : (encode (front ++ rest)).drop (byteLen front + 2) = (encode rest).drop 2 := by
    rw [← length_encode, encode_append, List.drop_append, List.drop_eq_nil_of_le (by omega),
      Nat.add_sub_cancel_left, List.nil_append]
  unfold parsePlaceholderAt
  dsimp only
  rw [hzero, byte_at, byte_at, hdrop]
  cases rest with
  | nil => rfl
  | cons c rest =>
      by_cases hc : c = '_'
      · obtain rfl := hc
        cases rest with
        | nil => rfl
        | cons d rest =>
            by_cases hd : d = '_'
            · obtain rfl := hd
              have hhead : (encode ('_' :: '_' :: rest))[0]? = some '_'.toUInt8 := by rfl
              have hnext : (encode ('_' :: '_' :: rest))[1]? = some '_'.toUInt8 := by rfl
              have hthird : (encode ('_' :: '_' :: rest))[2]? = (encode rest)[0]? := by rfl
              have htail : (encode ('_' :: '_' :: rest)).drop 2 = encode rest := by rfl
              rw [hhead, hnext, hthird, htail, tokenByte_head, nameEndFrom_encode,
                parsePlaceholder_marks]
              simp only [beq_self_eq_true, Bool.true_and]
              split_ifs
              · cases hname : RecipePlaceholder.scanName rest with
                | none => rfl
                | some p =>
                    obtain ⟨name, after⟩ := p
                    obtain ⟨hrest, htokens⟩ := scanName_spec hname
                    have hslice := slice_name htokens front after
                    have htext : marked name ++ after = '_' :: '_' :: rest := by
                      rw [hrest, marked, List.append_assoc, List.append_assoc]
                      rfl
                    rw [htext] at hslice
                    rw [Option.map_some, Option.bind_some, hslice]
                    rfl
              · rfl
            · have hnext : ¬ (encode ('_' :: d :: rest))[1]? = some '_'.toUInt8 := by
                have hbyte : (encode ('_' :: d :: rest))[1]? = (encode (d :: rest))[0]? := by rfl
                rw [hbyte, mark_byte_iff]
                exact fun h => hd (Option.some.inj h)
              rw [parsePlaceholder_cons_cons hd, if_neg]
              · rfl
              · simp only [Bool.and_eq_true, beq_iff_eq]
                exact fun h => hnext h.1.2
      · have hhead : ¬ (encode (c :: rest))[0]? = some '_'.toUInt8 := by
          rw [mark_byte_iff]
          exact fun h => hc (Option.some.inj h)
        rw [parsePlaceholder_cons hc, if_neg]
        · rfl
        · simp only [Bool.and_eq_true, beq_iff_eq]
          exact fun h => hhead h.1.1

end Names

/-! ### One turn of a scan -/

section Turns
variable {front rest name after : Str}

theorem isWrappedByQuote_front {quote : Char} (hquote : quote.toNat < 128)
    (front source after : Str) :
    isWrappedByQuote (front ++ (source ++ after)) (byteLen front) (byteLen (front ++ source))
        quote =
      RecipePlaceholder.isWrappedByQuote front.getLast? after.head? quote := by
  have hlen : byteLen (front ++ source) < byteLen (front ++ (source ++ after)) ↔ after ≠ [] := by
    rw [← byteLen_pos_iff, ← List.append_assoc, byteLen_append (front ++ source)]
    omega
  have hafter : (encode (front ++ (source ++ after)))[byteLen (front ++ source)]? =
      some (UInt8.ofNat quote.toNat) ↔ after.head? = some quote := by
    rw [← List.append_assoc]
    exact getElem?_behind_iff hquote
  have hbefore : front ≠ [] → ((encode (front ++ (source ++ after)))[byteLen front - 1]? =
      some (UInt8.ofNat quote.toNat) ↔ front.getLast? = some quote) :=
    getElem?_before_iff hquote
  rw [Bool.eq_iff_iff, isWrappedByQuote, RecipePlaceholder.isWrappedByQuote]
  simp only [Bool.and_eq_true, decide_eq_true_eq, beq_iff_eq, byteLen_pos_iff, hlen, hafter]
  constructor
  · rintro ⟨⟨⟨hfront, -⟩, hlast⟩, hhead⟩
    exact ⟨(hbefore hfront).mp hlast, hhead⟩
  · rintro ⟨hlast, hhead⟩
    have hfront : front ≠ [] := by
      rintro rfl
      cases hlast
    refine ⟨⟨⟨hfront, ?_⟩, (hbefore hfront).mpr hlast⟩, hhead⟩
    rintro rfl
    cases hhead

/-- Behind the characters to be passed the scan goes on. -/
theorem pieces_skip (before : Option Char) (passed rest : Str) :
    RecipePlaceholder.pieces before passed.length (passed ++ rest) =
      RecipePlaceholder.pieces (passed.getLast?.or before) 0 rest := by
  induction passed generalizing before with
  | nil => rfl
  | cons c passed ih =>
      rw [List.length_cons, List.cons_append, RecipePlaceholder.pieces, ih]
      cases passed with
      | nil => rfl
      | cons d passed =>
          rw [List.getLast?_cons_cons, List.getLast?_cons]
          rfl

/-- What stands at a cursor and what the scan makes of it. -/
inductive Turn (front : Str) : Str → Prop
  | done : Turn front []
  | char (c : Char) (rest : Str)
      (here : parsePlaceholderAt (front ++ c :: rest) (byteLen front) = none)
      (scan : RecipePlaceholder.pieces front.getLast? 0 (c :: rest) =
        .char c :: RecipePlaceholder.pieces (front ++ [c]).getLast? 0 rest) :
      Turn front (c :: rest)
  | placeholder (name after : Str)
      (here : parsePlaceholderAt (front ++ (marked name ++ after)) (byteLen front) =
        some (byteLen front, byteLen (front ++ marked name), name))
      (scan : RecipePlaceholder.pieces front.getLast? 0 (marked name ++ after) =
        .placeholder (String.ofList name)
            (isWrappedByQuote (front ++ (marked name ++ after)) (byteLen front)
                (byteLen (front ++ marked name)) '\'' ||
              isWrappedByQuote (front ++ (marked name ++ after)) (byteLen front)
                (byteLen (front ++ marked name)) '"') ::
          RecipePlaceholder.pieces (front ++ marked name).getLast? 0 after) :
      Turn front (marked name ++ after)

theorem turn (front rest : Str) : Turn front rest := by
  cases rest with
  | nil => exact .done
  | cons c cs =>
      cases hparse : RecipePlaceholder.parsePlaceholderAt (c :: cs) with
      | none =>
          refine .char c cs ?_ ?_
          · rw [parsePlaceholderAt_front, hparse]
            rfl
          · rw [RecipePlaceholder.pieces, hparse, List.getLast?_concat]
      | some p =>
          obtain ⟨name, after⟩ := p
          obtain ⟨htext, htokens⟩ := parsePlaceholder_spec hparse
          have hmarked : marked name = '_' :: ('_' :: name ++ "__".toList) := by rfl
          rw [hmarked, List.cons_append] at htext
          obtain ⟨rfl, rfl⟩ := List.cons.inj htext
          have hlast : ('_' :: name ++ "__".toList).getLast? = some '_' := by
            rw [List.getLast?_append]
            rfl
          have hlast' : (front ++ marked name).getLast? = some '_' := by
            rw [hmarked, List.getLast?_append, List.getLast?_cons, hlast]
            rfl
          have hshape : '_' :: ('_' :: name ++ "__".toList ++ after) = marked name ++ after := by
            rfl
          rw [hshape] at hparse ⊢
          refine .placeholder name after ?_ ?_
          · rw [parsePlaceholderAt_front, hparse, byteLen_append, byteLen_marked htokens]
            simp only [Option.map_some, Nat.add_assoc]
          · rw [isWrappedByQuote_front (by decide), isWrappedByQuote_front (by decide), hlast',
              ← hshape, RecipePlaceholder.pieces, hshape, hparse]
            dsimp only
            rw [List.length_append, Nat.add_sub_cancel, pieces_skip, hlast]
            rfl

theorem byteLen_concat (front : Str) (c : Char) :
    byteLen front + c.utf8Size = byteLen (front ++ [c]) := by
  rw [byteLen_append, byteLen_cons]
  rfl

theorem slice_char (front : Str) (c : Char) (rest : Str) :
    slice (front ++ c :: rest) (byteLen front) (byteLen front + c.utf8Size) = .ok [c] := by
  rw [byteLen_concat]
  exact slice_between front [c] rest

theorem cursor_lt (front rest : Str) :
    byteLen front < byteLen (front ++ rest) ↔ rest ≠ [] := by
  rw [← byteLen_pos_iff, byteLen_append]
  omega

theorem rest_eq_nil (h : byteLen rest ≤ 0) : rest = [] := by
  by_contra hne
  exact absurd h (Nat.not_le.mpr (byteLen_pos_iff.mpr hne))

theorem marked_ne_nil (name : Str) : marked name ≠ [] := List.cons_ne_nil _ _

/-- The substitution over bytes renders the pieces of the scan over characters. -/
theorem substituteFrom_eq (parameters : ParameterMap) (types : Option TypeMap) (fuel : ℕ)
    (front rest : Str) (hfuel : byteLen rest ≤ fuel) :
    substituteFrom (front ++ rest) parameters types fuel (byteLen front) =
      .ok (RecipePlaceholder.renderPieces parameters types
        (RecipePlaceholder.pieces front.getLast? 0 rest)) := by
  induction fuel generalizing front rest with
  | zero =>
      rw [rest_eq_nil hfuel]
      rfl
  | succ fuel ih =>
      have hbound := cursor_lt front rest
      rw [substituteFrom]
      cases turn front rest with
      | done => 
          rw [if_neg (fun h => hbound.mp h rfl)]
          rfl
      | char c rest here scan =>
          have hsize := Char.utf8Size_pos c
          rw [byteLen_cons] at hfuel
          have htext : front ++ c :: rest = (front ++ [c]) ++ rest := by simp
          have hnext := ih (front ++ [c]) rest (by omega)
          rw [← htext, ← byteLen_concat] at hnext
          rw [if_pos (hbound.mpr (List.cons_ne_nil c rest)), here, sliceFrom_front, scan]
          change Except.bind (slice (front ++ c :: rest) (byteLen front)
            (byteLen front + c.utf8Size)) _ = _
          rw [slice_char]
          change Except.bind (substituteFrom (front ++ c :: rest) parameters types fuel
            (byteLen front + c.utf8Size)) _ = _
          rw [hnext, RecipePlaceholder.renderPieces]
          cases RecipePlaceholder.renderPieces parameters types
            (RecipePlaceholder.pieces (front ++ [c]).getLast? 0 rest) with
          | error error => rfl
          | ok output => rfl
      | placeholder name after here scan =>
          have hmarked := byteLen_pos_iff.mpr (marked_ne_nil name)
          rw [byteLen_append] at hfuel
          have hnext := ih (front ++ marked name) after (by omega)
          rw [List.append_assoc] at hnext
          have hne := List.append_ne_nil_of_left_ne_nil (marked_ne_nil name) after
          rw [if_pos (hbound.mpr hne), here, scan, RecipePlaceholder.renderPieces,
            RecipePlaceholder.renderPiece]
          dsimp only
          generalize (isWrappedByQuote _ _ _ _ || isWrappedByQuote _ _ _ _) = quoted
          cases RecipePlaceholder.getParameterValue (String.ofList name) parameters with
          | none => rfl
          | some value =>
              dsimp only
              cases RecipePlaceholder.coercePlaceholderValue value
                (RecipePlaceholder.placeholderType (String.ofList name) types) quoted with
              | error error => rfl
              | ok replacement =>
                  dsimp only
                  rw [hnext]
                  cases RecipePlaceholder.renderPieces parameters types
                    (RecipePlaceholder.pieces (front ++ marked name).getLast? 0 after) with
                  | error error => rfl
                  | ok output => rfl

theorem containsFrom_eq (fuel : ℕ) (front rest : Str) (hfuel : byteLen rest ≤ fuel) :
    containsFrom (front ++ rest) fuel (byteLen front) =
      .ok (!((RecipePlaceholder.pieces front.getLast? 0 rest).filterMap
        RecipeSpecs.Piece.name?).isEmpty) := by
  induction fuel generalizing front rest with
  | zero =>
      rw [rest_eq_nil hfuel]
      rfl
  | succ fuel ih =>
      have hbound := cursor_lt front rest
      rw [containsFrom]
      cases turn front rest with
      | done =>
          rw [if_neg (fun h => hbound.mp h rfl)]
          rfl
      | char c rest here scan =>
          have hsize := Char.utf8Size_pos c
          rw [byteLen_cons] at hfuel
          have htext : front ++ c :: rest = (front ++ [c]) ++ rest := by simp
          have hnext := ih (front ++ [c]) rest (by omega)
          rw [← htext, ← byteLen_concat] at hnext
          rw [if_pos (hbound.mpr (List.cons_ne_nil c rest)), here, sliceFrom_front, scan]
          exact hnext
      | placeholder name after here scan =>
          have hne := List.append_ne_nil_of_left_ne_nil (marked_ne_nil name) after
          rw [if_pos (hbound.mpr hne), here, scan]
          rfl

theorem extractFrom_eq (fuel : ℕ) (front rest : Str) (names : List String)
    (hfuel : byteLen rest ≤ fuel) :
    extractFrom (front ++ rest) fuel (byteLen front) names =
      .ok (((RecipePlaceholder.pieces front.getLast? 0 rest).filterMap
        RecipeSpecs.Piece.name?).foldl RecipeSpecs.addName names) := by
  induction fuel generalizing front rest names with
  | zero =>
      rw [rest_eq_nil hfuel]
      rfl
  | succ fuel ih =>
      have hbound := cursor_lt front rest
      rw [extractFrom]
      cases turn front rest with
      | done =>
          rw [if_neg (fun h => hbound.mp h rfl)]
          rfl
      | char c rest here scan =>
          have hsize := Char.utf8Size_pos c
          rw [byteLen_cons] at hfuel
          have htext : front ++ c :: rest = (front ++ [c]) ++ rest := by simp
          have hnext := ih (front ++ [c]) rest names (by omega)
          rw [← htext, ← byteLen_concat] at hnext
          rw [if_pos (hbound.mpr (List.cons_ne_nil c rest)), here, sliceFrom_front, scan]
          exact hnext
      | placeholder name after here scan =>
          have hmarked := byteLen_pos_iff.mpr (marked_ne_nil name)
          rw [byteLen_append] at hfuel
          have hnext := ih (front ++ marked name) after
            (RecipeSpecs.addName names (String.ofList name)) (by omega)
          rw [List.append_assoc] at hnext
          have hne := List.append_ne_nil_of_left_ne_nil (marked_ne_nil name) after
          rw [if_pos (hbound.mpr hne), here, scan]
          exact hnext

end Turns

/-! ### The scans as functions of the pieces -/

section Scans
variable {sql output : Str} {parameters : ParameterMap} {types : Option TypeMap}

theorem applyRuntimeParameterSubstitution_eq (sql : Str) (parameters : ParameterMap)
    (types : Option TypeMap) :
    applyRuntimeParameterSubstitution sql parameters types =
      .ok ((RecipePlaceholder.applyRuntimeParameterSubstitution (String.ofList sql) parameters
        types).map String.toList) := by
  have hscan := substituteFrom_eq parameters types (byteLen sql) [] sql le_rfl
  rw [List.nil_append] at hscan
  unfold applyRuntimeParameterSubstitution RecipePlaceholder.applyRuntimeParameterSubstitution
  split
  · exact congrArg (Except.ok ∘ Except.ok) String.toList_ofList.symm
  · refine hscan.trans (congrArg Except.ok ?_)
    rw [String.toList_ofList, List.getLast?_nil]
    cases RecipePlaceholder.renderPieces parameters types (RecipePlaceholder.pieces none 0 sql) with
    | error error => rfl
    | ok output => exact congrArg Except.ok String.toList_ofList.symm

theorem containsQueryPlaceholders_eq (sql : Str) :
    containsQueryPlaceholders sql =
      .ok (RecipeSpecs.containsQueryPlaceholders (String.ofList sql)) := by
  have hscan := containsFrom_eq (byteLen sql) [] sql le_rfl
  unfold RecipeSpecs.containsQueryPlaceholders RecipeSpecs.placeholderNames
  rwa [String.toList_ofList]

theorem extractQueryPlaceholders_eq (sql : Str) :
    extractQueryPlaceholders sql =
      .ok (RecipeSpecs.extractQueryPlaceholders (String.ofList sql)) := by
  have hscan := extractFrom_eq (byteLen sql) [] sql [] le_rfl
  unfold RecipeSpecs.extractQueryPlaceholders RecipeSpecs.placeholderNames
  rwa [String.toList_ofList]

end Scans
/-! ### The names that are reported -/

section Reported
variable {names : List String} {name : String}

theorem addName_sublist (names : List String) (name : String) :
    (RecipeSpecs.addName names name).Sublist (names ++ [name]) := by
  unfold RecipeSpecs.addName
  split
  · exact List.sublist_append_left names [name]
  · exact List.Sublist.refl _

theorem foldl_addName_sublist (todo names : List String) :
    (todo.foldl RecipeSpecs.addName names).Sublist (names ++ todo) := by
  induction todo generalizing names with
  | nil => rw [List.append_nil]; exact List.Sublist.refl names
  | cons name todo ih =>
      have hstep := (addName_sublist names name).append_right todo
      rw [List.append_assoc, List.singleton_append] at hstep
      exact (ih _).trans hstep

theorem addName_nodup (name : String)
    (h : (names.map RecipePlaceholder.normalizeRecipeQueryKey).Nodup) :
    ((RecipeSpecs.addName names name).map RecipePlaceholder.normalizeRecipeQueryKey).Nodup := by
  unfold RecipeSpecs.addName
  split
  · exact h
  · rename_i hnew
    rw [List.map_append, List.nodup_append]
    refine ⟨h, List.nodup_singleton _, ?_⟩
    rintro key hkey _ hlast rfl
    obtain ⟨other, hother, hsame⟩ := List.mem_map.mp hkey
    refine hnew (List.any_eq_true.mpr ⟨other, hother, beq_iff_eq.mpr ?_⟩)
    rw [hsame, List.map_singleton] at *
    exact List.mem_singleton.mp hlast

theorem foldl_addName_nodup (todo : List String)
    (h : (names.map RecipePlaceholder.normalizeRecipeQueryKey).Nodup) :
    ((todo.foldl RecipeSpecs.addName names).map
      RecipePlaceholder.normalizeRecipeQueryKey).Nodup := by
  induction todo generalizing names with
  | nil => exact h
  | cons name todo ih => exact ih (addName_nodup name h)

end Reported

/-! ### A template as the parts of one pass -/

def source : Piece → Str
  | .char c => [c]
  | .placeholder name _ => marked name.toList

/-- A piece stands at an offset of the template: a placeholder with its name and its quotes, or a
character where no placeholder begins. -/
def Stands (sql : Str) (offset : ℕ) : Piece → Prop
  | .char _ => parsePlaceholderAt sql offset = none
  | .placeholder name quoted =>
      let stop := offset + byteLen (marked name.toList)
      parsePlaceholderAt sql offset = some (offset, stop, name.toList) ∧
        quoted = (isWrappedByQuote sql offset stop '\'' || isWrappedByQuote sql offset stop '"')

/-- The template is cut into parts; each is rendered from what stands there. -/
structure Pass (sql output : Str) (parameters : ParameterMap) (types : Option TypeMap)
    (parts : List (Piece × Str)) : Prop where
  template : parts.flatMap (fun part => source part.1) = sql
  rendered : parts.flatMap Prod.snd = output
  stands : ∀ before part after, parts = before ++ part :: after →
    Stands sql (byteLen (before.flatMap fun part => source part.1)) part.1
  renders : ∀ part ∈ parts,
    RecipePlaceholder.renderPiece parameters types part.1 = .ok part.2

def replacedNames (parts : List (Piece × Str)) : List String :=
  parts.filterMap fun part => RecipeSpecs.Piece.name? part.1

/-- The reported names are names of placeholders, one for each key. -/
structure Reports (replaced reported : List String) : Prop where
  names : reported.Sublist replaced
  keys : (reported.map RecipePlaceholder.normalizeRecipeQueryKey).Nodup
  covers : ∀ name ∈ replaced, ∃ token ∈ reported,
    RecipePlaceholder.normalizeRecipeQueryKey token =
      RecipePlaceholder.normalizeRecipeQueryKey name

section Parts
variable {sql output : Str} {parameters : ParameterMap} {types : Option TypeMap}

/-- The pieces that are found cover the text and stand where they are found. -/
theorem pieces_stand (front rest : Str) :
    (RecipePlaceholder.pieces front.getLast? 0 rest).flatMap source = rest ∧
      ∀ before piece after,
        RecipePlaceholder.pieces front.getLast? 0 rest = before ++ piece :: after →
        Stands (front ++ rest) (byteLen (front ++ before.flatMap source)) piece := by
  induction hlen : rest.length using Nat.strong_induction_on generalizing front rest with
  | _ len ih =>
      subst hlen
      cases turn front rest with
      | done =>
          refine ⟨rfl, fun before piece after h => ?_⟩
          exact absurd h.symm (List.append_ne_nil_of_right_ne_nil _ (List.cons_ne_nil _ _))
      | char c rest here scan =>
          obtain ⟨hsource, hstands⟩ := ih rest.length (Nat.lt_succ_self _) (front ++ [c]) rest rfl
          rw [scan]
          refine ⟨congrArg (c :: ·) hsource, fun before piece after h => ?_⟩
          cases before with
          | nil =>
              obtain ⟨rfl, -⟩ := List.cons.inj h
              rw [List.flatMap_nil, List.append_nil]
              exact here
          | cons first before =>
              obtain ⟨rfl, hrest⟩ := List.cons.inj h
              have htail := hstands before piece after hrest
              rw [List.append_assoc, List.append_assoc] at htail
              exact htail
      | placeholder name tail here scan =>
          have hmarked := List.length_pos_of_ne_nil (marked_ne_nil name)
          obtain ⟨hsource, hstands⟩ :=
            ih tail.length (by rw [List.length_append]; omega) (front ++ marked name) tail rfl
          have hhead : ∀ quoted, source (.placeholder (String.ofList name) quoted) = marked name :=
            fun _ => congrArg marked String.toList_ofList
          rw [scan]
          refine ⟨?_, fun before piece after h => ?_⟩
          · rw [List.flatMap_cons, hhead, hsource]
          · cases before with
            | nil =>
                obtain ⟨rfl, -⟩ := List.cons.inj h
                rw [List.flatMap_nil, List.append_nil]
                unfold Stands
                dsimp only
                rw [String.toList_ofList, ← byteLen_append]
                exact ⟨here, rfl⟩
            | cons first before =>
                obtain ⟨rfl, hrest⟩ := List.cons.inj h
                have htail := hstands before piece after hrest
                rw [List.flatMap_cons, hhead]
                rw [List.append_assoc, List.append_assoc] at htail
                exact htail

/-- A rendered list of pieces has a text for each piece. -/
theorem renderPieces_parts {found : List Piece}
    (h : RecipePlaceholder.renderPieces parameters types found = .ok output) :
    ∃ parts : List (Piece × Str), parts.map Prod.fst = found ∧
      parts.flatMap Prod.snd = output ∧
      ∀ part ∈ parts, RecipePlaceholder.renderPiece parameters types part.1 = .ok part.2 := by
  induction found generalizing output with
  | nil =>
      obtain rfl := Except.ok.inj h
      exact ⟨[], rfl, rfl, fun _ hpart => absurd hpart List.not_mem_nil⟩
  | cons piece found ih =>
      rw [RecipePlaceholder.renderPieces] at h
      obtain ⟨text, htext, h⟩ := bind_eq_ok.mp h
      obtain ⟨rest, hrest, h⟩ := bind_eq_ok.mp h
      obtain rfl := Except.ok.inj h
      obtain ⟨parts, hpieces, houtput, hrenders⟩ := ih hrest
      exact ⟨(piece, text) :: parts, congrArg (piece :: ·) hpieces, congrArg (text ++ ·) houtput,
        List.forall_mem_cons.mpr ⟨htext, hrenders⟩⟩

theorem exists_pass (hparameters : parameters ≠ [])
    (h : applyRuntimeParameterSubstitution sql parameters types = .ok (.ok output)) :
    ∃ parts, Pass sql output parameters types parts ∧
      replacedNames parts = RecipeSpecs.placeholderNames (String.ofList sql) := by
  have hscan := substituteFrom_eq parameters types (byteLen sql) [] sql le_rfl
  rw [List.nil_append, List.getLast?_nil] at hscan
  unfold applyRuntimeParameterSubstitution at h
  rw [if_neg (by simpa using hparameters)] at h
  obtain ⟨parts, hpieces, houtput, hrenders⟩ :=
    renderPieces_parts (Except.ok.inj (hscan.symm.trans h))
  obtain ⟨hsource, hstands⟩ := pieces_stand [] sql
  rw [List.getLast?_nil, ← hpieces] at hsource hstands
  refine ⟨parts, ⟨?_, houtput, ?_, hrenders⟩, ?_⟩
  · rwa [List.flatMap_map] at hsource
  · intro before part after hparts
    have hpart := hstands (before.map Prod.fst) part.1 (after.map Prod.fst)
      (by rw [hparts, List.map_append, List.map_cons])
    rwa [List.nil_append, List.nil_append, List.flatMap_map] at hpart
  · unfold replacedNames RecipeSpecs.placeholderNames
    rw [String.toList_ofList, ← hpieces, List.filterMap_map]
    rfl

/-- The substitution is one pass. Without parameters the template is returned as it is; with
parameters every part is rendered from the template, and the names are those that the other scans
see. -/
theorem substitution_single_pass (sql output : Str) (parameters : ParameterMap)
    (types : Option TypeMap)
    (h : applyRuntimeParameterSubstitution sql parameters types = .ok (.ok output)) :
    (parameters = [] → output = sql) ∧
      (parameters ≠ [] → ∃ parts reported, Pass sql output parameters types parts ∧
        extractQueryPlaceholders sql = .ok reported ∧ Reports (replacedNames parts) reported ∧
        containsQueryPlaceholders sql = .ok (!(replacedNames parts).isEmpty)) := by
  refine ⟨?_, fun hparameters => ?_⟩
  · rintro rfl
    exact (Except.ok.inj (Except.ok.inj h)).symm
  · obtain ⟨parts, hpass, hnames⟩ := exists_pass hparameters h
    refine ⟨parts, _, hpass, extractQueryPlaceholders_eq sql, ⟨?_, ?_, ?_⟩, ?_⟩
    · rw [hnames]
      exact foldl_addName_sublist _ []
    · exact foldl_addName_nodup _ List.nodup_nil
    · intro name hname
      rw [hnames] at hname
      exact RecipeSpecs.foldl_addName_covers _ [] (Or.inr hname)
    · rw [hnames]
      exact containsQueryPlaceholders_eq sql

theorem substitution_single_pass_region :
    ∃ parts reported, Pass "é='__A__'".toList "é='x__b__'".toList [("a", .string "x__b__")] none
        parts ∧
      extractQueryPlaceholders "é='__A__'".toList = .ok reported ∧
      Reports (replacedNames parts) reported ∧
      containsQueryPlaceholders "é='__A__'".toList = .ok (!(replacedNames parts).isEmpty) :=
  (substitution_single_pass "é='__A__'".toList "é='x__b__'".toList [("a", .string "x__b__")] none
    (by rfl)).2 (List.cons_ne_nil _ _)

/-- Without parameters a placeholder stays; of two spellings of a key one is reported. -/
theorem empty_map_keeps_placeholder :
    applyRuntimeParameterSubstitution "__a__".toList [] none = .ok (.ok "__a__".toList) ∧
      extractQueryPlaceholders "__a__".toList = .ok ["a"] ∧
      applyRuntimeParameterSubstitution "__a__ __A__".toList [("a", .number "1")] none =
        .ok (.ok "1 1".toList) ∧
      parsePlaceholderAt "__a__ __A__".toList 6 = some (6, 11, "A".toList) ∧
      extractQueryPlaceholders "__a__ __A__".toList = .ok ["a"] := by
  refine ⟨by rfl, by rfl, by rfl, by rfl, by rfl⟩

end Parts

end DbtNova.PlaceholderScan
