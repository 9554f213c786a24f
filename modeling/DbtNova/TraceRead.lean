import DbtNova.JsonFields
import DbtNova.Text
import DbtNova.TraceLog
import DbtNova.Utf8
import Mathlib.Data.List.Perm.Basic

/-!
# Reading tool traces back

A row is the compact text of a JSON object, and that text has no end of line in it. The reader
splits the file at the ends of lines, passes over blank lines, parses the others one by one and
numbers the rows that it got. A line that is no JSON value gives a warning and nothing else.
-/
namespace DbtNova.TraceRead
open LineLog TraceLog JsonValue Utf8

structure ToolTraceParseWarning where
  line : ℕ
  message : String
  deriving DecidableEq, Repr

structure ToolTraceRead where
  rows : List JsonValue := []
  parseWarnings : List ToolTraceParseWarning := []
  missing : Bool := false
  readError : Bool := false

/-- The characters of a text that was read. -/
def decode (text : Bytes) : List Char :=
  (((ByteArray.mk text.toArray).utf8Decode?).getD #[]).toList

def stripReturn (line : List Char) : List Char :=
  if line.getLast? = some '\r' then line.dropLast else line

/-- `str::lines`: a line ends with `\n` or `\r\n`, and the last one may end without either. -/
def strLines (text : List Char) : List (List Char) :=
  let parts := lines '\n' text
  if text.getLast? = some '\n' then parts.map stripReturn
  else parts.dropLast.map stripReturn ++ parts.getLast?.toList

def normalizeToolTraceIndices (rows : List JsonValue) : List JsonValue :=
  rows.mapIdx fun index row =>
    match row with
    | .object fields => .object (putField "tool_call_index" (.ofNat index) fields)
    | other => other

section Read
variable (fromStr : String → Except String JsonValue)

/-- One line, with its place in the text. -/
def readLine (read : ToolTraceRead) (entry : List Char × ℕ) : ToolTraceRead :=
  if (Text.trimChars entry.1).isEmpty then read
  else
    match fromStr (String.ofList entry.1) with
    | .ok row => { read with rows := read.rows ++ [row] }
    | .error message =>
        { read with parseWarnings := read.parseWarnings ++ [⟨entry.2 + 1, message⟩] }

def readLines (text : List Char) : ToolTraceRead :=
  (strLines text).zipIdx.foldl (readLine fromStr) {}

def readToolTraceFile : TraceRawRead → ToolTraceRead
  | .missing => { missing := true }
  | .error => { readError := true }
  | .raw text =>
      let read := readLines fromStr (decode text)
      { read with rows := normalizeToolTraceIndices read.rows }

/-- The number of a new call when nothing is known of earlier ones. -/
def existingTraceRowCount (raw : TraceRawRead) : ℕ :=
  let read := readToolTraceFile fromStr raw
  if read.readError || read.missing then 0 else read.rows.length

end Read

/-! ## The text of a value is one line -/

theorem escapeChar_printable (c : Char) : ∀ d ∈ escapeChar c, 32 ≤ d.toNat := by
  have hhex : ∀ n < 16, 32 ≤ (hexDigit n).toNat := by decide
  intro d hd
  unfold escapeChar at hd
  split_ifs at hd with h1 h2 h3 h4 h5 h6 h7 h8
  all_goals simp only [List.mem_cons, List.not_mem_nil, or_false] at hd
  · rcases hd with rfl | rfl <;> decide
  · rcases hd with rfl | rfl <;> decide
  · rcases hd with rfl | rfl <;> decide
  · rcases hd with rfl | rfl <;> decide
  · rcases hd with rfl | rfl <;> decide
  · rcases hd with rfl | rfl <;> decide
  · rcases hd with rfl | rfl <;> decide
  · rcases hd with rfl | rfl | rfl | rfl | rfl | rfl
    · decide
    · decide
    · decide
    · decide
    · exact hhex _ (by omega)
    · exact hhex _ (by omega)
  · subst hd
    omega

theorem quoteText_printable (s : String) : ∀ d ∈ quoteText s, 32 ≤ d.toNat := by
  intro d hd
  simp only [quoteText, List.cons_append, List.mem_cons, List.mem_append, List.mem_flatMap,
    List.not_mem_nil, or_false] at hd
  rcases hd with rfl | ⟨c, -, hc⟩ | rfl
  · decide
  · exact escapeChar_printable c d hc
  · decide

theorem mem_separated {α : Type*} {item : α → List Char} {l : List α} {c : Char}
    (h : c ∈ separated item l) : c = ',' ∨ ∃ a ∈ l, c ∈ item a := by
  cases l with
  | nil => cases h
  | cons a l =>
      rw [separated_cons, List.mem_append, List.mem_flatMap] at h
      rcases h with hfirst | ⟨b, hb, hc⟩
      · exact Or.inr ⟨a, List.mem_cons_self, hfirst⟩
      · rcases List.mem_cons.mp hc with rfl | hitem
        · exact Or.inl rfl
        · exact Or.inr ⟨b, List.mem_cons_of_mem a hb, hitem⟩

theorem numberChar_printable {c : Char} (h : numberChar c = true) : 32 ≤ c.toNat := by
  simp only [numberChar, Bool.or_eq_true, beq_iff_eq] at h
  rcases h with ((((hdigit | rfl) | rfl) | rfl) | rfl) | rfl
  · have hlow : 48 ≤ c.toNat := by
      simp only [Char.isDigit, Bool.and_eq_true, decide_eq_true_eq] at hdigit
      exact hdigit.1
    omega
  · decide
  · decide
  · decide
  · decide
  · decide

theorem printable_of_all {text : List Char}
    (h : text.all (fun c => decide (32 ≤ c.toNat)) = true) : ∀ c ∈ text, 32 ≤ c.toNat :=
  fun c hc => of_decide_eq_true (List.all_eq_true.mp h c hc)

theorem chars_printable (v : JsonValue) (hv : v.wellFormed = true) :
    ∀ c ∈ v.chars, 32 ≤ c.toNat := by
  intro c hc
  match v with
  | .null => exact printable_of_all (by decide) c hc
  | .bool true => exact printable_of_all (by decide) c hc
  | .bool false => exact printable_of_all (by decide) c hc
  | .number text =>
      simp only [wellFormed, Bool.and_eq_true] at hv
      exact numberChar_printable (List.all_eq_true.mp hv.1 c hc)
  | .string text => exact quoteText_printable text c hc
  | .array vs =>
      simp only [wellFormed, wellFormedValues_iff] at hv
      simp only [chars, charsOfValues_eq, List.mem_cons, List.cons_append, List.mem_append,
        List.not_mem_nil, or_false] at hc
      rcases hc with rfl | hitems | rfl
      · decide
      · rcases mem_separated hitems with rfl | ⟨a, ha, hitem⟩
        · decide
        · exact chars_printable a (hv a ha) c hitem
      · decide
  | .object fs =>
      simp only [wellFormed, wellFormedFields_iff] at hv
      simp only [chars, charsOfFields_eq, List.mem_cons, List.cons_append, List.mem_append,
        List.not_mem_nil, or_false] at hc
      rcases hc with rfl | hitems | rfl
      · decide
      · rcases mem_separated hitems with rfl | ⟨f, hf, hitem⟩
        · decide
        · obtain ⟨key, a⟩ := f
          rcases List.mem_append.mp hitem with hkey | hvalue
          · exact quoteText_printable key c hkey
          · rcases List.mem_cons.mp hvalue with rfl | hchild
            · decide
            · exact chars_printable a (hv _ hf) c hchild
      · decide
termination_by v
decreasing_by
  · have := List.sizeOf_lt_of_mem ha
    simp only [array.sizeOf_spec]
    omega
  · have := List.sizeOf_lt_of_mem hf
    simp only [object.sizeOf_spec, Prod.mk.sizeOf_spec] at this ⊢
    omega

/-! ## The bytes of the lines -/

theorem mk_encode (text : List Char) : ByteArray.mk (encode text).toArray = text.utf8Encode :=
  ByteArray.ext List.data_toByteArray.symm

theorem decode_encode (text : List Char) : decode (encode text) = text := by
  rw [decode, mk_encode, List.utf8Decode?_utf8Encode, Option.getD_some]

theorem encode_injective : Function.Injective encode := fun text other h => by
  rw [← decode_encode text, h, decode_encode]

/-- What is no text has no line. -/
theorem encode_decode_or (text : Bytes) : encode (decode text) = text ∨ decode text = [] := by
  unfold decode
  cases hcase : (ByteArray.mk text.toArray).utf8Decode? with
  | none => exact Or.inr rfl
  | some chars =>
      have hsome : (ByteArray.mk text.toArray).utf8Decode?.isSome = true := by
        rw [hcase]
        rfl
      obtain ⟨l, hl⟩ := ByteArray.isSome_utf8Decode?_iff.mp hsome
      rw [hl, List.utf8Decode?_utf8Encode, Option.some.injEq] at hcase
      subst hcase
      refine Or.inl ?_
      rw [← mk_encode, ByteArray.mk.injEq] at hl
      rw [Option.getD_some]
      exact (List.toArray_inj hl).symm

theorem newline_notMem {c : Char} (h : c ≠ '\n') : newline ∉ String.utf8EncodeChar c := by
  by_cases hascii : c.toNat < 128
  · rw [utf8EncodeChar_ascii hascii, List.mem_singleton]
    intro heq
    have hnat := congrArg UInt8.toNat heq
    rw [UInt8.toNat_ofNat', Nat.mod_eq_of_lt (by omega)] at hnat
    exact h (Char.toNat_inj.mp hnat.symm)
  · intro hmem
    have hwide := (utf8EncodeChar_wide (by omega)).2 _ hmem
    exact absurd hwide (by decide)

theorem newline_notMem_encode {text : List Char} (h : '\n' ∉ text) : newline ∉ encode text := by
  intro hmem
  obtain ⟨c, hc, hbyte⟩ := List.mem_flatMap.mp hmem
  exact newline_notMem (fun heq => h (heq ▸ hc)) hbyte

/-- The lines of the bytes are the bytes of the lines. -/
theorem lines_encode (text : List Char) :
    lines newline (encode text) = (lines '\n' text).map encode := by
  induction text with
  | nil => rfl
  | cons c text ih =>
      rw [encode_cons]
      by_cases hc : c = '\n'
      · subst hc
        have hbytes : String.utf8EncodeChar '\n' = [newline] := by decide
        rw [hbytes, List.singleton_append]
        simp [lines, ih]
      · have hne : String.utf8EncodeChar c ≠ [] := by
          intro hnil
          have hsize := String.length_utf8EncodeChar c
          rw [hnil] at hsize
          exact absurd hsize.symm (Nat.ne_of_gt c.utf8Size_pos)
        rw [lines_append_of_notMem (newline_notMem hc) hne, lines_cons_ne hc, ih]
        cases lines '\n' text with
        | nil => simp
        | cons line rest => simp

/-! ## What is read -/

theorem stripReturn_eq {line : List Char} (h : '\r' ∉ line) : stripReturn line = line := by
  refine if_neg fun hlast => h ?_
  exact List.mem_of_getLast? hlast

theorem length_strLines (text : List Char) :
    (strLines text).length = (lines '\n' text).length := by
  unfold strLines
  simp only
  split
  · exact List.length_map _
  · cases hlines : lines '\n' text using List.reverseRecOn with
    | nil => rfl
    | append_singleton front last => simp

/-- Lines without a carriage return come out as they are. -/
theorem sublist_strLines {text : List Char} {kept : List (List Char)}
    (h : kept.Sublist (lines '\n' text)) (hplain : ∀ line ∈ kept, '\r' ∉ line) :
    kept.Sublist (strLines text) := by
  have hmap : kept.map stripReturn = kept := by
    rw [List.map_congr_left fun line hline => stripReturn_eq (hplain line hline), List.map_id']
  unfold strLines
  simp only
  split
  · rw [← hmap]
    exact h.map _
  · cases hlines : lines '\n' text using List.reverseRecOn with
    | nil =>
        rw [hlines] at h
        exact h
    | append_singleton front last =>
        rw [hlines] at h
        obtain ⟨first, second, rfl, hfirst, hsecond⟩ := List.sublist_append_iff.mp h
        rw [List.dropLast_concat, List.getLast?_concat]
        refine List.Sublist.append ?_ hsecond
        have hfront : first.map stripReturn = first := by
          rw [List.map_congr_left fun line hline =>
            stripReturn_eq (hplain line (List.mem_append_left second hline)), List.map_id']
        rw [← hfront]
        exact hfirst.map _

section Rows
variable {fromStr : String → Except String JsonValue} {read : ToolTraceRead}
  {entries : List (List Char × ℕ)} {text line : List Char}

def rowOf (fromStr : String → Except String JsonValue) (line : List Char) : Option JsonValue :=
  if (Text.trimChars line).isEmpty then none else (fromStr (String.ofList line)).toOption

theorem readLine_rows (entry : List Char × ℕ) :
    (readLine fromStr read entry).rows = read.rows ++ (rowOf fromStr entry.1).toList := by
  unfold readLine rowOf
  split
  · simp
  · cases fromStr (String.ofList entry.1) <;> simp [Except.toOption]

theorem readLine_length (entry : List Char × ℕ) :
    (readLine fromStr read entry).rows.length + (readLine fromStr read entry).parseWarnings.length ≤
      read.rows.length + read.parseWarnings.length + 1 := by
  unfold readLine
  split
  · omega
  · cases fromStr (String.ofList entry.1) with
    | error message =>
        simp only [List.length_append, List.length_singleton]
        omega
    | ok row =>
        simp only [List.length_append, List.length_singleton]
        omega

theorem foldl_readLine_rows :
    (entries.foldl (readLine fromStr) read).rows =
      read.rows ++ (entries.map Prod.fst).filterMap (rowOf fromStr) := by
  induction entries generalizing read with
  | nil => simp
  | cons entry entries ih =>
      rw [List.foldl_cons, ih, readLine_rows, List.append_assoc, List.map_cons]
      congr 1
      cases hcase : rowOf fromStr entry.1 with
      | none => rw [List.filterMap_cons_none hcase, Option.toList_none, List.nil_append]
      | some row =>
          rw [List.filterMap_cons_some hcase, Option.toList_some, List.singleton_append]

theorem foldl_readLine_length :
    (entries.foldl (readLine fromStr) read).rows.length +
        (entries.foldl (readLine fromStr) read).parseWarnings.length ≤
      read.rows.length + read.parseWarnings.length + entries.length := by
  induction entries generalizing read with
  | nil => exact Nat.le_refl _
  | cons entry entries ih =>
      have hfirst : (readLine fromStr read entry).rows.length +
          (readLine fromStr read entry).parseWarnings.length ≤
            read.rows.length + read.parseWarnings.length + 1 := readLine_length entry
      rw [List.foldl_cons, List.length_cons]
      refine ih.trans ?_
      omega

theorem readLines_rows : (readLines fromStr text).rows =
    (strLines text).filterMap (rowOf fromStr) := by
  rw [readLines, foldl_readLine_rows, List.zipIdx_map_fst]
  exact List.nil_append _

/-- Each line gives at most one row or one warning. -/
theorem readLines_length : (readLines fromStr text).rows.length +
    (readLines fromStr text).parseWarnings.length ≤ (lines '\n' text).length := by
  have hfold : (readLines fromStr text).rows.length +
      (readLines fromStr text).parseWarnings.length ≤ 0 + 0 + (strLines text).zipIdx.length :=
    foldl_readLine_length
  rw [List.length_zipIdx, length_strLines] at hfold
  omega

end Rows

/-- The row that a call appends: the text of an object. -/
def rowValue (fields : List (String × JsonValue)) : JsonValue := .object fields

def rowBytes (fields : List (String × JsonValue)) : Bytes := encode (rowValue fields).chars

section Written
variable {fromStr : String → Except String JsonValue}
  {written : List (List (String × JsonValue))} {fields : List (String × JsonValue)}

theorem row_notMem (hfields : (rowValue fields).wellFormed = true) {c : Char} (hc : c.toNat < 32) :
    c ∉ (rowValue fields).chars := fun hmem =>
  absurd (chars_printable (rowValue fields) hfields c hmem) (by omega)

theorem rowOf_row (hparse : fromStr (rowValue fields).toText = .ok (rowValue fields)) :
    rowOf fromStr (rowValue fields).chars = some (rowValue fields) := by
  have hblank : (Text.trimChars (rowValue fields).chars).isEmpty = false := by
    have hmem : '\x7b' ∈ Text.trimChars (rowValue fields).chars :=
      Text.mem_trimChars List.mem_cons_self (by decide)
    rw [List.isEmpty_eq_false_iff]
    exact List.ne_nil_of_mem hmem
  have hparse' : fromStr (String.ofList (rowValue fields).chars) = .ok (rowValue fields) := hparse
  rw [rowOf, hblank, hparse']
  rfl

theorem filterMap_rows {kept : List (List (String × JsonValue))}
    (hparse : ∀ fields ∈ kept, fromStr (rowValue fields).toText = .ok (rowValue fields)) :
    (kept.map fun fields => (rowValue fields).chars).filterMap (rowOf fromStr) =
      kept.map rowValue := by
  induction kept with
  | nil => rfl
  | cons fields kept ih =>
      rw [List.map_cons, List.map_cons,
        List.filterMap_cons_some (rowOf_row (hparse fields List.mem_cons_self)),
        ih fun fields hfields => hparse fields (List.mem_cons_of_mem _ hfields)]

/-- The lines of rows that were written whole. -/
theorem strLines_rows {rows : List (List (String × JsonValue))}
    (hwell : ∀ fields ∈ rows, (rowValue fields).wellFormed = true) :
    strLines (text '\n' ((rows.map fun fields => (rowValue fields).chars).map .whole)) =
      rows.map fun fields => (rowValue fields).chars := by
  have hseparated : Separated '\n'
      ((rows.map fun fields => (rowValue fields).chars).map .whole) := by
    intro piece hpiece
    obtain ⟨line, hline, rfl⟩ := List.mem_map.mp hpiece
    obtain ⟨fields, hfields, rfl⟩ := List.mem_map.mp hline
    exact row_notMem (hwell fields hfields) (by decide)
  have hlines :
      lines '\n' (text '\n' ((rows.map fun fields => (rowValue fields).chars).map .whole)) =
        rows.map fun fields => (rowValue fields).chars := by
    rw [lines_whole_text hseparated, linesBehind_whole]
  refine (List.Sublist.eq_of_length ?_ ?_).symm
  · refine sublist_strLines (by rw [hlines]) fun line hline => ?_
    obtain ⟨fields, hfields, rfl⟩ := List.mem_map.mp hline
    exact row_notMem (hwell fields hfields) (by decide)
  · rw [length_strLines, hlines]

/-- Rows that were written whole read back as they are. -/
theorem readLines_whole {rows : List (List (String × JsonValue))}
    (hwell : ∀ fields ∈ rows, (rowValue fields).wellFormed = true)
    (hparse : ∀ fields ∈ rows, fromStr (rowValue fields).toText = .ok (rowValue fields)) :
    let read := readLines fromStr
      (text '\n' ((rows.map fun fields => (rowValue fields).chars).map .whole))
    read.rows = rows.map rowValue ∧ read.parseWarnings = [] := by
  have hrows : (readLines fromStr
      (text '\n' ((rows.map fun fields => (rowValue fields).chars).map .whole))).rows =
        rows.map rowValue := by
    rw [readLines_rows, strLines_rows hwell, filterMap_rows hparse]
  refine ⟨hrows, ?_⟩
  have hlength := @readLines_length fromStr
    (text '\n' ((rows.map fun fields => (rowValue fields).chars).map .whole))
  rw [hrows, ← length_strLines, strLines_rows hwell, List.length_map, List.length_map] at hlength
  exact List.eq_nil_of_length_eq_zero (by omega)

/-- Texts that are taken out of the texts of values come from values taken out likewise. -/
theorem exists_kept {α β : Type*} {f : α → β} {intact : List β} {given : List α}
    (h : intact.Subperm (given.map f)) :
    ∃ kept : List α, kept.map f = intact ∧ kept.Subperm given := by
  obtain ⟨inside, hperm, hsub⟩ := h
  obtain ⟨chosen, hchosen, rfl⟩ := List.sublist_map_iff.mp hsub
  have hpairs : List.Forall₂ (fun b a => b = f a) (chosen.map f) chosen := by
    rw [List.forall₂_map_left_iff, List.forall₂_same]
    exact fun _ _ => rfl
  obtain ⟨kept, hkept, hperm'⟩ := List.perm_comp_forall₂ hperm.symm hpairs
  have hmap : intact = kept.map f := by
    rw [← List.forall₂_eq_eq_eq, List.forall₂_map_right_iff]
    exact hkept
  exact ⟨kept, hmap.symm, hperm'.subperm.trans hchosen.subperm⟩

/-- A read during any concurrent writing gives rows that were written, each at most as often, up
to one row or warning for each step that failed or stopped, and numbers them in order. -/
theorem read_rows_are_written {maxBytes readers i : ℕ} {moves : List (ℕ × Act)} {t : State}
    {seen : Bytes} (hwell : ∀ fields ∈ written, (rowValue fields).wellFormed = true)
    (hparse : ∀ fields ∈ written, fromStr (rowValue fields).toText = .ok (rowValue fields))
    (hrun : TransitionSystem.run (step maxBytes) (start (written.map rowBytes) readers) moves =
      some t)
    (hread : t.calls[i]? = some (.ended (some (.raw seen)))) :
    ∃ kept : List (List (String × JsonValue)), ∃ found : List JsonValue,
      kept.Subperm written ∧ (kept.map rowValue).Sublist found ∧
        (readToolTraceFile fromStr (.raw seen)).rows = normalizeToolTraceIndices found ∧
        found.length + (readToolTraceFile fromStr (.raw seen)).parseWarnings.length ≤
          kept.length + faults moves := by
  have hgiven : ∀ row ∈ written.map rowBytes, newline ∉ row := by
    intro row hrow
    obtain ⟨fields, hfields, rfl⟩ := List.mem_map.mp hrow
    exact newline_notMem_encode (row_notMem (hwell fields hfields) (by decide))
  obtain ⟨intact, hlines, hrows, hfew⟩ := read_lines_are_rows hgiven hrun hread
  obtain ⟨kept, rfl, hkept⟩ := exists_kept hrows
  have hwritten : ∀ fields ∈ kept, fields ∈ written := fun fields hfields => hkept.subset hfields
  rcases encode_decode_or seen with hvalid | hinvalid
  · have hbytes :
        kept.map rowBytes = (kept.map fun fields => (rowValue fields).chars).map encode := by
      rw [List.map_map]
      rfl
    rw [← hvalid, lines_encode, List.length_map, List.length_map] at hfew
    rw [← hvalid, lines_encode, hbytes] at hlines
    obtain ⟨chosen, hchosen, hsame⟩ := List.sublist_map_iff.mp hlines
    rw [← (List.map_injective_iff.mpr encode_injective hsame)] at hchosen
    refine ⟨kept, (readLines fromStr (decode seen)).rows, hkept, ?_, rfl, ?_⟩
    · have hparsed := fun fields hfields => hparse fields (hwritten fields hfields)
      rw [readLines_rows, ← filterMap_rows hparsed]
      refine (sublist_strLines hchosen fun line hline => ?_).filterMap _
      obtain ⟨fields, hfields, rfl⟩ := List.mem_map.mp hline
      exact row_notMem (hwell fields (hwritten fields hfields)) (by decide)
    · exact readLines_length.trans hfew
  · refine ⟨[], [], List.nil_subperm, List.Sublist.refl _, ?_, ?_⟩
    · rw [readToolTraceFile, hinvalid]
      rfl
    · rw [readToolTraceFile, hinvalid]
      exact Nat.zero_le _

end Written

/-- A parser that knows one text. -/
def parseNull (text : String) : Except String JsonValue :=
  if text = (rowValue [("b", .null)]).toText then .ok (rowValue [("b", .null)])
  else if text = (rowValue [("a", .null)]).toText then .ok (rowValue [("a", .null)])
  else .error "expected value"

def tornText : Bytes := encode "\x7b\x7b\"b\":null\x7d\n".toList

theorem read_rows_are_written_torn :
    ∃ kept : List (List (String × JsonValue)), ∃ found : List JsonValue,
      kept.Subperm [[("a", .null)], [("b", .null)]] ∧ (kept.map rowValue).Sublist found ∧
        (readToolTraceFile parseNull (.raw tornText)).rows = normalizeToolTraceIndices found ∧
        found.length + (readToolTraceFile parseNull (.raw tornText)).parseWarnings.length ≤
          kept.length + faults tornMoves := by
  have hrun : TransitionSystem.run (step 0)
      (start ([[("a", .null)], [("b", .null)]].map rowBytes) 1) tornMoves =
      some ⟨some tornText, [.ended none, .ended none, .ended (some (.raw tornText))]⟩ := by decide
  refine read_rows_are_written (i := 2) ?_ ?_ hrun rfl
  · simp [rowValue, wellFormed, wellFormedFields, wellFormedField]
  · intro fields hfields
    simp only [List.mem_cons, List.not_mem_nil, or_false] at hfields
    rcases hfields with rfl | rfl
    · rfl
    · rfl

/-- The rows of a file are numbered from zero. -/
theorem normalize_lookup {rows : List JsonValue} {i : ℕ} {fields : List (String × JsonValue)}
    (h : (normalizeToolTraceIndices rows)[i]? = some (.object fields)) :
    fields.lookup "tool_call_index" = some (.ofNat i) := by
  rw [normalizeToolTraceIndices, List.getElem?_mapIdx, Option.map_eq_some_iff] at h
  obtain ⟨row, -, hrow⟩ := h
  split at hrow
  · cases hrow
    exact lookup_putField
  · rename_i hother
    exact absurd hrow (hother fields)

end DbtNova.TraceRead
