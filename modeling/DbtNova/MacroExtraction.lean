import DbtNova.MacroCalls

/-!
# Which calls are found and replaced

The calls that `extract_macro_calls` returns are in the text, apart and in order. They are all that
stand in code exactly where no opening that the scan takes hides one: an opening without a closing
parenthesis, or one that encloses only the beginning of a call. `normalize_sql_for_parser` replaces
returned calls and blanks the delimiters of templates.
-/
namespace DbtNova.MacroExtraction
open ColumnDefinition LeftmostChoice MacroCalls Utf8

/-! ### What stands in code -/

/-- Behind the text a reference lexer is in no string literal and no comment. -/
def inCode (front : Str) : Bool :=
  match (SqlLexer.run SqlLexer.start (front.map fun c => ⟨c, false⟩)).mode with
  | .code | .dash | .slash | .quoteSeen _ _ _ => true
  | .quoted _ _ _ | .lineComment | .blockComment | .blockStar => false

def Outside (rawSql : Str) (place : ℕ) : Prop :=
  ∃ front back, rawSql = front ++ back ∧ byteLen front = place ∧ inCode front = true

/-- A call outside string literals and comments. -/
def IsPlainCall (rawSql macroName : Str) (span : ℕ × ℕ) : Prop :=
  IsCall rawSql macroName span ∧ Outside rawSql span.1

/-- The calls lie in the text and apart from each other; each is the full text of a call, and every
call in code is returned or nested in a returned one. -/
structure Extraction (rawSql macroName : Str) (calls : List MacroCall) : Prop where
  bounds : ∀ call ∈ calls, call.start < call.stop ∧ call.stop ≤ byteLen rawSql
  ordered : calls.Pairwise fun a b => a.stop ≤ b.start
  areCalls : ∀ call ∈ calls, IsCall rawSql macroName (spanOf call)
  complete : ∀ span, IsPlainCall rawSql macroName span → ∃ call ∈ calls,
    spanOf call = span ∨ call.start < span.1 ∧ span.2 ≤ call.stop

/-- From the left over the openings, each with what it encloses: an opening inside which a call in
code begins is closed, and the call ends inside it too. -/
def Unhidden (rawSql macroName : Str) : Prop :=
  ∀ passed : List (ℕ × ℕ), Leftmost Prod.fst Prod.snd (Encloses rawSql macroName) passed →
    ∀ opening ∈ passed, ∀ span, IsPlainCall rawSql macroName span →
      opening.1 < span.1 → span.1 < opening.2 →
        IsCall rawSql macroName opening ∧ span.2 ≤ opening.2

section Calls
variable {rawSql macroName : Str} {span other : ℕ × ℕ}

theorem isCall_bounds (h : IsCall rawSql macroName span) :
    span.1 < span.2 ∧ span.2 ≤ byteLen rawSql := by
  obtain ⟨front, name, blanks, inner, back, hopens, -, rfl⟩ := h
  rw [hopens.text]
  simp only [byteLen_append, byteLen_cons]
  have hclose : ')'.utf8Size = 1 := by rfl
  omega

theorem not_isUnclosed (h : IsCall rawSql macroName span) : ¬ IsUnclosed rawSql macroName span := by
  obtain ⟨front, name, blanks, inner, back, hopens, hinner, rfl⟩ := h
  rintro ⟨front', name', blanks', rest, hopens', hnone, hspan⟩
  obtain ⟨-, -, -, hrest⟩ := hopens.unique hopens' (congrArg Prod.fst hspan)
  exact hnone inner back hrest.symm hinner

theorem encloses_lt (hcallee : IsName macroName) (h : Encloses rawSql macroName span) :
    span.1 < span.2 := by
  rcases h with hcall | hunclosed
  · exact (isCall_bounds hcall).1
  · have hlt := Encloses.lt hcallee (Or.inr hunclosed)
    obtain ⟨front, name, blanks, rest, -, -, rfl⟩ := hunclosed
    exact hlt

/-- All calls in code are found exactly where none is hidden. -/
theorem extraction_iff (hcallee : IsName macroName) :
    (∃ calls, extractMacroCalls rawSql macroName = .ok calls ∧
      Extraction rawSql macroName calls) ↔ Unhidden rawSql macroName := by
  obtain ⟨calls, stuck, hcalls, hscanned⟩ :=
    macroCallsFrom_scanned hcallee (List.nil_append rawSql).symm (Nat.le_refl (byteLen rawSql))
  have hpassed : Leftmost Prod.fst Prod.snd (Encloses rawSql macroName)
      (calls.map spanOf ++ stuck) := hscanned.leftmost.congr fun span => and_iff_left (Nat.zero_le _)
  have hmem : ∀ call ∈ calls, spanOf call ∈ calls.map spanOf ++ stuck :=
    fun call hcall => List.mem_append_left _ (List.mem_map_of_mem hcall)
  constructor
  · rintro ⟨found, hfound, hextraction⟩ passed hleftmost opening hopening span hspan hbegin hinside
    obtain rfl : calls = found := Except.ok.inj (hcalls.symm.trans hfound)
    obtain rfl : passed = calls.map spanOf ++ stuck :=
      hleftmost.unique hpassed (fun _ h => encloses_lt hcallee h) fun _ _ h h' => h.unique h'
    have hlt := (isCall_bounds hspan.1).1
    obtain ⟨call, hcall, rfl | ⟨hstart, hstop⟩⟩ := hextraction.complete span hspan
    · have hsame := hpassed.eq_of_meet hopening (hmem call hcall) ⟨hbegin.le, hinside⟩ ⟨le_rfl, hlt⟩
      rw [hsame] at hbegin
      exact absurd hbegin (Nat.lt_irrefl _)
    · have hcover : (spanOf call).1 ≤ span.1 ∧ span.1 < (spanOf call).2 :=
        ⟨hstart.le, hlt.trans_le hstop⟩
      have hsame := hpassed.eq_of_meet hopening (hmem call hcall) ⟨hbegin.le, hinside⟩ hcover
      exact hsame ▸ ⟨hextraction.areCalls call hcall, hstop⟩
  · intro hunhidden
    refine ⟨calls, hcalls, ?_, ?_, hscanned.areCalls, ?_⟩
    · exact fun call hcall => isCall_bounds (hscanned.areCalls call hcall)
    · exact List.pairwise_map.mp (List.pairwise_append.mp hpassed.apart).1
    · intro span hspan
      obtain ⟨opening, hopening, hle, hinside⟩ := hpassed.covers span (Or.inl hspan.1)
      have hcalled : IsCall rawSql macroName opening → ∃ call ∈ calls, spanOf call = opening := by
        intro hcall
        rcases List.mem_append.mp hopening with hreturned | hstuck
        · exact List.mem_map.mp hreturned
        · exact absurd (hscanned.areUnclosed opening hstuck) (not_isUnclosed hcall)
      rcases hle.eq_or_lt with hsame | hbegin
      · have hopens := (hpassed.mem opening hopening).unique (Or.inl hspan.1) hsame
        obtain ⟨call, hcall, hreturned⟩ := hcalled (hopens ▸ hspan.1)
        exact ⟨call, hcall, Or.inl (hreturned.trans hopens)⟩
      · obtain ⟨hcall, hends⟩ := hunhidden _ hpassed opening hopening span hspan hbegin hinside
        obtain ⟨call, hmem, rfl⟩ := hcalled hcall
        exact ⟨call, hmem, Or.inr ⟨hbegin, hends⟩⟩

end Calls

/-! ### What the text for the parser replaces -/

/-- A part of the text, with the call that it is the text of, if it is replaced. -/
structure Part where
  source : Str
  call : Option MacroCall

def Part.text (part : Part) : Str :=
  match part.call with
  | none => part.source
  | some call => replacementFor call

def blanked (c : Char) : Char := if c == '\x7b' || c == '\x7d' || c == '%' then ' ' else c

/-- The parts make up the text from a cursor on, and the replaced ones are calls. -/
structure Parted (calls : List MacroCall) (cursor : ℕ) (rest out : Str) (parts : List Part) :
    Prop where
  source : parts.flatMap Part.source = rest
  out : parts.flatMap Part.text = out
  replaced : ∀ before part after, parts = before ++ part :: after → ∀ call ∈ part.call,
    call ∈ calls ∧ call.start = cursor + byteLen (before.flatMap Part.source) ∧
      call.stop = call.start + byteLen part.source

section Parts
variable {rawSql front rest : Str} {calls : List MacroCall} {cursor : ℕ}

theorem parted_rest (rest : Str) : Parted calls cursor rest rest [⟨rest, none⟩] := by
  refine ⟨List.append_nil rest, List.append_nil rest, fun before part after h call hcall => ?_⟩
  cases before with
  | nil =>
      obtain ⟨rfl, -⟩ := List.cons.inj h
      cases hcall
  | cons first before =>
      exact absurd (List.cons.inj h).2.symm (List.append_ne_nil_of_right_ne_nil _
        (List.cons_ne_nil _ _))

theorem Parted.mono {more : List MacroCall} {out : Str} {parts : List Part}
    (h : Parted calls cursor rest out parts) (hsub : ∀ call ∈ calls, call ∈ more) :
    Parted more cursor rest out parts :=
  ⟨h.source, h.out, fun before part after hparts call hcall =>
    ⟨hsub call (h.replaced before part after hparts call hcall).1,
      (h.replaced before part after hparts call hcall).2⟩⟩

/-- A kept part and a replaced one in front. -/
theorem Parted.cons {call : MacroCall} {kept called out : Str} {parts : List Part}
    (hmem : call ∈ calls) (hstart : call.start = cursor + byteLen kept)
    (hstop : call.stop = call.start + byteLen called)
    (h : Parted calls call.stop rest out parts) :
    Parted calls cursor (kept ++ (called ++ rest)) (kept ++ replacementFor call ++ out)
      (⟨kept, none⟩ :: ⟨called, some call⟩ :: parts) := by
  refine ⟨?_, ?_, fun before part after hparts found hfound => ?_⟩
  · rw [List.flatMap_cons, List.flatMap_cons, h.source]
  · rw [List.flatMap_cons, List.flatMap_cons, h.out, List.append_assoc]
    rfl
  · cases before with
    | nil =>
        obtain ⟨rfl, -⟩ := List.cons.inj hparts
        cases hfound
    | cons first before =>
        obtain ⟨rfl, hrest⟩ := List.cons.inj hparts
        cases before with
        | nil =>
            obtain ⟨rfl, -⟩ := List.cons.inj hrest
            obtain rfl : call = found := Option.some.inj hfound
            refine ⟨hmem, ?_, hstop⟩
            rw [hstart, List.flatMap_cons, List.flatMap_nil, List.append_nil]
        | cons second before =>
            obtain ⟨rfl, htail⟩ := List.cons.inj hrest
            obtain ⟨hin, hplace, hend⟩ := h.replaced before part after htail found hfound
            refine ⟨hin, ?_, hend⟩
            rw [hplace, hstop, hstart, List.flatMap_cons, List.flatMap_cons, byteLen_append,
              byteLen_append, Nat.add_assoc, Nat.add_assoc]

theorem replaceCallsFrom_parted (hcalls : ∀ call ∈ calls, CallInText rawSql call)
    (hspans : ∀ call ∈ calls, call.start ≤ call.stop) (htext : rawSql = front ++ rest) :
    ∃ out parts, replaceCallsFrom rawSql calls (byteLen front) = .ok out ∧
      Parted calls (byteLen front) rest out parts := by
  induction calls generalizing front rest with
  | nil =>
      refine ⟨rest, _, ?_, parted_rest rest⟩
      rw [replaceCallsFrom, htext, sliceFrom_front]
  | cons call calls ih =>
      obtain ⟨⟨hstart, hstop⟩, hinText⟩ := List.forall_mem_cons.mp hcalls
      obtain ⟨hspan, hspans⟩ := List.forall_mem_cons.mp hspans
      have hsub : ∀ other ∈ calls, other ∈ call :: calls :=
        fun other hother => List.mem_cons_of_mem call hother
      rw [replaceCallsFrom]
      split_ifs with hskip
      · obtain ⟨out, parts, hout, hparted⟩ := ih hinText hspans htext
        exact ⟨out, parts, hout, hparted.mono hsub⟩
      · simp only [Bool.or_eq_true, decide_eq_true_eq, not_or, not_lt] at hskip
        obtain ⟨upto, behind, htext', hupto⟩ := isBoundary_iff.mp hstart
        obtain ⟨through, back, htext'', hthrough⟩ := isBoundary_iff.mp hstop
        obtain ⟨kept, rfl, rfl⟩ := exists_between (htext.symm.trans htext')
          (hupto ▸ hskip.1.1.1)
        obtain ⟨called, rfl, rfl⟩ := exists_between (htext'.symm.trans htext'')
          (hupto ▸ hthrough ▸ hspan)
        obtain ⟨out, parts, hout, hparted⟩ := ih hinText hspans htext''
        have hslice := slice_between front kept (called ++ back)
        rw [← htext, hupto] at hslice
        rw [hthrough] at hout hparted
        refine ⟨kept ++ replacementFor call ++ out, _, ?_, Parted.cons List.mem_cons_self ?_ ?_
          (hparted.mono hsub)⟩
        · rw [hslice, hout]
          rfl
        · rw [← hupto, byteLen_append]
        · rw [← hthrough, ← hupto, byteLen_append (front ++ kept)]

/-- Text and calls make up the given text; the delimiters of templates become blanks. -/
def OnlyReplaces (rawSql out : Str) : Prop :=
  ∃ refs sources text parts, extractMacroCalls rawSql "ref".toList = .ok refs ∧
    extractMacroCalls rawSql "source".toList = .ok sources ∧
    Parted (refs ++ sources) 0 rawSql text parts ∧ out = text.map blanked

theorem isName_of_mem {macroName : Str} (h : macroName ∈ ["ref".toList, "source".toList]) :
    IsName macroName := by
  simp only [List.mem_cons, List.not_mem_nil, or_false] at h
  rcases h with rfl | rfl
  · exact ⟨by decide, List.all_eq_true.mp (by decide)⟩
  · exact ⟨by decide, List.all_eq_true.mp (by decide)⟩

theorem extractMacroCalls_isCall {macroName : Str} (hcallee : IsName macroName)
    (h : extractMacroCalls rawSql macroName = .ok calls) :
    ∀ call ∈ calls, IsCall rawSql macroName (spanOf call) := by
  obtain ⟨found, stuck, hfound, hscanned⟩ :=
    macroCallsFrom_scanned hcallee (List.nil_append rawSql).symm (Nat.le_refl (byteLen rawSql))
  obtain rfl : found = calls := Except.ok.inj (hfound.symm.trans h)
  exact hscanned.areCalls

theorem normalizeSqlForParser_onlyReplaces (rawSql : Str) :
    ∃ out, normalizeSqlForParser rawSql = .ok out ∧ OnlyReplaces rawSql out := by
  obtain ⟨refs, hrefs, hrefsIn⟩ := extractMacroCalls_ok rawSql "ref".toList
  obtain ⟨sources, hsources, hsourcesIn⟩ := extractMacroCalls_ok rawSql "source".toList
  have hmem : ∀ call ∈ (refs ++ sources).insertionSort fun a b => a.start ≤ b.start,
      call ∈ refs ++ sources := fun call hcall => (List.mem_insertionSort _).mp hcall
  have hin : ∀ call ∈ refs ++ sources, CallInText rawSql call ∧ call.start ≤ call.stop := by
    intro call hcall
    rcases List.mem_append.mp hcall with href | hsource
    · have hcalls := extractMacroCalls_isCall (isName_of_mem (by simp)) hrefs
      exact ⟨hrefsIn call href, (isCall_bounds (hcalls call href)).1.le⟩
    · have hcalls := extractMacroCalls_isCall (isName_of_mem (by simp)) hsources
      exact ⟨hsourcesIn call hsource, (isCall_bounds (hcalls call hsource)).1.le⟩
  obtain ⟨text, parts, htext, hparted⟩ := replaceCallsFrom_parted
    (fun call hcall => (hin call (hmem call hcall)).1)
    (fun call hcall => (hin call (hmem call hcall)).2) (List.nil_append rawSql).symm
  refine ⟨text.map blanked, bind_eq_ok.mpr ⟨refs, hrefs, bind_eq_ok.mpr ⟨sources, hsources,
    bind_eq_ok.mpr ⟨text, htext, rfl⟩⟩⟩, ?_⟩
  exact ⟨refs, sources, text, parts, hrefs, hsources, hparted.mono hmem, rfl⟩

/-- The calls are in order and complete, and nothing else is replaced, exactly where no opening
hides a call. -/
theorem calls_found_iff (rawSql macroName : Str)
    (h : macroName ∈ ["ref".toList, "source".toList]) :
    ((∃ calls, extractMacroCalls rawSql macroName = .ok calls ∧
        Extraction rawSql macroName calls) ∧
      ∃ out, normalizeSqlForParser rawSql = .ok out ∧ OnlyReplaces rawSql out) ↔
    Unhidden rawSql macroName := by
  rw [← extraction_iff (isName_of_mem h)]
  exact and_iff_left (normalizeSqlForParser_onlyReplaces rawSql)

theorem calls_found_from_orders :
    ((∃ calls, extractMacroCalls "from ref('orders')".toList "ref".toList = .ok calls ∧
        Extraction "from ref('orders')".toList "ref".toList calls) ∧
      ∃ out, normalizeSqlForParser "from ref('orders')".toList = .ok out ∧
        OnlyReplaces "from ref('orders')".toList out) ↔
    Unhidden "from ref('orders')".toList "ref".toList :=
  calls_found_iff "from ref('orders')".toList "ref".toList (by decide)

/-- An opening in a comment that nothing closes ends the scan. -/
theorem commented_opening_hides :
    extractMacroCalls "-- ref(\nfrom ref('a')".toList "ref".toList = .ok [] ∧
      IsPlainCall "-- ref(\nfrom ref('a')".toList "ref".toList (13, 21) ∧
      ¬ ∃ calls, extractMacroCalls "-- ref(\nfrom ref('a')".toList "ref".toList = .ok calls ∧
        Extraction "-- ref(\nfrom ref('a')".toList "ref".toList calls := by
  have hnone : extractMacroCalls "-- ref(\nfrom ref('a')".toList "ref".toList = .ok [] := by
    rfl
  have hplain : IsPlainCall "-- ref(\nfrom ref('a')".toList "ref".toList (13, 21) := by
    refine ⟨⟨"-- ref(\nfrom ".toList, "ref".toList, [], "'a'".toList, [], ⟨rfl, rfl, rfl, ?_⟩, ?_,
      rfl⟩, "-- ref(\nfrom ".toList, "ref('a')".toList, rfl, rfl, by decide⟩
    · exact fun c hc => absurd hc List.not_mem_nil
    · exact .quoted '\'' ['a'] [] rfl (.plain 'a' [] (by decide) (by decide) .nil) .nil
  refine ⟨hnone, hplain, ?_⟩
  rintro ⟨calls, hcalls, hextraction⟩
  obtain rfl : [] = calls := Except.ok.inj (hnone.symm.trans hcalls)
  obtain ⟨call, hcall, -⟩ := hextraction.complete _ hplain
  exact List.not_mem_nil hcall

end Parts

end DbtNova.MacroExtraction
